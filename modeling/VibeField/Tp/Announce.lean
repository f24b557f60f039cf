import VibeField.Tp.Tells

/-!
# What a client has been told

A `TellRun` is the table with what every activation's client has heard of its lease: the
rights its attach reply granted, and every status since.  What was heard last is the
lease as it stands, whatever the operations were.  A status carries no lease epoch: an
activation keeps the one its attach grant gave it.
-/

namespace VibeField.Tp

open List Option ActivationTable

def Effect.grantedTo (x : ActivationId) : Effect → Option (List AttachRight)
  | .send _ (.controlLegAttached reply) =>
    if reply.activationId = x then some reply.rights else none
  | _ => none

def granted (x : ActivationId) (es : List Effect) : Option (List AttachRight) :=
  es.findSome? (Effect.grantedTo x)

/-- The two halves of a lease, as the wire carries them. -/
structure LeaseHalves where
  presentation : LeaseDimension
  input : LeaseDimension
  deriving DecidableEq, Repr

def CellActivationStatus.halves (status : CellActivationStatus) : LeaseHalves where
  presentation := status.presentation
  input := status.input

def repliedHalves (rights : List AttachRight) : LeaseHalves where
  presentation := { state := "stopped", reason := some Reason.pending.word }
  input :=
    if .input ∈ rights then { state := "suspended", reason := some Reason.pending.word }
    else { state := "revoked", reason := some Reason.notGranted.word }

structure Heard where
  rights : List AttachRight := []
  statuses : List CellActivationStatus := []

namespace Heard

def halves (h : Heard) : LeaseHalves :=
  match h.statuses.getLast? with
  | none => repliedHalves h.rights
  | some status => status.halves

def sequences (h : Heard) : List Nat := h.statuses.map fun status => status.cellStatusSequence

def hears (h : Heard) (told : List CellActivationStatus) : Heard :=
  { h with statuses := h.statuses ++ told }

end Heard

structure TellRun where
  table : ActivationTable
  heard : ActivationId → Heard

namespace TellRun

def hearing (s : TellRun) (after : ActivationTable) (es : List Effect) (x : ActivationId) :
    Heard :=
  if (s.table.get x).isNone && (after.get x).isSome then
    { rights := (granted x es).getD [], statuses := statuses x es }
  else
    (s.heard x).hears (statuses x es)

def perform (s : TellRun) (m : Moment) (op : Op) : TellRun where
  table := (s.table.apply m op).1
  heard := s.hearing (s.table.apply m op).1 (s.table.apply m op).2

def machine (cellBootId : String) : Machine TellRun (Moment × Op) where
  start := { table := .new cellBootId, heard := fun _ => {} }
  next s e := some (s.perform e.1 e.2)

end TellRun

/-! ## The reply of an attach that opens -/

namespace ActivationTable

variable {t : ActivationTable} {m : Moment} {x : ActivationId} {i : AttachControlInput}

theorem granted_invalidate (t : ActivationTable) (m : Moment) (y : ActivationId) (r : Reason)
    (x : ActivationId) : granted x (t.invalidate m y r).2 = none := by
  refine List.findSome?_eq_none_iff.mpr fun e he => ?_
  rw [invalidate] at he
  split at he
  · cases he
  · next a ha =>
    rcases mem_append.mp he with he | he
    · rw [releaseGeometryIfHeld] at he
      split at he
      · dsimp only at he
        rw [seatAnnouncements] at he
        split at he
        · cases he
        · obtain ⟨b, -, rfl⟩ := List.mem_map.mp he
          rfl
      · cases he
    · simp only [Activation.revocationEffects, mem_append] at he
      rcases he with (he | he) | he
      · split at he
        · cases he
        · rw [mem_singleton.mp he]
          rfl
      · cases hv : a.view with
        | none => rw [hv] at he; cases he
        | some v =>
          rw [hv] at he
          rw [mem_singleton.mp he]
          rfl
      · split at he
        · rw [mem_singleton.mp he]
          rfl
        · cases he

theorem granted_openControl {before : List Effect} (hbefore : granted i.activationId before = none)
    (hnone : t.get i.activationId = none)
    (hopened : ((t.openControl m i before).1.get i.activationId).isSome = true) :
    granted i.activationId (t.openControl m i before).2 = some i.claims.rights := by
  rw [openControl] at hopened ⊢
  split
  · next hfull =>
    rw [if_pos hfull, hnone] at hopened
    cases hopened
  · next hroom =>
    split
    · next htaken =>
      rw [hnone] at htaken
      cases htaken
    · have hreply : Effect.grantedTo i.activationId
          (.send i.leg (i.opened m).controlLegAttached) = some i.claims.rights := by
        simp [Effect.grantedTo, Activation.controlLegAttached, AttachControlInput.opened,
          Activation.opened, AttachControlInput.activationId]
      rw [granted] at hbefore
      simp only [granted, append_assoc, List.findSome?_append, hbefore, none_or,
        cons_append, List.findSome?_cons, hreply]

theorem granted_attachControl (h : t.WellIndexed) (hnone : t.get i.activationId = none)
    (hopened : ((t.attachControl m i).1.get i.activationId).isSome = true) :
    granted i.activationId (t.attachControl m i).2 = some i.claims.rights := by
  have hend := attachControl_end t h m i
  generalize t.attachControl m i = r at hend hopened
  cases hend with
  | refused code retryable =>
    rw [hnone] at hopened
    cases hopened
  | own a ha _ _ _ =>
    rw [hnone] at ha
    cases ha
  | free _ _ _ => exact granted_openControl rfl hnone hopened
  | replaced existing hr =>
    refine granted_openControl (granted_invalidate t m existing .replaced _) ?_ hopened
    rw [get_invalidate, if_neg (Ne.symm (replaces_iff.mp hr).ne)]
    exact hnone

end ActivationTable

/-! ## What was heard stands -/

namespace TellRun

variable {s : TellRun} {x : ActivationId} {a b : Activation} {cellBootId : String}

structure Current (h : Heard) (a : Activation) : Prop where
  halves : h.halves = a.status.halves
  newest : ∀ n ∈ h.sequences, n ≤ a.statusSequence

structure Kept (s : TellRun) : Prop where
  indexed : s.table.WellIndexed
  current : ∀ x a, s.table.get x = some a → Current (s.heard x) a
  increasing : ∀ x, (s.heard x).sequences.Pairwise (· < ·)

theorem halves_hears_one (h : Heard) (status : CellActivationStatus) :
    (h.hears [status]).halves = status.halves := by
  simp [Heard.halves, Heard.hears]

theorem sequences_hears (h : Heard) (told : List CellActivationStatus) :
    (h.hears told).sequences = h.sequences ++ told.map fun status => status.cellStatusSequence := by
  simp [Heard.sequences, Heard.hears]

theorem hears_nil (h : Heard) : h.hears [] = h := by
  simp [Heard.hears]

theorem increasing_hears {h : Heard} {n : Nat} (hnewest : ∀ k ∈ h.sequences, k ≤ n)
    (hincreasing : h.sequences.Pairwise (· < ·)) {status : CellActivationStatus}
    (hnext : status.cellStatusSequence = n + 1) :
    (h.hears [status]).sequences.Pairwise (· < ·) := by
  rw [sequences_hears, pairwise_append]
  refine ⟨hincreasing, pairwise_singleton _ _, fun k hk k' hk' => ?_⟩
  have hk' : k' = status.cellStatusSequence := mem_singleton.mp hk'
  have := hnewest k hk
  omega

theorem current_opened (m : Moment) (i : AttachControlInput) :
    Current { rights := i.claims.rights } (i.opened m) := by
  refine ⟨?_, by simp [Heard.sequences]⟩
  by_cases hinput : AttachRight.input ∈ i.claims.rights <;>
    simp [Heard.halves, repliedHalves, CellActivationStatus.halves, Activation.status,
      AttachControlInput.opened, Activation.opened, hinput]

theorem Current.quiet {told : Heard} (h : Current told a) (hsame : SameLease a b) :
    Current (told.hears []) b := by
  rw [hears_nil]
  refine ⟨h.halves.trans ?_, fun n hn => ?_⟩
  · simp only [CellActivationStatus.halves, Activation.status, hsame.presentation, hsame.input]
  · exact hsame.statusSequence ▸ h.newest n hn

theorem Current.next {told : Heard} (h : Current told a) (hnext : NextLease a b) :
    Current (told.hears [b.status]) b := by
  refine ⟨halves_hears_one _ _, fun n hn => ?_⟩
  rw [sequences_hears] at hn
  rcases mem_snoc.mp hn with hn | hn
  · have hold := h.newest n hn
    have hsequence := hnext.statusSequence
    omega
  · exact Nat.le_of_eq hn

theorem Kept.current_perform (h : s.Kept) (m : Moment) (op : Op)
    (hb : (s.table.apply m op).1.get x = some b) : Current ((s.perform m op).heard x) b := by
  have htell := tells_apply h.indexed m op x
  simp only [TellRun.perform, hearing]
  rw [hb] at htell ⊢
  generalize hes : statuses x (s.table.apply m op).2 = told at htell ⊢
  cases ha : s.table.get x with
  | none =>
    rw [ha] at htell
    cases htell with
    | opened i hx =>
      subst hx
      have hgranted := granted_attachControl h.indexed ha
        (by rw [show (s.table.attachControl m i).1.get i.activationId = _ from hb]; rfl)
      have hrights : (granted i.activationId (s.table.apply m (.attachControl i)).2).getD [] =
          i.claims.rights := by
        rw [show (s.table.apply m (.attachControl i)).2 = (s.table.attachControl m i).2 from rfl,
          hgranted, getD_some]
      simp only [isNone_none, isSome_some, Bool.and_self, if_true, hrights]
      exact current_opened m i
  | some a =>
    have hcurrent := h.current x a ha
    rw [ha] at htell
    simp only [isNone_some, Bool.false_and, Bool.false_eq_true, if_false]
    cases htell with
    | quiet _ _ _ hsame => exact hcurrent.quiet hsame
    | told _ _ _ hnext => exact hcurrent.next hnext

theorem Kept.increasing_perform (h : s.Kept) (m : Moment) (op : Op) (x : ActivationId) :
    ((s.perform m op).heard x).sequences.Pairwise (· < ·) := by
  have htell := tells_apply h.indexed m op x
  simp only [TellRun.perform, hearing]
  generalize hes : statuses x (s.table.apply m op).2 = told at htell ⊢
  have hincreasing := h.increasing x
  cases ha : s.table.get x with
  | none =>
    rw [ha] at htell
    cases hb : (s.table.apply m op).1.get x with
    | none =>
      rw [hb] at htell
      cases htell
      simpa [hears_nil] using hincreasing
    | some b =>
      rw [hb] at htell
      generalize some b = r at htell
      cases htell with
      | absent => simpa [hears_nil] using hincreasing
      | opened i hx => simp [Heard.sequences]
  | some a =>
    have hnewest := (h.current x a ha).newest
    simp only [isNone_some, Bool.false_and, Bool.false_eq_true, if_false]
    rw [ha] at htell
    cases hb : (s.table.apply m op).1.get x with
    | none =>
      rw [hb] at htell
      cases htell with
      | revoked _ _ r =>
        split
        · rwa [hears_nil]
        · exact increasing_hears hnewest hincreasing rfl
      | lost _ _ _ => rwa [hears_nil]
    | some b =>
      rw [hb] at htell
      cases htell with
      | quiet _ _ _ _ => rwa [hears_nil]
      | told _ _ _ hnext => exact increasing_hears hnewest hincreasing hnext.statusSequence

theorem Kept.perform (h : s.Kept) (m : Moment) (op : Op) : (s.perform m op).Kept :=
  ⟨h.indexed.apply m op, fun _ _ hb => h.current_perform m op hb, h.increasing_perform m op⟩

theorem Kept.reachable (h : (machine cellBootId).Reachable s) : s.Kept := by
  refine h.invariant (P := Kept)
    ⟨.new cellBootId, fun x a ha => (by cases ha), fun x => List.Pairwise.nil⟩ ?_
  intro s e s' hs hnext
  exact some.inj hnext ▸ hs.perform e.1 e.2

/-- What the clients were told is complete and in order. -/
structure Announced (s : TellRun) : Prop where
  current : ∀ x a, s.table.get x = some a → (s.heard x).halves = a.status.halves
  increasing : ∀ x, (s.heard x).sequences.Pairwise (· < ·)
  /-- an activation that stays keeps its lease epoch, and a change of its lease is told
  by the one status the operation sends -/
  once : ∀ m op x a b, s.table.get x = some a → (s.table.apply m op).1.get x = some b →
    b.leaseEpoch = a.leaseEpoch ∧ (statuses x (s.table.apply m op).2).length ≤ 1 ∧
      (b.status.halves ≠ a.status.halves → statuses x (s.table.apply m op).2 = [b.status])
  /-- an activation that leaves is told its revoked lease, where its control leg can
  still be written to -/
  revoked : ∀ m op x a, s.table.get x = some a → (s.table.apply m op).1.get x = none →
    ¬ op.loses s.table x → ∃ r, statuses x (s.table.apply m op).2 =
      if m.outClosed a.control.connectionId then [] else [(a.revoked r).status]

theorem announced_of_reachable (h : (machine cellBootId).Reachable s) : s.Announced := by
  have hs := Kept.reachable h
  refine ⟨fun x a ha => (hs.current x a ha).halves, hs.increasing, ?_, ?_⟩
  · intro m op x a b ha hb
    have htell := ActivationTable.tells_apply hs.indexed m op x
    rw [ha, hb] at htell
    generalize statuses x (s.table.apply m op).2 = told at htell ⊢
    cases htell with
    | quiet _ _ _ hsame =>
      refine ⟨hsame.leaseEpoch, Nat.zero_le 1, fun hmoved => absurd ?_ hmoved⟩
      simp only [CellActivationStatus.halves, Activation.status, hsame.presentation, hsame.input]
    | told _ _ _ hnext => exact ⟨hnext.leaseEpoch, Nat.le_refl 1, fun _ => rfl⟩
  · intro m op x a ha hb hloses
    have htell := ActivationTable.tells_apply hs.indexed m op x
    rw [ha, hb] at htell
    generalize statuses x (s.table.apply m op).2 = told at htell ⊢
    cases htell with
    | revoked _ _ r => exact ⟨r, rfl⟩
    | lost _ _ hlost => exact absurd hlost hloses

/-- An activation that presents, as its client heard it. -/
theorem announced_presenting :
    ∃ s : TellRun, (s.heard "a").halves.presentation.state = "presenting" ∧ s.Announced := by
  obtain ⟨s, hreach, hp⟩ := Machine.exists_of_run (M := machine "boot")
    (fun s => (s.heard "a").halves.presentation.state == "presenting") Sample.presents (by decide)
  exact ⟨s, by simpa using hp, announced_of_reachable hreach⟩

def overloaded : CellActivationStatus where
  sessionId := "s1"
  activationId := "a"
  cellStatusSequence := 1
  leaseTtlMs := cellLeaseTtlMs
  acceptedContent := none
  presentation := { state := "stopped", reason := some Reason.overload.word }
  input := { state := "suspended", reason := some Reason.overload.word }

theorem overloaded_under (epoch : Nat) (hepoch : epoch = 0 ∨ epoch = 4) :
    ∃ s, (machine "boot").Reachable s ∧ ∃ a, s.table.get "a" = some a ∧ a.leaseEpoch = epoch ∧
      (s.heard "a").statuses.getLast? = some overloaded := by
  obtain ⟨s, hreach, hp⟩ := Machine.exists_of_run (M := machine "boot")
    (fun s => (s.table.get "a").any (fun a => a.leaseEpoch == epoch) &&
      (s.heard "a").statuses.getLast? == some overloaded)
    [(Sample.moment, .attachControl { Sample.attach 1 "s1" "a" none with
        claims := { Sample.claims "s1" with leaseEpoch := some epoch } }),
      (Sample.moment, .presentationStopped "a")] (by rcases hepoch with rfl | rfl <;> decide)
  rw [Bool.and_eq_true] at hp
  obtain ⟨a, ha, hlease⟩ := (Option.any_eq_true _ _).mp hp.1
  exact ⟨s, hreach, a, ha, by simpa using hlease, by simpa using hp.2⟩

def writersGone : Moment := { Sample.moment with outClosed := fun _ => true }

/-- One status is sent under two lease epochs, and an activation whose control leg can
no longer be written to leaves in silence. -/
theorem told_otherwise :
    (¬ ∃ read : CellActivationStatus → Nat, ∀ s, (machine "boot").Reachable s →
      ∀ x a status, s.table.get x = some a → (s.heard x).statuses.getLast? = some status →
        read status = a.leaseEpoch) ∧
    ¬ ∀ s, (machine "boot").Reachable s → ∀ m op x a, s.table.get x = some a →
      (s.table.apply m op).1.get x = none → statuses x (s.table.apply m op).2 ≠ [] := by
  constructor
  · rintro ⟨read, hread⟩
    obtain ⟨s, hs, a, ha, haepoch, hastatus⟩ := overloaded_under 0 (.inl rfl)
    obtain ⟨u, hu, b, hb, hbepoch, hbstatus⟩ := overloaded_under 4 (.inr rfl)
    have hzero := hread s hs "a" a _ ha hastatus
    have hfour := hread u hu "a" b _ hb hbstatus
    rw [haepoch] at hzero
    rw [hbepoch, hzero] at hfour
    cases hfour
  · intro hall
    obtain ⟨s, hreach, hp⟩ := Machine.exists_of_run (M := machine "boot")
      (fun s => (s.table.get "a").isSome &&
        ((s.table.apply writersGone (.legClosed 1)).1.get "a").isNone &&
        (statuses "a" (s.table.apply writersGone (.legClosed 1)).2).isEmpty)
      [(Sample.moment, .attachControl (Sample.attach 1 "s1" "a" none))] (by decide)
    simp only [Bool.and_eq_true, Option.isNone_iff_eq_none, List.isEmpty_iff] at hp
    obtain ⟨⟨hsome, hgone⟩, hsilent⟩ := hp
    obtain ⟨a, ha⟩ := Option.isSome_iff_exists.mp hsome
    exact hall s hreach writersGone (.legClosed 1) "a" a ha hgone hsilent

end TellRun
end VibeField.Tp
