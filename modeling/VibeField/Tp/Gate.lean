import VibeField.Tp.Allowed

/-!
# The input gate

`sendInput` answers from the cached input and reads the view and the expiry again.  A
run keeps beside the table the sessions whose exit it was told, the newest grant each
activation's control attaches were accepted with, and the wall clock of the last call.

An attach to a session that had already exited is followed, under the same lock, by the
exit's own call, so that no activation of an exited session is ever left to type.
-/

namespace VibeField.Tp

open Option ActivationTable

def AttachControlInput.renews (t : ActivationTable) (i : AttachControlInput) : Bool :=
  i.claims.clientId == i.set.clientId && i.sessionKnown &&
    t.byKey.lookup i.key == some i.activationId &&
    (t.get i.activationId).any fun a => a.grantGeneration < i.claims.grantGeneration

structure GateRun where
  table : ActivationTable
  /-- the session's exit was told to the table -/
  exited : SessionId → Bool
  /-- the newest grant a control attach of the activation was accepted with -/
  newest : ActivationId → Option AttachClaims
  /-- the wall clock of the last call -/
  nowMs : Nat

namespace GateRun

def start (cellBootId : String) : GateRun where
  table := .new cellBootId
  exited := fun _ => false
  newest := fun _ => none
  nowMs := 0

def tableAfter (s : GateRun) (m : Moment) : Op → ActivationTable
  | .attachControl i =>
    let t := (s.table.apply m (.attachControl i)).1
    -- a session whose program had already exited is stopped from the start
    if s.exited i.claims.sessionId then
      (t.apply m (.sessionExited i.claims.sessionId)).1
    else
      t
  | op => (s.table.apply m op).1

def exitedAfter (exited : SessionId → Bool) : Op → SessionId → Bool
  | .sessionExited s => fun other => other == s || exited other
  | .sessionRemoved s => fun other => other != s && exited other
  | _ => exited

def newestAfter (t : ActivationTable) (newest : ActivationId → Option AttachClaims) :
    Op → ActivationId → Option AttachClaims
  | .attachControl i => fun x =>
    if i.activationId = x ∧ (i.opens t || i.renews t) = true then some i.claims else newest x
  | _ => newest

def apply (s : GateRun) (m : Moment) (op : Op) : GateRun where
  table := s.tableAfter m op
  exited := exitedAfter s.exited op
  newest := newestAfter s.table s.newest op
  nowMs := m.nowMs

def machine (cellBootId : String) : Machine GateRun (Moment × Op) where
  start := start cellBootId
  next s e := some (s.apply e.1 e.2)

/-- What the gate asks at `nowMs` before the caller of `leg` may type, and the view it
answers with. -/
structure Authorized (s : GateRun) (leg : LegRef) (msg : SendInput) (nowMs : Nat)
    (orders : InputProceed) (a : Activation) (claims : AttachClaims) : Prop where
  live : s.table.get msg.activationId = some a
  control : a.control.connectionId = leg.connectionId
  session : a.sessionId = msg.sessionId
  leaseEpoch : a.leaseEpoch = msg.leaseEpoch
  newest : s.newest msg.activationId = some claims
  right : .input ∈ claims.rights
  margin : nowMs + attachRenewalMarginMs < claims.expiresAt
  presenting : a.presentation = .presenting
  demand : a.demand = .live
  view : a.view = some (orders.ghostteaViewId, orders.attachmentEpoch)
  running : s.exited a.sessionId = false

/-- The gate's law: what an answer of `Proceed` says, what an allowed input says, and
what every call that comes to allow one finds. -/
structure Gate (s : GateRun) : Prop where
  proceed : ∀ leg msg nowMs orders, s.table.sendInput leg msg nowMs = .proceed orders →
    ∃ a claims, s.Authorized leg msg nowMs orders a claims
  allowed : ∀ x a, s.table.get x = some a → a.input = .allowed →
    (∃ claims, s.newest x = some claims ∧ .input ∈ claims.rights) ∧
      a.presentation = .presenting ∧ a.demand = .live ∧ s.exited a.sessionId = false
  opens : ∀ m op x b, (s.apply m op).table.get x = some b → b.input = .allowed →
    (∃ a, s.table.get x = some a ∧ a.input = .allowed) ∨
      (b.view ≠ none ∧ ∃ claims, (s.apply m op).newest x = some claims ∧
        m.nowMs + attachRenewalMarginMs < claims.expiresAt)

end GateRun

variable {t : ActivationTable} {m : Moment} {x : ActivationId} {op : Op} {a b : Activation}
  {es : List Effect} {cellBootId : String}

/-! ## The grant a record holds -/

/-- The record holds the grant. -/
structure Activation.Holds (a : Activation) (claims : AttachClaims) : Prop where
  rights : a.rights = claims.rights
  generation : a.grantGeneration = claims.grantGeneration
  expiry : a.grantExpiresAtMs = claims.expiresAt

structure SameGrant (a b : Activation) : Prop where
  rights : b.rights = a.rights
  generation : b.grantGeneration = a.grantGeneration
  expiry : b.grantExpiresAtMs = a.grantExpiresAtMs

theorem Activation.Holds.same {claims : AttachClaims} (h : a.Holds claims) (hs : SameGrant a b) :
    b.Holds claims :=
  ⟨hs.rights.trans h.rights, hs.generation.trans h.generation, hs.expiry.trans h.expiry⟩

theorem Touch.sameGrant (h : Touch t m x op (some a) (some b) es) (hw : t.WellIndexed)
    (ha : t.get x = some a)
    (hop : ∀ i, op = .attachControl i → i.activationId = x → ¬ i.renews t = true) :
    SameGrant a b := by
  cases h with
  | kept | framed | viewed | unviewed | repaired | sent => exact ⟨rfl, rfl, rfl⟩
  | reattached i _ hx hgeneration hclient hknown hkey =>
    have hsame : ¬ i.claims.grantGeneration > a.grantGeneration := fun hnewer => by
      refine hop i rfl hx ?_
      simp [AttachControlInput.renews, hclient, hknown, hkey, hx, hw.keys ha, ha, hnewer]
    unfold Activation.reattached
    rw [if_neg hsame]
    exact ⟨rfl, rfl, rfl⟩
  | demanded leg msg =>
    unfold Activation.demanded
    dsimp only
    split <;> exact ⟨rfl, rfl, rfl⟩
  | acknowledged leg msg =>
    unfold Activation.sceneApplied
    dsimp only
    split <;> exact ⟨rfl, rfl, rfl⟩
  | stopped =>
    unfold Activation.presentationStopped
    split
    · exact ⟨rfl, rfl, rfl⟩
    · split <;> exact ⟨rfl, rfl, rfl⟩
  | exited =>
    unfold Activation.sessionExited
    split <;> exact ⟨rfl, rfl, rfl⟩
  | recomputed =>
    unfold ActivationTable.recomputed
    split <;> exact ⟨rfl, rfl, rfl⟩

theorem Touch.sameSession (h : Touch t m x op (some a) (some b) es) :
    b.sessionId = a.sessionId := by
  cases h with
  | kept | viewed | repaired | sent => rfl
  | reattached i => exact (ActivationTable.SameIdentity.reattached _ _ _ _).sessionId
  | framed => exact (ActivationTable.SameIdentity.framesAttached _ _ _ _ _).sessionId
  | unviewed => exact (ActivationTable.SameIdentity.viewDetached _).sessionId
  | demanded => exact (ActivationTable.SameIdentity.demanded _ _ _).sessionId
  | acknowledged => exact (ActivationTable.SameIdentity.sceneApplied _ _ _).sessionId
  | stopped => exact (ActivationTable.SameIdentity.presentationStopped _ _ _).sessionId
  | exited => exact (ActivationTable.SameIdentity.sessionExited _ _).sessionId
  | recomputed => exact (ActivationTable.SameIdentity.recomputed _ _).sessionId

theorem Touch.exit_allowed {s : SessionId} (h : Touch t m x (.sessionExited s) (some a) (some b) es)
    (hb : b.input = .allowed) : b = a := by
  cases h with
  | kept => rfl
  | exited =>
    unfold Activation.sessionExited at hb ⊢
    split at hb
    · next hexited => rw [if_pos hexited]
    · cases hb

namespace ActivationTable

theorem get_renewed {i : AttachControlInput} (h : i.renews t = true) :
    ∃ a, t.get i.activationId = some a ∧ a.grantGeneration < i.claims.grantGeneration ∧
      (t.apply m (.attachControl i)).1.get i.activationId =
        some (a.reattached m i.leg i.claims) := by
  simp only [AttachControlInput.renews, Bool.and_eq_true, beq_iff_eq] at h
  obtain ⟨⟨⟨hclient, hknown⟩, hkey⟩, hany⟩ := h
  obtain ⟨a, ha, hnewer⟩ := (any_eq_true _ _).mp hany
  have hnewer : a.grantGeneration < i.claims.grantGeneration := of_decide_eq_true hnewer
  refine ⟨a, ha, hnewer, ?_⟩
  have hget := get_rewritten ha (a.reattached m i.leg i.claims) i.activationId
  rw [if_pos rfl] at hget
  simp only [apply, attachControl, hclient, hknown, hkey, ha, reattachControl]
  rw [if_neg (by simp), if_neg (by simp), if_pos trivial,
    if_neg (Nat.not_lt_of_le (Nat.le_of_lt hnewer))]
  split
  · rw [(sameIndexes_release _ _ _).get]
    exact hget
  · exact hget

/-- Every record holds the newest grant its control attaches were accepted with. -/
def Granted (t : ActivationTable) (newest : ActivationId → Option AttachClaims) : Prop :=
  ∀ x a, t.get x = some a → ∃ claims, newest x = some claims ∧ a.Holds claims

theorem Granted.apply {newest : ActivationId → Option AttachClaims} (hw : t.WellIndexed)
    (h : t.Granted newest) (m : Moment) (op : Op) :
    (t.apply m op).1.Granted (GateRun.newestAfter t newest op) := by
  intro x b hb
  have htouch := touch_apply hw m op x
  rw [hb] at htouch
  generalize driven x _ = es at htouch
  cases ha : t.get x with
  | none =>
    rw [ha] at htouch
    cases htouch with
    | opened i hx hopens =>
      exact ⟨i.claims, if_pos ⟨hx, by rw [hopens]; rfl⟩, rfl, rfl, rfl⟩
  | some a =>
    rw [ha] at htouch
    obtain ⟨claims, hclaims, hholds⟩ := h x a ha
    by_cases hrenewed : ∃ i, op = .attachControl i ∧ i.activationId = x ∧ i.renews t = true
    · obtain ⟨i, rfl, rfl, hrenews⟩ := hrenewed
      obtain ⟨c, hc, hnewer, hget⟩ := get_renewed (m := m) hrenews
      obtain rfl := some.inj (hget.symm.trans hb)
      refine ⟨i.claims, if_pos ⟨rfl, by rw [hrenews, Bool.or_true]⟩, ?_⟩
      unfold Activation.reattached
      rw [if_pos hnewer]
      exact ⟨rfl, rfl, rfl⟩
    · have hnewest : GateRun.newestAfter t newest op x = newest x := by
        cases op with
        | attachControl i =>
          refine if_neg ?_
          rintro ⟨hx, haccepted⟩
          rcases Bool.or_eq_true_iff.mp haccepted with hopens | hrenews
          · simp [AttachControlInput.opens, hx, ha] at hopens
          · exact hrenewed ⟨i, rfl, hx, hrenews⟩
        | _ => rfl
      refine ⟨claims, hnewest.trans hclaims, hholds.same (htouch.sameGrant hw ha ?_)⟩
      exact fun i hi hx hrenews => hrenewed ⟨i, hi, hx, hrenews⟩

/-- Every activation of an exited session is ended. -/
def EndedWhere (t : ActivationTable) (exited : SessionId → Bool) : Prop :=
  ∀ x a, t.get x = some a → exited a.sessionId = true → a.Ended

theorem EndedWhere.apply {exited : SessionId → Bool} (hr : (machine cellBootId).Reachable t)
    (h : t.EndedWhere exited) (m : Moment) (op : Op) {x : ActivationId} {b : Activation}
    (hb : (t.apply m op).1.get x = some b)
    (hexited : GateRun.exitedAfter exited op b.sessionId = true)
    (hop : ∀ i, op = .attachControl i → b.sessionId ≠ i.claims.sessionId) : b.Ended := by
  have htouch := touch_apply (WellIndexed.reachable hr) m op x
  rw [hb] at htouch
  generalize driven x _ = es at htouch
  cases ha : t.get x with
  | none =>
    rw [ha] at htouch
    cases htouch with
    | opened i => exact absurd rfl (hop i rfl)
  | some a =>
    rw [ha] at htouch
    have hsession := htouch.sameSession
    by_cases hold : exited a.sessionId = true
    · exact htouch.ended (h x a ha hold)
    · rw [hsession] at hexited
      cases op with
      | sessionExited s =>
        rcases Bool.or_eq_true_iff.mp hexited with hs | hs
        · obtain rfl := eq_of_beq hs
          obtain ⟨c, hc, hended⟩ := ended_sessionExited hr ha m
          obtain rfl := some.inj (hc.symm.trans hb)
          exact hended
        · exact absurd hs hold
      | sessionRemoved s => exact absurd (Bool.and_eq_true_iff.mp hexited).2 hold
      | _ => exact absurd hexited hold

end ActivationTable

namespace GateRun

variable {s : GateRun}

theorem reachable_tableAfter (h : (ActivationTable.machine cellBootId).Reachable s.table)
    (m : Moment) (op : Op) :
    (ActivationTable.machine cellBootId).Reachable (s.tableAfter m op) := by
  have hone : ∀ op, (ActivationTable.machine cellBootId).Reachable (s.table.apply m op).1 :=
    fun op => h.next (e := (m, op)) rfl
  cases op with
  | attachControl i =>
    simp only [tableAfter]
    split
    · exact (hone (.attachControl i)).next (e := (m, .sessionExited i.claims.sessionId)) rfl
    · exact hone (.attachControl i)
  | _ => exact hone _

theorem table_reachable (h : (machine cellBootId).Reachable s) :
    (ActivationTable.machine cellBootId).Reachable s.table := by
  refine h.invariant (P := fun s => (ActivationTable.machine cellBootId).Reachable s.table)
    ?_ fun s e s' hs hnext => ?_
  · exact .start
  · obtain rfl := some.inj hnext
    exact reachable_tableAfter hs e.1 e.2

theorem get_before_exit {b : Activation}
    (hr : (ActivationTable.machine cellBootId).Reachable s.table)
    (hb : (s.tableAfter m op).get x = some b) (hallowed : b.input = .allowed) :
    (s.table.apply m op).1.get x = some b := by
  cases op with
  | attachControl i =>
    simp only [tableAfter] at hb
    split at hb
    · have hone : (ActivationTable.machine cellBootId).Reachable
          (s.table.apply m (.attachControl i)).1 := hr.next (e := (m, .attachControl i)) rfl
      have htouch := touch_apply (ActivationTable.WellIndexed.reachable hone) m
        (.sessionExited i.claims.sessionId) x
      rw [hb] at htouch
      generalize driven x _ = es at htouch
      cases ha : (s.table.apply m (.attachControl i)).1.get x with
      | none =>
        rw [ha] at htouch
        cases htouch
      | some a =>
        rw [ha] at htouch
        rw [htouch.exit_allowed hallowed]
    · exact hb
  | _ => exact hb

theorem granted_of_reachable (h : (machine cellBootId).Reachable s) :
    s.table.Granted s.newest := by
  refine h.invariant_of (P := fun s => s.table.Granted s.newest) (fun x a ha => by cases ha) ?_
  intro s e s' hr hs _ hnext
  obtain rfl := some.inj hnext
  obtain ⟨m, op⟩ := e
  have htable := table_reachable hr.reachable
  have hone := hs.apply (ActivationTable.WellIndexed.reachable htable) m op
  cases op with
  | attachControl i =>
    simp only [apply, tableAfter]
    split
    · exact hone.apply (ActivationTable.WellIndexed.reachable
        (htable.next (e := (m, .attachControl i)) rfl)) m (.sessionExited i.claims.sessionId)
    · exact hone
  | _ => exact hone

theorem ended_of_reachable (h : (machine cellBootId).Reachable s) :
    s.table.EndedWhere s.exited := by
  refine h.invariant_of (P := fun s => s.table.EndedWhere s.exited) (fun x a ha => by cases ha) ?_
  intro s e s' hr hs _ hnext
  obtain rfl := some.inj hnext
  obtain ⟨m, op⟩ := e
  have htable := table_reachable hr.reachable
  intro x b hb hexited
  cases op with
  | attachControl i =>
    -- the attach opens in its own session only, and the exit's call covers that one
    have hothers : (s.table.apply m (.attachControl i)).1.EndedWhere
        fun other => other != i.claims.sessionId && s.exited other := by
      intro y c hc hother
      obtain ⟨hne, hold⟩ := Bool.and_eq_true_iff.mp hother
      refine hs.apply htable m (.attachControl i) hc hold fun j hj => ?_
      cases hj
      exact bne_iff_ne.mp hne
    simp only [apply, tableAfter] at hb
    split at hb
    · refine hothers.apply (htable.next (e := (m, .attachControl i)) rfl) m
        (.sessionExited i.claims.sessionId) hb ?_ fun j hj => by cases hj
      by_cases hsession : b.sessionId = i.claims.sessionId
      · simp [exitedAfter, hsession]
      · have hold : s.exited b.sessionId = true := hexited
        simp [exitedAfter, hsession, hold]
    · next hrunning =>
      have hne : b.sessionId ≠ i.claims.sessionId := fun hsame => hrunning (hsame ▸ hexited)
      have hold : s.exited b.sessionId = true := hexited
      exact hothers x b hb (by simp [hne, hold])
  | _ => exact hs.apply htable m _ hb hexited fun i hi => by cases hi

theorem of_sendInput {leg : LegRef} {msg : SendInput} {nowMs : Nat} {orders : InputProceed}
    (h : t.sendInput leg msg nowMs = .proceed orders) :
    ∃ a, t.get msg.activationId = some a ∧ a.control.connectionId = leg.connectionId ∧
      a.sessionId = msg.sessionId ∧ a.leaseEpoch = msg.leaseEpoch ∧ a.input = .allowed ∧
      nowMs + attachRenewalMarginMs < a.grantExpiresAtMs ∧
      a.view = some (orders.ghostteaViewId, orders.attachmentEpoch) := by
  unfold ActivationTable.sendInput at h
  split at h
  · cases h
  · next a ha =>
    split at h
    · cases h
    · next hleg =>
      rw [not_or, not_not, not_not] at hleg
      split at h
      · cases h
      · next hepoch =>
        split at h
        · cases h
        · cases h
        · next hallowed =>
          split at h
          · cases h
          · next hmargin =>
            split at h
            · cases h
            · next view epoch hview =>
              cases h
              exact ⟨a, ha, hleg.1, hleg.2, (not_not.mp hepoch).symm, hallowed,
                Nat.lt_of_not_le hmargin, hview⟩

theorem running_of_allowed (h : (machine cellBootId).Reachable s) (ha : s.table.get x = some a)
    (hallowed : a.input = .allowed) : s.exited a.sessionId = false :=
  Bool.eq_false_iff.mpr fun hexited =>
    (ended_of_reachable h x a ha hexited).input.not_allowed hallowed

theorem right_of_allowed (h : (machine cellBootId).Reachable s) (ha : s.table.get x = some a)
    (hallowed : a.input = .allowed) : ∃ claims, s.newest x = some claims ∧ a.Holds claims ∧
      .input ∈ claims.rights := by
  obtain ⟨claims, hclaims, hholds⟩ := granted_of_reachable h x a ha
  have hright := (vouched_of_allowed (table_reachable h) ha hallowed).right
  exact ⟨claims, hclaims, hholds, hholds.rights ▸ of_decide_eq_true hright⟩

/-- In every reachable state the gate lets through what it should, an allowed input
vouches for its right, presentation, demand and running session, and a call comes to
allow one only with its view attached and its grant outside the margin. -/
theorem gate_of_reachable (h : (machine cellBootId).Reachable s) : Gate s := by
  refine ⟨fun leg msg nowMs orders hproceed => ?_, fun x a ha hallowed => ?_,
    fun m op x b hb hallowed => ?_⟩
  · obtain ⟨a, ha, hcontrol, hsession, hepoch, hallowed, hmargin, hview⟩ := of_sendInput hproceed
    obtain ⟨claims, hclaims, hholds, hright⟩ := right_of_allowed h ha hallowed
    have hvouched := ActivationTable.vouched_of_allowed (table_reachable h) ha hallowed
    exact ⟨a, claims, ha, hcontrol, hsession, hepoch, hclaims, hright, hholds.expiry ▸ hmargin,
      hvouched.presentation, hvouched.demand, hview, running_of_allowed h ha hallowed⟩
  · obtain ⟨claims, hclaims, -, hright⟩ := right_of_allowed h ha hallowed
    have hvouched := ActivationTable.vouched_of_allowed (table_reachable h) ha hallowed
    exact ⟨⟨claims, hclaims, hright⟩, hvouched.presentation, hvouched.demand,
      running_of_allowed h ha hallowed⟩
  · have hafter := get_before_exit (table_reachable h) hb hallowed
    have htouch := ActivationTable.touch_apply
      (ActivationTable.WellIndexed.reachable (table_reachable h)) m op x
    rw [hafter] at htouch
    generalize driven x _ = es at htouch
    cases ha : s.table.get x with
    | none =>
      rw [ha] at htouch
      cases htouch with
      | opened i =>
        exact absurd hallowed (Activation.opened_not_allowed m i)
    | some a =>
      rw [ha] at htouch
      rcases htouch.allows hallowed with ⟨hbefore, -⟩ | hgrounds
      · exact .inl ⟨a, rfl, hbefore⟩
      · obtain ⟨claims, hclaims, hholds⟩ :=
          granted_of_reachable (h.next (e := (m, op)) rfl) x b hb
        exact .inr ⟨hgrounds.view, claims, hclaims, hholds.expiry ▸ hgrounds.margin⟩

end GateRun

namespace Sample

def typed : SendInput where
  sessionId := "s1"
  activationId := "a"
  leaseEpoch := 0
  inputSequence := 1

def demand (sequence : Nat) (mode : SourceDemandMode) : Moment × Op :=
  (moment, .declareDemand (leg 1)
    { sessionId := "s1", activationId := "a", demandSequence := sequence, demand := mode })

def applied : Moment × Op :=
  (moment, .sceneApplied (leg 2)
    { sessionId := "s1"
      activationId := "a"
      appliedContent :=
        { sceneEpoch := { cellBootId := "boot", modelGeneration := 1 }, sceneRevision := 1 } })

def parks : List (Moment × Op) :=
  presents ++ [demand 1 .none, demand 2 .live, applied, (moment, .viewDetached "a")]

def ages : List (Moment × Op) :=
  presents ++ [({ moment with nowMs := 595000 }, .openCredit 3 1 windows 0)]

def readsOnly : AttachFramesInput :=
  { attachFrames 2 "s1" "a" 1 with
    claims := { claims "s1" with grantGeneration := 2, rights := [.read] } }

end Sample

namespace GateRun

/-- A presenting activation may type through its view. -/
theorem gate_typing : ∃ s : GateRun,
    (∃ orders, s.table.sendInput (Sample.leg 1) Sample.typed 1000 = .proceed orders) ∧ Gate s := by
  obtain ⟨s, hreach, hp⟩ := Machine.exists_of_run (M := machine "boot")
    (fun s => match s.table.sendInput (Sample.leg 1) Sample.typed 1000 with
      | .proceed _ => true
      | .drop _ => false) Sample.presents (by decide)
  refine ⟨s, ?_, gate_of_reachable hreach⟩
  split at hp
  · next orders horders => exact ⟨orders, horders⟩
  · cases hp

/-- An input stays allowed past its view and past its margin, and a newer grant the
frames leg brought does not close it. -/
theorem allowed_cached :
    (∃ s a, (machine "boot").Reachable s ∧ s.table.get "a" = some a ∧ a.input = .allowed ∧
      a.view = none) ∧
    (∃ s a, (machine "boot").Reachable s ∧ s.table.get "a" = some a ∧ a.input = .allowed ∧
      a.grantExpiresAtMs ≤ s.nowMs + attachRenewalMarginMs) ∧
    ∃ s a, (machine "boot").Reachable s ∧ s.table.get "a" = some a ∧
      a.grantGeneration < Sample.readsOnly.claims.grantGeneration ∧
      s.table.framesTarget Sample.readsOnly = .ok (a, Sample.trf) ∧
      ∃ orders, (s.apply Sample.moment (.attachFrames Sample.readsOnly)).table.sendInput
        (Sample.leg 1) Sample.typed 1000 = .proceed orders := by
  refine ⟨?_, ?_, ?_⟩
  · obtain ⟨s, hreach, hp⟩ := Machine.exists_of_run (M := machine "boot")
      (fun s => (s.table.get "a").any fun a => a.input == .allowed && a.view == none)
      Sample.parks (by decide)
    obtain ⟨a, ha, hp⟩ := (Option.any_eq_true _ _).mp hp
    simp only [Bool.and_eq_true, beq_iff_eq] at hp
    exact ⟨s, a, hreach, ha, hp⟩
  · obtain ⟨s, hreach, hp⟩ := Machine.exists_of_run (M := machine "boot")
      (fun s => (s.table.get "a").any fun a =>
        a.input == .allowed && decide (a.grantExpiresAtMs ≤ s.nowMs + attachRenewalMarginMs))
      Sample.ages (by decide)
    obtain ⟨a, ha, hp⟩ := (Option.any_eq_true _ _).mp hp
    simp only [Bool.and_eq_true, beq_iff_eq, decide_eq_true_eq] at hp
    exact ⟨s, a, hreach, ha, hp⟩
  · obtain ⟨s, hreach, hp⟩ := Machine.exists_of_run (M := machine "boot")
      (fun s => (s.table.get "a").any fun a =>
        decide (a.grantGeneration < Sample.readsOnly.claims.grantGeneration) &&
        (match s.table.framesTarget Sample.readsOnly with
          | .ok found => found == (a, Sample.trf)
          | .error _ => false) &&
        match (s.apply Sample.moment (.attachFrames Sample.readsOnly)).table.sendInput
          (Sample.leg 1) Sample.typed 1000 with
        | .proceed _ => true
        | .drop _ => false)
      Sample.presents (by decide)
    obtain ⟨a, ha, hp⟩ := (Option.any_eq_true _ _).mp hp
    simp only [Bool.and_eq_true, decide_eq_true_eq] at hp
    obtain ⟨⟨hnewer, htarget⟩, hproceeds⟩ := hp
    refine ⟨s, a, hreach, ha, hnewer, ?_, ?_⟩
    · split at htarget
      · next found hfound => rw [hfound, eq_of_beq htarget]
      · cases htarget
    · split at hproceeds
      · next orders horders => exact ⟨orders, horders⟩
      · cases hproceeds

end GateRun
end VibeField.Tp
