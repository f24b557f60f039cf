import VibeField.Freeway.Rings

/-!
# When the writer sends

The link opens streams it has not named before, queues the frames of their kinds on them, and lets
the peer's answers move the caps, the classes and the windows.  In every state so reached the rings
hold what is queued, and a call for a frame returns one whenever one may go.
-/

namespace VibeField.Freeway.Writer

open List Function

/-- What the link does with its writer. -/
inductive Op where
  | openStream (s : StreamId) (cls : Class) (windowed : Bool)
  | queue (s : StreamId) (kind : FrameType) (payload : Bytes)
  | queueLink (frame : Bytes)
  | reclass (s : StreamId) (cls : Class)
  | grant (s : StreamId) (bytes : Nat)
  | forget (s : StreamId)
  | setCap (bytes : Nat)
  | setFragmentBytes (bytes : Nat)
  | acked (delivered : Nat)
  | nextFrame

def apply (w : Writer) : Op → Writer
  | .openStream s cls windowed => w.openStream s cls windowed
  | .queue s kind payload => w.queue s kind payload
  | .queueLink frame => w.queueLink frame
  | .reclass s cls => w.reclass s cls
  | .grant s bytes => w.grant s bytes
  | .forget s => w.forget s
  | .setCap bytes => w.setCap bytes
  | .setFragmentBytes bytes => w.setFragmentBytes bytes
  | .acked delivered => w.acked delivered
  | .nextFrame => w.nextFrame.1

def Fits (w : Writer) : Op → Prop
  | .openStream s _ _ => (s ≠ 0 ∧ s < 2 ^ 64) ∧ w.streams.lookup s = none
  | .queue _ kind _ => kind ≠ .link ∧ kind ≠ .window
  | _ => True

inductive Reachable : Writer → Prop
  | new : Reachable Writer.new
  | step {w : Writer} (op : Op) : Reachable w → Fits w op → Reachable (w.apply op)

/-- What every reachable writer keeps. -/
structure Sound (w : Writer) : Prop where
  rung : Rung w
  encodable : Encodable w
  acknowledged : w.acknowledged ≤ w.written
  fragments : minFragmentBytes ≤ w.fragmentBytes

variable {w w' : Writer}

/-! ## A class's turn -/

/-- Classes were passed over, in turn: one with nothing to send loses its deficit, one with too
little for its head frame gains its quantum. -/
inductive Passes (quantum : Nat) (w : Writer) : Writer → Prop
  | refl : Passes quantum w w
  | skip {p p' : Writer} : Passes quantum w p → p.headCost (Class.shared p.turn) = (p', none) →
      Passes quantum w
        { p' with deficits := Function.update p'.deficits p'.turn 0, turn := p'.turn + 1 }
  | pass {p p' : Writer} {cost : Nat} : Passes quantum w p →
      p.headCost (Class.shared p.turn) = (p', some cost) → p'.deficits p'.turn < cost →
      Passes quantum w
        { p' with
          deficits := Function.update p'.deficits p'.turn
            (p'.deficits p'.turn + weights p'.turn * quantum)
          turn := p'.turn + 1 }

def pay (p : Writer) (cost : Nat) : Writer :=
  { p with deficits := Function.update p.deficits p.turn (p.deficits p.turn - cost) }

theorem Passes.trans {quantum : Nat} {w'' : Writer} (h : Passes quantum w w')
    (h' : Passes quantum w' w'') : Passes quantum w w'' := by
  induction h' with
  | refl => exact h
  | skip _ hcost ih => exact .skip ih hcost
  | pass _ hcost hlt ih => exact .pass ih hcost hlt

theorem nextSharedLoop_passes (quantum tries : Nat) (w : Writer) :
    ∃ p, Passes quantum w p ∧ (nextSharedLoop quantum tries w = (p, none) ∨
      ∃ p' cost, p.headCost (Class.shared p.turn) = (p', some cost) ∧ cost ≤ p'.deficits p'.turn ∧
        nextSharedLoop quantum tries w = (p'.pay cost).nextFrom (Class.shared p.turn)) := by
  induction tries generalizing w with
  | zero => exact ⟨w, .refl, .inl rfl⟩
  | succ tries ih =>
    rw [nextSharedLoop]
    cases hcost : w.headCost (Class.shared w.turn) with
    | mk p' found =>
      cases found with
      | none =>
        dsimp only
        obtain ⟨p, hpasses, hend⟩ := ih
          { p' with deficits := Function.update p'.deficits p'.turn 0, turn := p'.turn + 1 }
        exact ⟨p, (Passes.skip .refl hcost).trans hpasses, hend⟩
      | some cost =>
        dsimp only
        by_cases hle : cost ≤ p'.deficits p'.turn
        · rw [if_pos hle]
          exact ⟨w, .refl, .inr ⟨p', cost, hcost, hle, rfl⟩⟩
        · rw [if_neg hle]
          obtain ⟨p, hpasses, hend⟩ := ih
            { p' with
              deficits := Function.update p'.deficits p'.turn
                (p'.deficits p'.turn + weights p'.turn * quantum)
              turn := p'.turn + 1 }
          exact ⟨p, (Passes.pass .refl hcost (Nat.not_le.mp hle)).trans hpasses, hend⟩

structure Paced (w w' : Writer) : Prop where
  same : w' = { w with rings := w'.rings, deficits := w'.deficits, turn := w'.turn }
  perm : ∀ cls, (w'.rings cls).Perm (w.rings cls)

theorem Paced.streams (h : Paced w w') : w'.streams = w.streams := by rw [h.same]

theorem Paced.fragmentBytes (h : Paced w w') : w'.fragmentBytes = w.fragmentBytes := by
  rw [h.same]

variable {s : StreamId}

theorem Paced.sendable (h : Paced w w') {cls : Class} :
    Sendable w' cls s ↔ Sendable w cls s := by
  rw [Sendable, Sendable, h.streams]

theorem Paced.rung (h : Paced w w') (hr : Rung w) : Rung w' where
  nodup cls := (h.perm cls).nodup_iff.mpr (hr.nodup cls)
  mem cls s := by rw [(h.perm cls).mem_iff, hr.mem, h.streams]

theorem Paced.encodable (h : Paced w w') (he : Encodable w) : Encodable w' := by
  rw [Encodable, h.streams]
  exact he

theorem Paced.refl (w : Writer) : Paced w w := ⟨rfl, fun _ => List.Perm.refl _⟩

theorem Turned.paced {w'' : Writer} (h : Turned w' w'') (hw : Paced w w') (deficits : Fin 3 → Nat)
    (turn : Fin 3) : Paced w { w'' with deficits := deficits, turn := turn } where
  same := by rw [h.same, hw.same]
  perm cls := (h.perm cls).trans (hw.perm cls)

theorem Passes.paced {quantum : Nat} (h : Passes quantum w w') (hr : Rung w) : Paced w w' := by
  induction h with
  | refl => exact .refl w
  | @skip p _ _ hcost ih =>
    have hpriced := headCost_priced (ih.rung hr) (Class.shared p.turn)
    rw [hcost] at hpriced
    exact hpriced.turned.paced ih _ _
  | @pass p _ _ _ hcost _ ih =>
    have hpriced := headCost_priced (ih.rung hr) (Class.shared p.turn)
    rw [hcost] at hpriced
    exact hpriced.turned.paced ih _ _

/-- What a search of the classes that share did. -/
inductive DrawnShared (w : Writer) : Writer × Option Bytes → Prop
  | nothing {p : Writer} : Paced w p → DrawnShared w (p, none)
  | served {p : Writer} {s : StreamId} {rest : List StreamId} {state : Stream} {head : Queued}
      {behind : List Queued} {bytes : Bytes} : Paced w p →
      Faces p (Class.shared p.turn) s rest state head behind →
      encode ((p.setRing (Class.shared p.turn) rest).cut s head).1 = .ok bytes →
      DrawnShared w
        ((p.setRing (Class.shared p.turn) rest).serve (Class.shared p.turn) s state head behind,
          some bytes)

theorem Faces.pay {cls : Class} {rest : List StreamId} {state : Stream}
    {head : Queued} {behind : List Queued} (h : Faces w cls s rest state head behind)
    (cost : Nat) : Faces (w.pay cost) cls s rest state head behind :=
  ⟨h.ring, h.lookup, h.may, h.queue⟩

theorem nextSharedLoop_drawn (hr : Rung w) (he : Encodable w) (quantum tries : Nat) :
    DrawnShared w (nextSharedLoop quantum tries w) := by
  obtain ⟨p, hpasses, hnone | ⟨p', cost, hcost, -, heq⟩⟩ := nextSharedLoop_passes quantum tries w
  · rw [hnone]
    exact .nothing (hpasses.paced hr)
  · have hpaced := hpasses.paced hr
    have hpriced := headCost_priced (hpaced.rung hr) (Class.shared p.turn)
    rw [hcost] at hpriced
    have hturned := hpriced.turned
    obtain ⟨s, rest, state, head, behind, hfaces, -⟩ := hpriced.faces
    have hpay : Paced w (p'.pay cost) := hturned.paced hpaced _ _
    obtain ⟨bytes, hbytes, hnext⟩ := nextFrom_front (hpay.encodable he) (hfaces.pay cost)
    have hturn : (p'.pay cost).turn = p.turn := hturned.turn
    rw [heq, hnext]
    rw [← hturn] at hbytes hfaces ⊢
    exact .served hpay (hfaces.pay cost) hbytes

def turnsTo (turn c : Fin 3) : Nat := (c - turn).val

theorem turnsTo_next {turn c : Fin 3} (h : turn ≠ c) :
    turnsTo (turn + 1) c + 1 = turnsTo turn c := by
  revert h
  revert turn c
  decide

theorem turnsTo_self (c : Fin 3) : turnsTo c c = 0 ∧ turnsTo (c + 1) c = 2 := by
  revert c
  decide

theorem nextSharedLoop_some {quantum tries : Nat} {c : Fin 3} (hr : Rung w)
    (he : Encodable w) (hquantum : w.fragmentBytes + 11 ≤ quantum)
    (hsend : Sendable w (Class.shared c) s)
    (htries : turnsTo w.turn c + (if w.fragmentBytes + 11 ≤ w.deficits c then 0 else 3) < tries) :
    (nextSharedLoop quantum tries w).2.isSome = true := by
  induction tries generalizing w with
  | zero => exact absurd htries (Nat.not_lt_zero _)
  | succ tries ih =>
    have hpriced := headCost_priced hr (Class.shared w.turn)
    rw [nextSharedLoop]
    cases hcost : w.headCost (Class.shared w.turn) with
    | mk p' found =>
      rw [hcost] at hpriced
      have hturned : Turned w p' := hpriced.turned
      have hpaced := fun deficits turn => hturned.paced (.refl w) deficits turn
      have hbytes := hturned.fragmentBytes
      cases found with
      | none =>
        dsimp only
        have hne : w.turn ≠ c := fun h => hpriced.none s (h ▸ hsend)
        have hnext := turnsTo_next hne
        refine ih ((hpaced _ _).rung hr) ((hpaced _ _).encodable he) (hbytes ▸ hquantum)
          ((hpaced _ _).sendable.mpr hsend) ?_
        simp only [hturned.turn, hturned.deficits, update_of_ne hne.symm, hbytes]
        omega
      | some cost =>
        obtain ⟨s', rest, state, head, behind, hfaces, hcost'⟩ := hpriced.faces
        dsimp only
        split
        · obtain ⟨bytes, -, hnext⟩ := nextFrom_front ((hpaced _ p'.turn).encodable he)
            (hfaces.pay cost)
          exact (congrArg (fun r => r.2.isSome) hnext).trans rfl
        · next hpoor =>
          refine ih ((hpaced _ _).rung hr) ((hpaced _ _).encodable he) (hbytes ▸ hquantum)
            ((hpaced _ _).sendable.mpr hsend) ?_
          simp only [hturned.turn, hturned.deficits, hbytes] at hpoor ⊢
          by_cases hc : w.turn = c
          · subst hc
            have hself := turnsTo_self w.turn
            have hweight : quantum ≤ weights w.turn * quantum :=
              Nat.le_mul_of_pos_left _ (by generalize w.turn = t; revert t; decide)
            rw [update_self, if_pos (by omega)]
            rw [if_neg (by omega)] at htries
            omega
          · have hnext := turnsTo_next hc
            rw [update_of_ne fun h => hc h.symm]
            omega

theorem shared_surjective {cls : Class} (h : cls ≠ .urgent) : ∃ c, Class.shared c = cls := by
  cases cls with
  | urgent => exact absurd rfl h
  | live => exact ⟨0, rfl⟩
  | sync => exact ⟨1, rfl⟩
  | bulk => exact ⟨2, rfl⟩

theorem shared_ne (c : Fin 3) : Class.shared c ≠ .urgent := by
  revert c
  decide

/-! ## The next frame -/

/-- What a call for the next frame did, before its bytes are counted. -/
inductive Picked (w : Writer) : Writer × Option Bytes → Prop
  | link {frame : Bytes} {rest : List Bytes} : w.link = frame :: rest →
      Picked w ({ w with link := rest }, some frame)
  | urgent {r : Writer × Option Bytes} : w.link = [] → Drawn .urgent w r → r.2.isSome = true →
      Picked w r
  | capped {w' : Writer} : w.link = [] → Turned w w' → (∀ s, ¬Sendable w .urgent s) →
      w.cap ≤ w.inFlight → Picked w (w', none)
  | shared {w' : Writer} {r : Writer × Option Bytes} : w.link = [] → Turned w w' →
      (∀ s, ¬Sendable w .urgent s) → w.inFlight < w.cap → w'.nextShared = r → Picked w r

theorem pick_picked (hr : Rung w) (he : Encodable w) : Picked w w.pick := by
  unfold pick
  cases hlink : w.link with
  | cons frame rest => exact .link hlink
  | nil =>
    dsimp only
    have hdrawn := nextFrom_drawn hr he .urgent
    cases hnext : w.nextFrom .urgent with
    | mk w' found =>
      rw [hnext] at hdrawn
      cases found with
      | some frame => exact .urgent hlink hdrawn rfl
      | none =>
        dsimp only
        cases hdrawn with
        | nothing hturned hnone =>
          have hflight : w'.inFlight = w.inFlight := by rw [hturned.same]; rfl
          have hcap : w'.cap = w.cap := by rw [hturned.same]
          rw [hflight, hcap]
          split
          · next hfull => exact .capped hlink hturned hnone hfull
          · next hroom => exact .shared hlink hturned hnone (Nat.not_le.mp hroom) rfl

theorem pick_isSome (h : Sound w) : w.pick.2.isSome = true ↔
    w.link ≠ [] ∨ (∃ s, Sendable w .urgent s) ∨
      w.inFlight < w.cap ∧ ∃ cls, cls ≠ .urgent ∧ ∃ s, Sendable w cls s := by
  have hpicked := pick_picked h.rung h.encodable
  generalize w.pick = r at hpicked ⊢
  cases hpicked with
  | link hlink =>
    refine ⟨fun _ => .inl ?_, fun _ => rfl⟩
    rw [hlink]
    exact cons_ne_nil _ _
  | urgent hlink hdrawn hsome =>
    refine ⟨fun _ => .inr (.inl ?_), fun _ => hsome⟩
    cases hdrawn with
    | nothing => cases hsome
    | served hturned hfaces _ =>
      exact ⟨_, hturned.sendable.mp (hfaces.sendable (h.rung.turned hturned))⟩
  | capped hlink _ hnone hfull =>
    refine ⟨fun hsome => (by cases hsome), ?_⟩
    rintro (hne | ⟨s, hs⟩ | ⟨hroom, -⟩)
    · exact absurd hlink hne
    · exact absurd hs (hnone s)
    · exact absurd hroom (Nat.not_lt.mpr hfull)
  | @shared w' _ hlink hturned hnone hroom hshared =>
    subst hshared
    have hrung := h.rung.turned hturned
    have hencodable := hturned.encodable h.encodable
    constructor
    · intro hsome
      have hdrawn := nextSharedLoop_drawn hrung hencodable (w'.fragmentBytes * 2) 6
      refine .inr (.inr ⟨hroom, ?_⟩)
      rw [nextShared] at hsome
      generalize nextSharedLoop (w'.fragmentBytes * 2) 6 w' = r at hdrawn hsome
      cases hdrawn with
      | nothing => cases hsome
      | @served p s _ _ _ _ _ hpaced hfaces _ =>
        exact ⟨_, shared_ne p.turn, s, hturned.sendable.mp
          (hpaced.sendable.mp (hfaces.sendable (hpaced.rung hrung)))⟩
    · rintro (hne | ⟨s, hs⟩ | ⟨-, cls, hcls, s, hs⟩)
      · exact absurd hlink hne
      · exact absurd hs (hnone s)
      · obtain ⟨c, rfl⟩ := shared_surjective hcls
        have hfragments : minFragmentBytes ≤ w'.fragmentBytes := by
          rw [hturned.fragmentBytes]
          exact h.fragments
        have hfloor : minFragmentBytes = 4096 := rfl
        have hturns : turnsTo w'.turn c ≤ 2 := Nat.le_of_lt_succ (c - w'.turn).isLt
        refine nextSharedLoop_some hrung hencodable (by omega) (hturned.sendable.mpr hs) ?_
        split <;> omega

theorem pick_capped (h : Sound w) (hfull : w.cap ≤ w.inFlight) {state : Stream}
    (hs : w.streams.lookup s = some state) (hcls : state.cls ≠ .urgent) :
    w.pick.1.streams.lookup s = some state := by
  have hpicked := pick_picked h.rung h.encodable
  generalize w.pick = r at hpicked ⊢
  cases hpicked with
  | link hlink => exact hs
  | urgent hlink hdrawn hsome =>
    cases hdrawn with
    | nothing => cases hsome
    | @served p s' rest state' head behind _ hturned hfaces _ =>
      have hne : s ≠ s' := fun heq => by
        subst heq
        have hcls' := (h.rung.turned hturned).cls_of_front hfaces.ring hfaces.lookup
        have hlook := hfaces.lookup
        rw [hturned.streams, hs] at hlook
        cases hlook
        exact hcls hcls'
      rw [lookup_serve, if_neg hne, streams_setRing, hturned.streams]
      exact hs
  | capped _ hturned _ _ =>
    rw [hturned.streams]
    exact hs
  | shared _ _ _ hroom _ => exact absurd hroom (Nat.not_lt.mpr hfull)

/-! ## What every operation keeps -/

section Keeps

variable {s : StreamId} {state state' : Stream}

theorem Rung.setStream (h : Rung w) (hs : w.streams.lookup s = some state)
    (hcls : state'.cls = state.cls) (hq : state'.queue = [] ↔ state.queue = []) :
    Rung (w.setStream s state') where
  nodup := h.nodup
  mem cls t := by
    rw [rings_setStream, h.mem, lookup_setStream]
    split
    · next ht =>
      rw [ht, hs]
      simp [hcls, hq]
    · exact Iff.rfl

theorem Rung.openStream (h : Rung w) (hs : w.streams.lookup s = none) (cls : Class)
    (windowed : Bool) : Rung (w.openStream s cls windowed) where
  nodup := h.nodup
  mem cls' t := by
    rw [Writer.openStream, rings_setStream, h.mem, lookup_setStream]
    split
    · next ht =>
      rw [ht, hs]
      simp
    · exact Iff.rfl

theorem Rung.not_mem_empty (h : Rung w) (hs : w.streams.lookup s = some state)
    (hq : state.queue = []) (cls : Class) : s ∉ w.rings cls := by
  intro hmem
  obtain ⟨state', hs', -, hne⟩ := (h.mem cls s).mp hmem
  rw [hs] at hs'
  cases hs'
  exact hne hq

theorem Rung.join (h : Rung w) (hs : w.streams.lookup s = some state) (hq : state.queue = [])
    (hcls : state'.cls = state.cls) (hq' : state'.queue ≠ []) :
    Rung ((w.setStream s state').setRing state.cls (w.rings state.cls ++ [s])) where
  nodup cls := by
    rw [rings_setRing]
    split
    · next hc =>
      refine perm_append_comm.nodup_iff.mpr (nodup_cons.mpr ⟨?_, h.nodup _⟩)
      exact h.not_mem_empty hs hq _
    · exact h.nodup cls
  mem cls t := by
    have hnot := h.not_mem_empty hs hq cls
    rw [rings_setRing, streams_setRing, lookup_setStream]
    by_cases ht : t = s
    · subst ht
      rw [if_pos rfl]
      by_cases hc : cls = state.cls
      · simp [hc, hcls, hq']
      · have hc' : ¬state.cls = cls := fun heq => hc heq.symm
        simp [hc, hc', hcls, hnot, rings_setStream]
    · rw [if_neg ht, ← h.mem cls t]
      split
      · next hc => rw [hc, mem_append, mem_singleton, or_iff_left ht]
      · exact Iff.rfl

theorem Rung.queue (h : Rung w) (s : StreamId) (kind : FrameType) (payload : Bytes) :
    Rung (w.queue s kind payload) := by
  unfold Writer.queue
  cases hs : w.streams.lookup s with
  | none => exact h
  | some state =>
    dsimp only
    cases hq : state.queue with
    | nil => exact h.join hs hq rfl (by simp)
    | cons q queue => exact h.setStream hs rfl (by simp [hq])

theorem Rung.reclass (h : Rung w) (s : StreamId) (cls : Class) : Rung (w.reclass s cls) := by
  unfold Writer.reclass
  cases hs : w.streams.lookup s with
  | none => exact h
  | some state =>
    dsimp only
    split
    · exact h
    next hne =>
    split
    · next hmem =>
      obtain ⟨state', hs', -, hq⟩ := (h.mem _ _).mp hmem
      rw [hs] at hs'
      cases hs'
      have hout : s ∉ w.rings cls := fun hin => by
        obtain ⟨state', hs', hcls, -⟩ := (h.mem _ _).mp hin
        rw [hs] at hs'
        cases hs'
        exact hne hcls
      constructor
      · intro cls'
        rw [rings_setRing]
        split
        · exact perm_append_comm.nodup_iff.mpr (nodup_cons.mpr ⟨hout, h.nodup _⟩)
        · rw [rings_setRing]
          split
          · exact (h.nodup _).erase s
          · exact h.nodup cls'
      · intro cls' t
        rw [rings_setRing, streams_setRing, streams_setRing, lookup_setStream]
        by_cases ht : t = s
        · subst ht
          rw [if_pos rfl]
          by_cases hc : cls' = cls
          · simp [hc, hq]
          · have hc' : ¬cls = cls' := fun heq => hc heq.symm
            have hgone : t ∉ (w.rings state.cls).erase t := (h.nodup _).not_mem_erase
            have hold : cls' = state.cls ∨ t ∉ w.rings cls' := by
              by_cases heq : cls' = state.cls
              · exact .inl heq
              · refine .inr fun hin => heq ?_
                obtain ⟨state', hs', hcls, -⟩ := (h.mem _ _).mp hin
                rw [hs] at hs'
                cases hs'
                exact hcls.symm
            rw [if_neg hc, rings_setRing]
            rcases hold with heq | hnot
            · subst heq
              simp [hgone, hc']
            · split
              · simp [hgone, hc']
              · simp [hnot, hc', rings_setStream]
        · rw [if_neg ht, ← h.mem cls' t]
          split
          · next hc => rw [hc, mem_append, mem_singleton, or_iff_left ht]
          · rw [rings_setRing]
            split
            · next hc => rw [hc, mem_erase_of_ne ht]
            · exact Iff.rfl
    · next hmem =>
      have hq : state.queue = [] := by
        by_contra hq
        exact hmem ((h.mem _ _).mpr ⟨state, hs, rfl, hq⟩)
      constructor
      · exact h.nodup
      · intro cls' t
        rw [rings_setStream, h.mem, lookup_setStream]
        split
        · next ht =>
          rw [ht, hs]
          simp [hq]
        · exact Iff.rfl

theorem Rung.grant (h : Rung w) (s : StreamId) (bytes : Nat) : Rung (w.grant s bytes) := by
  unfold Writer.grant
  cases hs : w.streams.lookup s with
  | none => exact h
  | some state =>
    dsimp only
    cases state.window with
    | none => exact h
    | some window => exact h.setStream hs rfl Iff.rfl

theorem Rung.forget (h : Rung w) (s : StreamId) : Rung (w.forget s) := by
  unfold Writer.forget
  cases hs : w.streams.lookup s with
  | none => exact h
  | some state =>
    constructor
    · intro cls
      rw [rings_setRing]
      split
      · exact (h.nodup _).filter _
      · exact h.nodup cls
    · intro cls t
      rw [rings_setRing, streams_setRing, Dict.lookup_erase]
      by_cases ht : t = s
      · subst ht
        have hnot : cls ≠ state.cls → t ∉ w.rings cls := fun hc hin => by
          obtain ⟨state', hs', hcls, -⟩ := (h.mem _ _).mp hin
          rw [hs] at hs'
          cases hs'
          exact hc hcls.symm
        split
        · simp
        · next hc => simp [hnot hc]
      · rw [if_neg ht, ← h.mem cls t]
        split
        · next hc =>
          rw [hc, mem_filter]
          simp [ht]
        · exact Iff.rfl

theorem Encodable.setStream (h : Encodable w) (hs : s ≠ 0 ∧ s < 2 ^ 64)
    (hq : ∀ q ∈ state.queue, q.kind ≠ .link ∧ q.kind ≠ .window) :
    Encodable (w.setStream s state) := by
  intro t state' ht
  rw [lookup_setStream] at ht
  split at ht
  · next heq =>
    cases ht
    exact ⟨heq ▸ hs, hq⟩
  · exact h t state' ht

theorem Encodable.op (h : Encodable w) {op : Op} (hfits : Fits w op)
    (hop : op ≠ .nextFrame) : Encodable (w.apply op) := by
  cases op with
  | openStream s cls windowed => exact h.setStream hfits.1 fun q hq => by cases hq
  | queue s kind payload =>
    show Encodable (w.queue s kind payload)
    unfold Writer.queue
    cases hs : w.streams.lookup s with
    | none => exact h
    | some state =>
      have hqueue : ∀ q ∈ state.queue ++ [{ kind := kind, payload := payload, sent := 0 }],
          q.kind ≠ .link ∧ q.kind ≠ .window := fun q hq => by
        rcases mem_append.mp hq with hq | hq
        · exact (h s state hs).2 q hq
        · rw [mem_singleton.mp hq]
          exact hfits
      have hset : Encodable (w.setStream s { state with
          queue := state.queue ++ [{ kind := kind, payload := payload, sent := 0 }] }) :=
        h.setStream (h s state hs).1 hqueue
      dsimp only
      split <;> exact hset
  | queueLink frame => exact h
  | reclass s cls =>
    show Encodable (w.reclass s cls)
    unfold Writer.reclass
    cases hs : w.streams.lookup s with
    | none => exact h
    | some state =>
      have hset : Encodable (w.setStream s { state with cls := cls }) :=
        h.setStream (h s state hs).1 (h s state hs).2
      dsimp only
      split
      · exact h
      · split <;> exact hset
  | grant s bytes =>
    show Encodable (w.grant s bytes)
    unfold Writer.grant
    cases hs : w.streams.lookup s with
    | none => exact h
    | some state =>
      dsimp only
      split
      · exact h
      · exact h.setStream (h s state hs).1 (h s state hs).2
  | forget s =>
    show Encodable (w.forget s)
    unfold Writer.forget
    cases hs : w.streams.lookup s with
    | none => exact h
    | some state =>
      intro t state' ht
      rw [streams_setRing, Dict.lookup_erase] at ht
      split at ht
      · cases ht
      · exact h t state' ht
  | setCap bytes => exact h
  | setFragmentBytes bytes => exact h
  | acked delivered => exact h
  | nextFrame => exact absurd rfl hop

end Keeps

/-! ## Reachable writers -/

/-- The counts and the sizes stand. -/
structure SameCounts (w w' : Writer) : Prop where
  written : w'.written = w.written
  acknowledged : w'.acknowledged = w.acknowledged
  fragmentBytes : w'.fragmentBytes = w.fragmentBytes

theorem SameCounts.trans {w'' : Writer} (h : SameCounts w w') (h' : SameCounts w' w'') :
    SameCounts w w'' :=
  ⟨h'.written.trans h.written, h'.acknowledged.trans h.acknowledged,
    h'.fragmentBytes.trans h.fragmentBytes⟩

theorem Turned.sameCounts (h : Turned w w') : SameCounts w w' := by
  constructor <;> rw [h.same]

theorem Paced.sameCounts (h : Paced w w') : SameCounts w w' := by
  constructor <;> rw [h.same]

theorem serve_sameCounts (w : Writer) (cls : Class) (s : StreamId) (state : Stream)
    (head : Queued) (behind : List Queued) :
    SameCounts w (w.serve cls s state head behind) := by
  unfold serve
  dsimp only
  split
  · exact ⟨rfl, rfl, rfl⟩
  · split <;> exact ⟨rfl, rfl, rfl⟩

theorem Encodable.serve (h : Encodable w) {cls : Class} {s : StreamId} {rest : List StreamId}
    {state : Stream} {head : Queued} {behind : List Queued}
    (hf : Faces w cls s rest state head behind) :
    Encodable ((w.setRing cls rest).serve cls s state head behind) := by
  have hkinds := (h s state hf.lookup).2
  rw [hf.queue] at hkinds
  obtain ⟨hhead, hbehind⟩ := forall_mem_cons.mp hkinds
  intro t state' ht
  rw [lookup_serve, streams_setRing] at ht
  split at ht
  · next heq =>
    split at ht
    · cases ht
    · cases ht
      refine ⟨heq ▸ (h s state hf.lookup).1, fun q hq => ?_⟩
      rcases leftover_cases (w.setRing cls rest) s head behind with hl | ⟨-, head', hk, hl⟩
      · rw [hl] at hq
        exact hbehind q hq
      · rw [hl] at hq
        rcases mem_cons.mp hq with rfl | hq
        · rw [hk]
          exact hhead
        · exact hbehind q hq
  · exact h t state' ht

/-- What a search left behind. -/
structure Left (w w' : Writer) : Prop where
  rung : Rung w'
  encodable : Encodable w'
  counts : SameCounts w w'

theorem Faces.left {p : Writer} {cls : Class} {s : StreamId} {rest : List StreamId}
    {state : Stream} {head : Queued} {behind : List Queued}
    (h : Faces p cls s rest state head behind) (hr : Rung p) (he : Encodable p)
    (hc : SameCounts w p) :
    Left w ((p.setRing cls rest).serve cls s state head behind) where
  rung := hr.serve h.ring h.lookup head behind
  encodable := he.serve h
  counts := by
    have hpopped : SameCounts p (p.setRing cls rest) := ⟨rfl, rfl, rfl⟩
    exact (hc.trans hpopped).trans (serve_sameCounts _ _ _ _ _ _)

theorem Drawn.left {cls : Class} {r : Writer × Option Bytes} (h : Drawn cls w r) (hr : Rung w)
    (he : Encodable w) : Left w r.1 := by
  cases h with
  | nothing ht _ => exact ⟨hr.turned ht, ht.encodable he, ht.sameCounts⟩
  | served ht hf _ => exact hf.left (hr.turned ht) (ht.encodable he) ht.sameCounts

theorem DrawnShared.left {r : Writer × Option Bytes} (h : DrawnShared w r) (hr : Rung w)
    (he : Encodable w) : Left w r.1 := by
  cases h with
  | nothing hp => exact ⟨hp.rung hr, hp.encodable he, hp.sameCounts⟩
  | served hp hf _ => exact hf.left (hp.rung hr) (hp.encodable he) hp.sameCounts

theorem pick_left (hr : Rung w) (he : Encodable w) : Left w w.pick.1 := by
  have hpicked := pick_picked hr he
  generalize w.pick = r at hpicked ⊢
  cases hpicked with
  | link hlink => exact ⟨⟨hr.nodup, hr.mem⟩, he, ⟨rfl, rfl, rfl⟩⟩
  | urgent _ hdrawn _ => exact hdrawn.left hr he
  | capped _ hturned _ _ => exact ⟨hr.turned hturned, hturned.encodable he, hturned.sameCounts⟩
  | @shared w' _ _ hturned _ _ hshared =>
    subst hshared
    have hleft := (nextSharedLoop_drawn (hr.turned hturned) (hturned.encodable he)
      (w'.fragmentBytes * 2) 6).left (hr.turned hturned) (hturned.encodable he)
    exact ⟨hleft.rung, hleft.encodable, hturned.sameCounts.trans hleft.counts⟩

theorem nextFrame_eq (w : Writer) : w.nextFrame =
    ({ w.pick.1 with written := w.pick.1.written + (w.pick.2.elim 0 List.length) }, w.pick.2) := by
  unfold nextFrame
  cases w.pick with
  | mk w' found => cases found <;> rfl

theorem Sound.nextFrame (h : Sound w) : Sound w.nextFrame.1 := by
  have hleft := pick_left h.rung h.encodable
  rw [nextFrame_eq]
  refine ⟨⟨hleft.rung.nodup, hleft.rung.mem⟩, hleft.encodable, ?_, ?_⟩
  · have hack := h.acknowledged
    show w.pick.1.acknowledged ≤ w.pick.1.written + _
    rw [hleft.counts.acknowledged, hleft.counts.written]
    omega
  · show minFragmentBytes ≤ w.pick.1.fragmentBytes
    rw [hleft.counts.fragmentBytes]
    exact h.fragments

theorem queue_counts (w : Writer) (s : StreamId) (kind : FrameType) (payload : Bytes) :
    SameCounts w (w.queue s kind payload) := by
  unfold queue
  split
  · exact ⟨rfl, rfl, rfl⟩
  · dsimp only
    split <;> exact ⟨rfl, rfl, rfl⟩

theorem reclass_counts (w : Writer) (s : StreamId) (cls : Class) :
    SameCounts w (w.reclass s cls) := by
  unfold reclass
  split
  · exact ⟨rfl, rfl, rfl⟩
  · dsimp only
    split
    · exact ⟨rfl, rfl, rfl⟩
    · split <;> exact ⟨rfl, rfl, rfl⟩

theorem grant_counts (w : Writer) (s : StreamId) (bytes : Nat) :
    SameCounts w (w.grant s bytes) := by
  unfold grant
  split
  · exact ⟨rfl, rfl, rfl⟩
  · split <;> exact ⟨rfl, rfl, rfl⟩

theorem forget_counts (w : Writer) (s : StreamId) : SameCounts w (w.forget s) := by
  unfold forget
  split <;> exact ⟨rfl, rfl, rfl⟩

theorem Sound.of_counts (h : Sound w) (hr : Rung w') (he : Encodable w')
    (hc : SameCounts w w') : Sound w' where
  rung := hr
  encodable := he
  acknowledged := by
    rw [hc.acknowledged, hc.written]
    exact h.acknowledged
  fragments := by
    rw [hc.fragmentBytes]
    exact h.fragments

theorem Sound.apply (h : Sound w) {op : Op} (hfits : Fits w op) : Sound (w.apply op) := by
  cases op with
  | openStream s cls windowed =>
    exact h.of_counts (h.rung.openStream hfits.2 cls windowed)
      (h.encodable.op hfits (by simp)) ⟨rfl, rfl, rfl⟩
  | queue s kind payload =>
    exact h.of_counts (h.rung.queue s kind payload) (h.encodable.op hfits (by simp))
      (queue_counts _ _ _ _)
  | queueLink frame => exact ⟨⟨h.rung.nodup, h.rung.mem⟩, h.encodable, h.acknowledged, h.fragments⟩
  | reclass s cls =>
    exact h.of_counts (h.rung.reclass s cls) (h.encodable.op hfits (by simp))
      (reclass_counts _ _ _)
  | grant s bytes =>
    exact h.of_counts (h.rung.grant s bytes) (h.encodable.op hfits (by simp)) (grant_counts _ _ _)
  | forget s =>
    exact h.of_counts (h.rung.forget s) (h.encodable.op hfits (by simp)) (forget_counts _ _)
  | setCap bytes => exact ⟨⟨h.rung.nodup, h.rung.mem⟩, h.encodable, h.acknowledged, h.fragments⟩
  | setFragmentBytes bytes =>
    exact ⟨⟨h.rung.nodup, h.rung.mem⟩, h.encodable, h.acknowledged, Nat.le_max_left _ _⟩
  | acked delivered =>
    exact ⟨⟨h.rung.nodup, h.rung.mem⟩, h.encodable,
      Nat.max_le.mpr ⟨h.acknowledged, Nat.min_le_right _ _⟩, h.fragments⟩
  | nextFrame => exact h.nextFrame

theorem sound_new : Sound Writer.new where
  rung := ⟨fun _ => nodup_nil, fun cls s => by
    refine ⟨fun h => absurd h not_mem_nil, ?_⟩
    rintro ⟨state, h, -⟩
    cases h⟩
  encodable s state h := by cases h
  acknowledged := Nat.le_refl _
  fragments := by decide

theorem Reachable.sound (h : Reachable w) : Sound w := by
  induction h with
  | new => exact sound_new
  | step op _ hfits ih => exact ih.apply hfits

/-- The writer sends exactly when something may go, holds the classes that share to the cap, keeps
each stream in the ring of its class while it has something queued, and counts no more bytes
acknowledged than written. -/
theorem schedules (h : Reachable w) :
    (w.nextFrame.2.isSome = true ↔ w.link ≠ [] ∨ (∃ s, Sendable w .urgent s) ∨
      w.inFlight < w.cap ∧ ∃ cls, cls ≠ .urgent ∧ ∃ s, Sendable w cls s) ∧
    (w.cap ≤ w.inFlight → ∀ s state, w.streams.lookup s = some state → state.cls ≠ .urgent →
      w.nextFrame.1.streams.lookup s = some state) ∧
    ((∀ cls, (w.rings cls).Nodup) ∧ ∀ cls s, s ∈ w.rings cls ↔
      ∃ state, w.streams.lookup s = some state ∧ state.cls = cls ∧ state.queue ≠ []) ∧
    w.acknowledged ≤ w.written := by
  have hsound := h.sound
  refine ⟨?_, fun hfull s state hs hcls => ?_, ⟨hsound.rung.nodup, hsound.rung.mem⟩,
    hsound.acknowledged⟩
  · rw [nextFrame_eq]
    exact pick_isSome hsound
  · rw [nextFrame_eq]
    exact pick_capped hsound hfull hs hcls

/-- A stream of two messages moves to another class between them. -/
theorem schedules_moved :
    let w := ((((Writer.new.apply (.openStream 1 .bulk true)).apply (.queue 1 .text [104])).apply
      (.queue 1 .text [105])).apply .nextFrame).apply (.reclass 1 .live)
    (w.nextFrame.2.isSome = true ↔ w.link ≠ [] ∨ (∃ s, Sendable w .urgent s) ∨
      w.inFlight < w.cap ∧ ∃ cls, cls ≠ .urgent ∧ ∃ s, Sendable w cls s) ∧
    (w.cap ≤ w.inFlight → ∀ s state, w.streams.lookup s = some state → state.cls ≠ .urgent →
      w.nextFrame.1.streams.lookup s = some state) ∧
    ((∀ cls, (w.rings cls).Nodup) ∧ ∀ cls s, s ∈ w.rings cls ↔
      ∃ state, w.streams.lookup s = some state ∧ state.cls = cls ∧ state.queue ≠ []) ∧
    w.acknowledged ≤ w.written :=
  schedules ((((Reachable.new.step (.openStream 1 .bulk true) ⟨by decide, rfl⟩).step
    (.queue 1 .text [104]) ⟨by decide, by decide⟩).step (.queue 1 .text [105])
      ⟨by decide, by decide⟩).step .nextFrame trivial |>.step (.reclass 1 .live) trivial)

end VibeField.Freeway.Writer
