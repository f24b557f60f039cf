import VibeField.Base.RoundRobin
import VibeField.Freeway.Codec
import VibeField.Freeway.Sends

/-!
# What the classes share

While every class that shares has something it may send, each frame of it is charged with its
payload and the eleven bytes a header may take.  What two classes are charged stays in the
proportion of their weights.
-/

namespace VibeField.Freeway.Writer

open List Option Function

def sends (w : Writer) (i : Fin 3) : Option (Frame × Bytes) :=
  match w.link, w.nextFrame.2 with
  | [], some bytes =>
    match decode bytes with
    | .ok frame =>
      if (w.streams.lookup frame.stream).any fun state => state.cls = Class.shared i then
        some (frame, bytes)
      else none
    | .error _ => none
  | _, _ => none

/-- The frames a run has sent from each class, their bytes, and what they were charged. -/
structure Tally where
  frames : Fin 3 → Nat
  bytes : Fin 3 → Nat
  charged : Fin 3 → Nat

def Tally.zero : Tally := { frames := fun _ => 0, bytes := fun _ => 0, charged := fun _ => 0 }

def Tally.next (t : Tally) (w : Writer) : Tally where
  frames i := t.frames i + (w.sends i).elim 0 fun _ => 1
  bytes i := t.bytes i + (w.sends i).elim 0 fun sent => sent.2.length
  charged i := t.charged i + (w.sends i).elim 0 fun sent => sent.1.payload.length + 11

/-- Every class that shares has something it may send, and no control frame of theirs is larger than
the fragment size. -/
structure Backlogged (w : Writer) : Prop where
  busy : ∀ i, ∃ s, Sendable w (Class.shared i) s
  small : ∀ s state, w.streams.lookup s = some state → state.cls ≠ .urgent →
    ∀ q ∈ state.queue, q.kind.fragments = false → q.payload.length ≤ w.fragmentBytes

/-- A run at one fragment size in which the classes that share stay backlogged. -/
inductive Busy (fragment : Nat) (start : Writer) : Tally → Writer → Prop
  | start : Reachable start → start.fragmentBytes = fragment → Busy fragment start .zero start
  | op {t : Tally} {w : Writer} (op : Op) : Busy fragment start t w → op ≠ .nextFrame →
      Fits w op → (w.apply op).fragmentBytes = fragment → Busy fragment start t (w.apply op)
  | next {t : Tally} {w : Writer} : Busy fragment start t w → Backlogged w →
      Busy fragment start (t.next w) w.nextFrame.1

def level (i : Fin 3) : Nat := Freeway.fragmentBytes + 11 + weights i * (Freeway.fragmentBytes * 2)

def slack (i j : Fin 3) : Nat :=
  weights j * level i + weights i * level j +
    weights i * weights j * (Freeway.fragmentBytes * 2)

/-- What was charged is in proportion; it is the bytes sent, and up to nine more for each frame; and
no class is passed over for more than the slack. -/
structure Shares (t : Tally) : Prop where
  fair : ∀ i j, weights j * t.charged i ≤ weights i * t.charged j + slack i j
  bytes : ∀ i, t.bytes i ≤ t.charged i ∧ t.charged i ≤ t.bytes i + 9 * t.frames i
  passed : ∀ i j, t.frames i = 0 → t.bytes j ≤ slack j i

variable {w w' : Writer}

/-! ## What a frame is charged -/

/-- A control frame is still whole. -/
def Whole (w : Writer) : Prop :=
  ∀ s state, w.streams.lookup s = some state →
    ∀ q ∈ state.queue, q.kind.fragments = false → q.sent = 0

theorem decode_length {frame : Frame} {bytes : Bytes} (h : decode bytes = .ok frame) :
    frame.payload.length + 2 ≤ bytes.length ∧ bytes.length ≤ frame.payload.length + 11 := by
  obtain ⟨-, numeral, hspells, rfl⟩ := decode_ok_iff.mp h
  obtain ⟨init, last, hnumeral, -, -⟩ := hspells.ended
  have hshort := hspells.short
  rw [hnumeral] at hshort ⊢
  simp only [length_append, length_cons, length_nil] at hshort ⊢
  omega

theorem cut_length {s : StreamId} {head : Queued} (hwhole : head.kind.fragments = false →
    head.sent = 0 ∧ head.payload.length ≤ w.fragmentBytes) :
    (w.cut s head).1.payload.length =
      min (head.payload.length - head.sent) w.fragmentBytes := by
  unfold cut
  split
  · simp only [length_drop, length_take]
    omega
  · next hkind =>
    have hfrag : head.kind.fragments = false := by
      rw [← Bool.not_eq_true, FrameType.fragments_iff]
      exact hkind
    obtain ⟨hsent, hle⟩ := hwhole hfrag
    dsimp only
    omega

theorem Whole.setStream (h : Whole w) {s : StreamId} {state : Stream}
    (hq : ∀ q ∈ state.queue, q.kind.fragments = false → q.sent = 0) :
    Whole (w.setStream s state) := by
  intro t state' ht
  rw [lookup_setStream] at ht
  split at ht
  · cases ht
    exact hq
  · exact h t state' ht

theorem Whole.op (h : Whole w) {op : Op} (hop : op ≠ .nextFrame) : Whole (w.apply op) := by
  cases op with
  | openStream s cls windowed => exact h.setStream fun q hq => by cases hq
  | queue s kind payload =>
    show Whole (w.queue s kind payload)
    unfold Writer.queue
    cases hs : w.streams.lookup s with
    | none => exact h
    | some state =>
      have hset : Whole (w.setStream s { state with
          queue := state.queue ++ [{ kind := kind, payload := payload, sent := 0 }] }) := by
        refine h.setStream fun q hq hkind => ?_
        rcases mem_append.mp hq with hq | hq
        · exact h s state hs q hq hkind
        · rw [mem_singleton.mp hq]
      dsimp only
      split <;> exact hset
  | queueLink frame => exact h
  | reclass s cls =>
    show Whole (w.reclass s cls)
    unfold Writer.reclass
    cases hs : w.streams.lookup s with
    | none => exact h
    | some state =>
      have hset : Whole (w.setStream s { state with cls := cls }) := h.setStream (h s state hs)
      dsimp only
      split
      · exact h
      · split <;> exact hset
  | grant s bytes =>
    show Whole (w.grant s bytes)
    unfold Writer.grant
    cases hs : w.streams.lookup s with
    | none => exact h
    | some state =>
      dsimp only
      split
      · exact h
      · exact h.setStream (h s state hs)
  | forget s =>
    show Whole (w.forget s)
    unfold Writer.forget
    cases hs : w.streams.lookup s with
    | none => exact h
    | some state =>
      intro t state' ht
      rw [streams_setRing, Dict.lookup_erase] at ht
      split at ht
      · cases ht
      · exact h t state' ht
  | setCap bytes => exact h
  | setFragmentBytes bytes => exact h
  | acked delivered => exact h
  | nextFrame => exact absurd rfl hop

theorem Whole.congr (h : Whole w) (hs : w'.streams = w.streams) : Whole w' := by
  rw [Whole, hs]
  exact h

theorem Whole.serve (h : Whole w) {cls : Class} {s : StreamId} {rest : List StreamId}
    {state : Stream} {head : Queued} {behind : List Queued}
    (hf : Faces w cls s rest state head behind) :
    Whole ((w.setRing cls rest).serve cls s state head behind) := by
  have hall := h s state hf.lookup
  rw [hf.queue] at hall
  obtain ⟨-, hbehind⟩ := forall_mem_cons.mp hall
  intro t state' ht
  rw [lookup_serve, streams_setRing] at ht
  split at ht
  · split at ht
    · cases ht
    · cases ht
      intro q hq hkind
      rcases leftover_cases (w.setRing cls rest) s head behind with hl | ⟨hfrag, head', hk, hl⟩
      · rw [hl] at hq
        exact hbehind q hq hkind
      · rw [hl] at hq
        rcases mem_cons.mp hq with rfl | hq
        · rw [hk, hfrag] at hkind
          cases hkind
        · exact hbehind q hq hkind
  · exact h t state' ht

theorem Whole.pick (h : Whole w) (hr : Rung w) (he : Encodable w) : Whole w.pick.1 := by
  have hpicked := pick_picked hr he
  generalize w.pick = r at hpicked ⊢
  cases hpicked with
  | link hlink => exact h
  | urgent _ hdrawn _ =>
    cases hdrawn with
    | nothing ht _ => exact h.congr ht.streams
    | served ht hf _ => exact (h.congr ht.streams).serve hf
  | capped _ hturned _ _ => exact h.congr hturned.streams
  | @shared w' _ _ hturned _ _ hshared =>
    subst hshared
    have hdrawn := nextSharedLoop_drawn (hr.turned hturned) (hturned.encodable he)
      (w'.fragmentBytes * 2) 6
    rw [nextShared]
    generalize nextSharedLoop (w'.fragmentBytes * 2) 6 w' = r at hdrawn
    cases hdrawn with
    | nothing hp => exact h.congr (hp.streams.trans hturned.streams)
    | served hp hf _ => exact (h.congr (hp.streams.trans hturned.streams)).serve hf

theorem Reachable.whole (h : Reachable w) : Whole w := by
  induction h with
  | new => exact fun s state hs => by cases hs
  | @step w op hreach _ ih =>
    by_cases hop : op = .nextFrame
    · subst hop
      show Whole w.nextFrame.1
      rw [nextFrame_eq]
      exact (ih.pick hreach.sound.rung hreach.sound.encodable).congr rfl
    · exact ih.op hop

/-! ## The deficits of a run -/

def pace (w : Writer) : RoundRobin.State 2 := { deficits := w.deficits, turn := w.turn }

theorem Turned.pace (h : Turned w w') : w'.pace = w.pace := by
  rw [h.same]
  rfl

theorem op_pace (w : Writer) {op : Op} (hop : op ≠ .nextFrame) : (w.apply op).pace = w.pace := by
  cases op with
  | openStream s cls windowed => rfl
  | queue s kind payload =>
    show (w.queue s kind payload).pace = w.pace
    unfold queue
    split
    · rfl
    · dsimp only
      split <;> rfl
  | queueLink frame => rfl
  | reclass s cls =>
    show (w.reclass s cls).pace = w.pace
    unfold reclass
    split
    · rfl
    · dsimp only
      split
      · rfl
      · split <;> rfl
  | grant s bytes =>
    show (w.grant s bytes).pace = w.pace
    unfold grant
    split
    · rfl
    · split <;> rfl
  | forget s =>
    show (w.forget s).pace = w.pace
    unfold forget
    split <;> rfl
  | setCap bytes => rfl
  | setFragmentBytes bytes => rfl
  | acked delivered => rfl
  | nextFrame => exact absurd rfl hop

theorem serve_pace (w : Writer) (cls : Class) (s : StreamId) (state : Stream) (head : Queued)
    (behind : List Queued) : (w.serve cls s state head behind).pace = w.pace := by
  unfold serve
  dsimp only
  split
  · rfl
  · split <;> rfl

theorem serve_deficits (w : Writer) (cls : Class) (s : StreamId) (state : Stream)
    (head : Queued) (behind : List Queued) :
    (w.serve cls s state head behind).deficits = w.deficits :=
  congrArg RoundRobin.State.deficits (serve_pace w cls s state head behind)

theorem shared_injective {i j : Fin 3} (h : Class.shared i = Class.shared j) : i = j := by
  revert h
  revert i j
  decide

section Run

variable {start : RoundRobin.State 2} {rounds charged : Fin 3 → Nat}

abbrev Turns (fragment : Nat) := RoundRobin.Run weights (fragment * 2) (fragment + 11)

theorem Passes.turns {fragment : Nat} (h : Passes (fragment * 2) w w') (hr : Rung w)
    (hfragment : w.fragmentBytes = fragment) (hbusy : ∀ i, ∃ s, Sendable w (Class.shared i) s)
    (hturns : Turns fragment start rounds charged w.pace) :
    ∃ rounds', Turns fragment start rounds' charged w'.pace := by
  induction h with
  | refl => exact ⟨rounds, hturns⟩
  | @skip p p' hpasses hcost ih =>
    have hpaced := hpasses.paced hr
    have hpriced := headCost_priced (hpaced.rung hr) (Class.shared p.turn)
    rw [hcost] at hpriced
    obtain ⟨s, hs⟩ := hbusy p.turn
    exact absurd (hpaced.sendable.mpr hs) (hpriced.none s)
  | @pass p p' cost hpasses hcost hpoor ih =>
    obtain ⟨rounds', hturns'⟩ := ih
    have hpaced := hpasses.paced hr
    have hpriced := headCost_priced (hpaced.rung hr) (Class.shared p.turn)
    rw [hcost] at hpriced
    have hturned : Turned p p' := hpriced.turned
    obtain ⟨s, rest, state, head, behind, -, hprice⟩ := hpriced.faces
    rw [← hturned.pace] at hturns'
    have hbound : cost ≤ fragment + 11 := by
      rw [hprice, hpaced.fragmentBytes, hfragment]
      exact Nat.add_le_add_right (Nat.min_le_right _ _) 11
    exact ⟨_, hturns'.pass hbound hpoor⟩

end Run

theorem sends_of_link (h : w.link ≠ []) (i : Fin 3) : w.sends i = none := by
  obtain ⟨frame, rest, hlink⟩ := exists_cons_of_ne_nil h
  rw [sends, hlink]

theorem sends_of_none (h : w.pick.2 = none) (i : Fin 3) : w.sends i = none := by
  rw [sends, nextFrame_eq, h]
  split
  · next hnone => cases hnone
  · rfl

variable {fragment n : Nat} {frame : Frame} {start : Writer} {t : Tally}

theorem sends_of_frame {bytes : Bytes} {state : Stream} (hlink : w.link = [])
    (hpick : w.pick.2 = some bytes) (hencode : encode frame = .ok bytes)
    (hstream : frame.stream < 2 ^ 64) (hlook : w.streams.lookup frame.stream = some state)
    (i : Fin 3) : w.sends i = if state.cls = Class.shared i then some (frame, bytes) else none := by
  rw [sends, nextFrame_eq, hlink, hpick]
  simp only [decode_encode hstream hencode, hlook, Option.any_some, decide_eq_true_eq]

theorem nextFrame_pace (w : Writer) : w.nextFrame.1.pace = w.pick.1.pace := by
  rw [nextFrame_eq]
  rfl

theorem turns_still {start : RoundRobin.State 2} {rounds charged : Fin 3 → Nat}
    (hturns : Turns fragment start rounds charged w.pace) (hpace : w.pick.1.pace = w.pace)
    (hsends : ∀ i, w.sends i = none) :
    ∃ rounds', Turns fragment start rounds' (fun i => charged i +
      (w.sends i).elim 0 fun sent => sent.1.payload.length + 11) w.nextFrame.1.pace := by
  refine ⟨rounds, ?_⟩
  simp only [hsends, elim_none, Nat.add_zero]
  rw [nextFrame_pace, hpace]
  exact hturns

/-- What a call for the next frame does while the classes that share are backlogged: it leaves the
deficits alone and sends nothing of theirs, or the class it serves pays for its frame. -/
theorem nextFrame_turns (h : Reachable w) (hfragment : w.fragmentBytes = fragment)
    (hback : Backlogged w) {start : RoundRobin.State 2} {rounds charged : Fin 3 → Nat}
    (hturns : Turns fragment start rounds charged w.pace) :
    ∃ rounds', Turns fragment start rounds' (fun i => charged i +
      (w.sends i).elim 0 fun sent => sent.1.payload.length + 11) w.nextFrame.1.pace := by
  have hsound := h.sound
  have hpicked := pick_picked hsound.rung hsound.encodable
  cases hr : w.pick with
  | mk v found =>
  rw [hr] at hpicked
  have hfirst : w.pick.1 = v := congrArg Prod.fst hr
  have hsecond : w.pick.2 = found := congrArg Prod.snd hr
  cases hpicked with
  | link hlink =>
    refine turns_still hturns (hfirst ▸ rfl) fun i => sends_of_link ?_ i
    rw [hlink]
    exact cons_ne_nil _ _
  | capped hlink hturned hnone hfull =>
    exact turns_still hturns (hfirst ▸ hturned.pace) (sends_of_none hsecond)
  | urgent hlink hdrawn hsome =>
    cases hdrawn with
    | nothing => cases hsome
    | @served p s rest state head behind bytes hturned hfaces hbytes =>
      have hcls := (hsound.rung.turned hturned).cls_of_front hfaces.ring hfaces.lookup
      have hlook := hfaces.lookup
      rw [hturned.streams] at hlook
      refine turns_still hturns ?_ fun i => ?_
      · rw [hfirst, serve_pace]
        exact hturned.pace
      · rw [sends_of_frame hlink hsecond hbytes (by
          rw [cut_stream]
          exact (hsound.encodable s state hlook).1.2) (by rwa [cut_stream]) i, hcls,
          if_neg (shared_ne i).symm]
  | @shared w' _ hlink hturned hnone hroom hshared =>
    have hrung := hsound.rung.turned hturned
    have hencodable := hturned.encodable hsound.encodable
    have hbusy : ∀ i, ∃ s, Sendable w' (Class.shared i) s := fun i => by
      obtain ⟨s, hs⟩ := hback.busy i
      exact ⟨s, hturned.sendable.mpr hs⟩
    have hfragment' : w'.fragmentBytes = fragment := hturned.fragmentBytes.trans hfragment
    obtain ⟨p, hpasses, hexhausted | ⟨p', cost, hcost, hle, heq⟩⟩ :=
      nextSharedLoop_passes (w'.fragmentBytes * 2) 6 w'
    · obtain ⟨s, hs⟩ := hbusy 0
      have hfloor : minFragmentBytes = 4096 := rfl
      have hfragments : minFragmentBytes ≤ w'.fragmentBytes := by
        rw [hturned.fragmentBytes]
        exact hsound.fragments
      have hturnsTo : turnsTo w'.turn 0 ≤ 2 := Nat.le_of_lt_succ (0 - w'.turn).isLt
      have hsome : (nextSharedLoop (w'.fragmentBytes * 2) 6 w').2.isSome = true :=
        nextSharedLoop_some hrung hencodable (by omega) hs (by split <;> omega)
      rw [hexhausted] at hsome
      cases hsome
    · rw [hfragment'] at hpasses
      have hpaced := hpasses.paced hrung
      rw [← hturned.pace] at hturns
      obtain ⟨rounds', hturns'⟩ := hpasses.turns hrung hfragment' hbusy hturns
      have hpriced := headCost_priced (hpaced.rung hrung) (Class.shared p.turn)
      rw [hcost] at hpriced
      have hturned' : Turned p p' := hpriced.turned
      obtain ⟨s, rest, state, head, behind, hfaces, hprice⟩ := hpriced.faces
      have hpay : Paced w' (p'.pay cost) := hturned'.paced hpaced _ _
      obtain ⟨bytes, hbytes, hnext⟩ := nextFrom_front (hpay.encodable hencodable) (hfaces.pay cost)
      have hres : (v, found) = (((p'.pay cost).setRing (Class.shared p.turn) rest).serve
          (Class.shared p.turn) s state head behind, some bytes) := by
        rw [← hshared, nextShared, heq, hnext]
      obtain ⟨rfl, rfl⟩ := Prod.mk.inj hres
      have hcls : state.cls = Class.shared p'.turn := by
        rw [hturned'.turn]
        exact ((hpaced.rung hrung).turned hturned').cls_of_front hfaces.ring hfaces.lookup
      have hlook := hfaces.lookup
      rw [hturned'.streams, hpaced.streams, hturned.streams] at hlook
      have hsends := sends_of_frame hlink hsecond hbytes (by
        rw [cut_stream]
        exact (hsound.encodable s state hlook).1.2) (by rwa [cut_stream])
      have hhead : head ∈ state.queue := hfaces.queue ▸ mem_cons_self
      have hpayload :
          (((p'.pay cost).setRing (Class.shared p.turn) rest).cut s head).1.payload.length + 11 =
            cost := by
        have hsize : ((p'.pay cost).setRing (Class.shared p.turn) rest).fragmentBytes =
            p.fragmentBytes := hturned'.fragmentBytes
        have hwhole : head.kind.fragments = false → head.sent = 0 ∧ head.payload.length ≤
            ((p'.pay cost).setRing (Class.shared p.turn) rest).fragmentBytes := fun hkind => by
          refine ⟨h.whole s state hlook head hhead hkind, ?_⟩
          rw [hsize, hpaced.fragmentBytes, hturned.fragmentBytes]
          exact hback.small s state hlook (hcls ▸ shared_ne _) head hhead hkind
        rw [cut_length hwhole, hsize, ← hprice]
      rw [← hturned'.pace] at hturns'
      refine ⟨rounds', ?_⟩
      have hserve := hturns'.serve hle
      have hcharged : (Function.update charged p'.turn (charged p'.turn + cost)) = fun i =>
          charged i + (w.sends i).elim 0 fun sent => sent.1.payload.length + 11 := by
        funext i
        rw [hsends i, hcls]
        by_cases hi : i = p'.turn
        · subst hi
          rw [update_self, if_pos rfl, elim_some, hpayload]
        · rw [update_of_ne hi, if_neg fun hc => hi (shared_injective hc).symm]
          rfl
      rw [nextFrame_pace, hfirst, serve_pace, ← hcharged]
      exact hserve

/-! ## What a run shares -/

/-- No deficit of a reachable writer passes its level. -/
def Level (w : Writer) : Prop :=
  (∀ i, w.deficits i ≤ level i) ∧ w.fragmentBytes ≤ Freeway.fragmentBytes

theorem Passes.level {quantum : Nat} (h : Passes quantum w w') (hr : Rung w) (hl : Level w)
    (hquantum : quantum ≤ Freeway.fragmentBytes * 2) : Level w' := by
  have hbytes := (h.paced hr).fragmentBytes
  refine ⟨?_, hbytes ▸ hl.2⟩
  clear hbytes
  induction h with
  | refl => exact hl.1
  | @skip p p' hpasses hcost ih =>
    have hpriced := headCost_priced ((hpasses.paced hr).rung hr) (Class.shared p.turn)
    rw [hcost] at hpriced
    have hturned : Turned p p' := hpriced.turned
    intro i
    dsimp only
    rw [hturned.deficits]
    by_cases hi : i = p'.turn
    · subst hi
      rw [update_self]
      exact Nat.zero_le _
    · rw [update_of_ne hi]
      exact ih i
  | @pass p p' cost hpasses hcost hpoor ih =>
    have hpaced := hpasses.paced hr
    have hpriced := headCost_priced (hpaced.rung hr) (Class.shared p.turn)
    rw [hcost] at hpriced
    have hturned : Turned p p' := hpriced.turned
    obtain ⟨s, rest, state, head, behind, -, hprice⟩ := hpriced.faces
    intro i
    dsimp only
    by_cases hi : i = p'.turn
    · subst hi
      have hbound : cost ≤ Freeway.fragmentBytes + 11 := by
        rw [hprice, hpaced.fragmentBytes]
        exact Nat.add_le_add_right (Nat.le_trans (Nat.min_le_right _ _) hl.2) 11
      have hgain := Nat.mul_le_mul_left (weights p'.turn) hquantum
      rw [update_self, Writer.level]
      omega
    · rw [update_of_ne hi, hturned.deficits]
      exact ih i

theorem pick_level (h : Sound w) (hl : Level w) : Level w.pick.1 := by
  refine ⟨?_, (pick_left h.rung h.encodable).counts.fragmentBytes ▸ hl.2⟩
  have hpicked := pick_picked h.rung h.encodable
  generalize w.pick = r at hpicked ⊢
  cases hpicked with
  | link hlink => exact hl.1
  | capped _ hturned _ _ =>
    rw [hturned.deficits]
    exact hl.1
  | urgent _ hdrawn _ =>
    cases hdrawn with
    | nothing ht _ =>
      rw [ht.deficits]
      exact hl.1
    | @served p s rest state head behind bytes ht hf _ =>
      have hpopped : (p.setRing .urgent rest).deficits = p.deficits := rfl
      rw [serve_deficits, hpopped, ht.deficits]
      exact hl.1
  | @shared w' _ _ hturned _ _ hshared =>
    have hrung := h.rung.turned hturned
    have hencodable := hturned.encodable h.encodable
    have hl' : Level w' := ⟨hturned.deficits ▸ hl.1, hturned.fragmentBytes ▸ hl.2⟩
    have hquantum : w'.fragmentBytes * 2 ≤ Freeway.fragmentBytes * 2 :=
      Nat.mul_le_mul_right 2 hl'.2
    obtain ⟨p, hpasses, hexhausted | ⟨p', cost, hcost, hle, heq⟩⟩ :=
      nextSharedLoop_passes (w'.fragmentBytes * 2) 6 w'
    · rw [← hshared, nextShared, hexhausted]
      exact (hpasses.level hrung hl' hquantum).1
    · have hpaced := hpasses.paced hrung
      have hpriced := headCost_priced (hpaced.rung hrung) (Class.shared p.turn)
      rw [hcost] at hpriced
      have hturned' : Turned p p' := hpriced.turned
      obtain ⟨s, rest, state, head, behind, hfaces, -⟩ := hpriced.faces
      have hpay : Paced w' (p'.pay cost) := hturned'.paced hpaced _ _
      obtain ⟨bytes, -, hnext⟩ := nextFrom_front (hpay.encodable hencodable) (hfaces.pay cost)
      have hlevel := (hpasses.level hrung hl' hquantum).1
      rw [← hshared, nextShared, heq, hnext]
      have hpaid : ((p'.pay cost).setRing (Class.shared p.turn) rest).deficits =
          Function.update p.deficits p'.turn (p.deficits p'.turn - cost) := by
        rw [← hturned'.deficits]
        rfl
      intro i
      rw [serve_deficits, hpaid]
      by_cases heq' : i = p'.turn
      · subst heq'
        rw [update_self]
        exact Nat.le_trans (Nat.sub_le _ _) (hlevel _)
      · rw [update_of_ne heq']
        exact hlevel i

theorem Reachable.level (h : Reachable w) : Level w := by
  induction h with
  | new => exact ⟨fun i => Nat.zero_le _, Nat.le_refl _⟩
  | @step w op hreach hfits ih =>
    by_cases hop : op = .nextFrame
    · subst hop
      show Level w.nextFrame.1
      rw [nextFrame_eq]
      exact pick_level hreach.sound ih
    · have hdeficits := congrArg RoundRobin.State.deficits (op_pace w hop)
      refine ⟨fun i => Nat.le_trans (Nat.le_of_eq (congrFun hdeficits i)) (ih.1 i), ?_⟩
      cases op with
      | openStream s cls windowed => exact ih.2
      | queue s kind payload => exact (queue_counts w s kind payload).fragmentBytes ▸ ih.2
      | queueLink frame => exact ih.2
      | reclass s cls => exact (reclass_counts w s cls).fragmentBytes ▸ ih.2
      | grant s bytes => exact (grant_counts w s bytes).fragmentBytes ▸ ih.2
      | forget s => exact (forget_counts w s).fragmentBytes ▸ ih.2
      | setCap bytes => exact ih.2
      | setFragmentBytes bytes =>
        exact Nat.max_le.mpr ⟨by decide, Nat.min_le_right _ _⟩
      | acked delivered => exact ih.2
      | nextFrame => exact absurd rfl hop

theorem Busy.reachable (h : Busy fragment start t w) :
    Reachable w ∧ w.fragmentBytes = fragment := by
  induction h with
  | start hreach hfragment => exact ⟨hreach, hfragment⟩
  | op op _ _ hfits hfragment ih => exact ⟨ih.1.step op hfits, hfragment⟩
  | @next t w _ _ ih =>
    refine ⟨ih.1.step .nextFrame trivial, ?_⟩
    rw [nextFrame_eq]
    exact (pick_left ih.1.sound.rung ih.1.sound.encodable).counts.fragmentBytes.trans ih.2

theorem Busy.turns (h : Busy fragment start t w) :
    ∃ rounds, Turns fragment start.pace rounds t.charged w.pace := by
  induction h with
  | start _ _ => exact ⟨_, .refl⟩
  | op op _ hop _ _ ih =>
    rw [op_pace _ hop]
    exact ih
  | next hbusy hback ih =>
    obtain ⟨rounds, hturns⟩ := ih
    exact nextFrame_turns hbusy.reachable.1 hbusy.reachable.2 hback hturns

theorem sends_length {i : Fin 3} {sent : Frame × Bytes} (h : w.sends i = some sent) :
    sent.1.payload.length + 2 ≤ sent.2.length ∧ sent.2.length ≤ sent.1.payload.length + 11 := by
  rw [sends] at h
  split at h
  · split at h
    · next hdecode =>
      split at h
      · cases h
        exact decode_length hdecode
      · cases h
    · cases h
  · cases h

theorem Busy.bytes (h : Busy fragment start t w) (i : Fin 3) :
    t.bytes i ≤ t.charged i ∧ t.charged i ≤ t.bytes i + 9 * t.frames i ∧
      (t.frames i = 0 → t.charged i = 0) := by
  induction h with
  | start _ _ => exact ⟨Nat.le_refl _, Nat.le_refl _, fun _ => rfl⟩
  | op _ _ _ _ _ ih => exact ih
  | @next t w _ _ ih =>
    simp only [Tally.next]
    cases hsent : w.sends i with
    | none => simpa using ih
    | some sent =>
      have hlength := sends_length hsent
      simp only [elim_some]
      omega

theorem Busy.begun (h : Busy fragment start t w) : Reachable start := by
  induction h with
  | start hreach _ => exact hreach
  | op _ _ _ _ _ ih => exact ih
  | next _ _ ih => exact ih

theorem Busy.fair (h : Busy fragment start t w) (i j : Fin 3) :
    weights j * t.charged i ≤ weights i * t.charged j + slack i j := by
  obtain ⟨rounds, hturns⟩ := h.turns
  obtain ⟨-, hfragment⟩ := h.reachable
  have hmost : fragment ≤ Freeway.fragmentBytes := hfragment ▸ h.reachable.1.level.2
  have hlevel : ∀ i, fragment + 11 + weights i * (fragment * 2) ≤ level i := fun i =>
    Nat.add_le_add (Nat.add_le_add_right hmost 11)
      (Nat.mul_le_mul_left _ (Nat.mul_le_mul_right 2 hmost))
  exact Nat.le_trans (hturns.fair hlevel h.begun.level.1 i j)
    (Nat.add_le_add_left (Nat.add_le_add_left
      (Nat.mul_le_mul_left _ (Nat.mul_le_mul_right 2 hmost)) _) _)

/-! ## Headers shorter than their charge -/

def messageBytes : Fin 3 → Nat
  | 0 => 1
  | 1 => 1
  | 2 => minFragmentBytes

def message (i : Fin 3) : Queued :=
  { kind := .binary, payload := List.replicate (messageBytes i) 0, sent := 0 }

/-- A stream of each class, and only messages of its class's size on any. -/
structure Steady (w : Writer) : Prop where
  link : w.link = []
  each : ∀ s state, w.streams.lookup s = some state → s < 128 ∧ state.window = none ∧
    ∃ i, state.cls = Class.shared i ∧ ∀ q ∈ state.queue, q = message i
  there : ∀ i : Fin 3, ∃ state, w.streams.lookup (i.val + 1) = some state ∧
    state.cls = Class.shared i

/-- A run that has sent so many frames, each with a header of two bytes. -/
structure Even (t : Tally) (n : Nat) : Prop where
  charged : ∀ i, t.charged i = t.frames i * (messageBytes i + 11)
  bytes : ∀ i, t.bytes i = t.frames i * (messageBytes i + 2)
  frames : t.frames 0 + t.frames 1 + t.frames 2 = n

theorem messageBytes_le : ∀ i, messageBytes i ≤ minFragmentBytes := by decide

theorem lookup_queue (w : Writer) (s t : StreamId) (kind : FrameType) (payload : Bytes) :
    (w.queue s kind payload).streams.lookup t =
      if t = s then (w.streams.lookup s).map fun state => { state with
        queue := state.queue ++ [{ kind := kind, payload := payload, sent := 0 }] }
      else w.streams.lookup t := by
  unfold queue
  cases hs : w.streams.lookup s with
  | none =>
    dsimp only
    split
    · next heq =>
      rw [heq, hs]
      rfl
    · rfl
  | some state =>
    have hset := lookup_setStream w s t { state with
      queue := state.queue ++ [{ kind := kind, payload := payload, sent := 0 }] }
    dsimp only
    split
    · exact hset
    · exact hset

def refill (w : Writer) (i : Fin 3) : Writer := w.queue (i.val + 1) .binary (message i).payload

theorem Steady.refill (h : Steady w) (i : Fin 3) :
    Steady (w.refill i) ∧ Sendable (w.refill i) (Class.shared i) (i.val + 1) ∧
      ∀ cls s, Sendable w cls s → Sendable (w.refill i) cls s := by
  obtain ⟨state, hs, hcls⟩ := h.there i
  have hlook : ∀ t, (w.refill i).streams.lookup t = if t = i.val + 1 then
      some { state with queue := state.queue ++ [message i] } else w.streams.lookup t := by
    intro t
    rw [Writer.refill, lookup_queue, hs]
    rfl
  obtain ⟨hsmall, hwindow, j, hj, hmessages⟩ := h.each _ state hs
  obtain rfl := shared_injective (hj.symm.trans hcls)
  refine ⟨⟨?_, fun t state' ht => ?_, fun k => ?_⟩, ?_, fun cls t ht => ?_⟩
  · unfold Writer.refill queue
    rw [hs]
    dsimp only
    split <;> exact h.link
  · rw [hlook] at ht
    split at ht
    · next heq =>
      cases ht
      refine ⟨heq ▸ hsmall, hwindow, j, hcls, fun q hq => ?_⟩
      rcases mem_append.mp hq with hq | hq
      · exact hmessages q hq
      · exact mem_singleton.mp hq
    · exact h.each t state' ht
  · rw [hlook]
    split
    · next heq =>
      obtain rfl : k = j := Fin.ext (Nat.succ_injective heq)
      exact ⟨_, rfl, hcls⟩
    · exact h.there k
  · refine ⟨_, (hlook _).trans (if_pos rfl), hcls, ?_, ?_⟩
    · exact append_ne_nil_of_right_ne_nil _ (cons_ne_nil _ _)
    · show (state.window.all _) = true
      rw [hwindow]
      rfl
  · obtain ⟨state', hs', hc, hq, hmay⟩ := ht
    rw [Sendable, hlook]
    split
    · next heq =>
      rw [heq, hs] at hs'
      cases hs'
      exact ⟨_, rfl, hc, append_ne_nil_of_left_ne_nil hq _, hmay⟩
    · exact ⟨state', hs', hc, hq, hmay⟩

theorem cut_message (hfragment : w.fragmentBytes = minFragmentBytes) (s : StreamId) (i : Fin 3) :
    w.cut s (message i) =
      (⟨.binary, false, s, (message i).payload⟩, ⟨.binary, (message i).payload, messageBytes i⟩,
        messageBytes i) := by
  have hle := messageBytes_le i
  have hlength : (message i).payload.length = messageBytes i := length_replicate
  have hstop : min ((message i).sent + w.fragmentBytes) (message i).payload.length =
      messageBytes i := by
    rw [hlength, hfragment]
    exact Nat.min_eq_right (Nat.le_trans hle (Nat.le_add_left _ _))
  have hkind : (message i).kind = .text ∨ (message i).kind = .binary := .inr rfl
  have hchunk : ((message i).payload.take (messageBytes i)).drop (message i).sent =
      (message i).payload := by
    rw [← hlength, take_length]
    rfl
  rw [cut, if_pos hkind]
  dsimp only
  rw [hstop, hchunk, hlength]
  simp only [Nat.lt_irrefl, decide_false]
  rfl

theorem write_short (h : n < 128) : Leb128.write n = [UInt8.ofNat n] := by
  rw [Leb128.write, Leb128.writeBytes, if_pos (Nat.div_eq_of_lt h), Nat.mod_eq_of_lt h]

theorem encode_length {bytes : Bytes} (hstream : frame.stream < 128)
    (h : encode frame = .ok bytes) : bytes.length = frame.payload.length + 2 := by
  rw [encode_eq (encode_ok_iff.mp ⟨bytes, h⟩), write_short hstream] at h
  cases h
  rfl

/-- Such a run sends a frame of one of the classes, and stays steady. -/
theorem Steady.next (hs : Steady w) (h : Reachable w)
    (hfragment : w.fragmentBytes = minFragmentBytes)
    (hbusy : ∀ i, ∃ s, Sendable w (Class.shared i) s) (hroom : w.inFlight < w.cap) :
    Steady w.nextFrame.1 ∧ ∃ c frame bytes,
      (∀ i, w.sends i = if i = c then some (frame, bytes) else none) ∧
      frame.payload.length = messageBytes c ∧ bytes.length = messageBytes c + 2 := by
  have hsound := h.sound
  have hsome : w.pick.2.isSome = true :=
    (pick_isSome hsound).mpr (.inr (.inr ⟨hroom, _, shared_ne 0, hbusy 0⟩))
  have hurgent : ∀ s, ¬Sendable w .urgent s := by
    intro s hs'
    obtain ⟨state, hlook, hcls, -⟩ := hs'
    obtain ⟨-, -, i, hi, -⟩ := hs.each s state hlook
    exact shared_ne i (hi.symm.trans hcls)
  have hpicked := pick_picked hsound.rung hsound.encodable
  cases hr : w.pick with
  | mk v found =>
  rw [hr] at hpicked hsome
  have hfirst : w.pick.1 = v := congrArg Prod.fst hr
  have hsecond : w.pick.2 = found := congrArg Prod.snd hr
  cases hpicked with
  | link hlink =>
    rw [hs.link] at hlink
    cases hlink
  | capped => cases hsome
  | urgent _ hdrawn _ =>
    cases hdrawn with
    | nothing => cases hsome
    | served hturned hfaces _ =>
      exact absurd (hturned.sendable.mp (hfaces.sendable (hsound.rung.turned hturned))) (hurgent _)
  | @shared w' _ hlink hturned _ _ hshared =>
    have hrung := hsound.rung.turned hturned
    have hencodable := hturned.encodable hsound.encodable
    have hdrawn := nextSharedLoop_drawn hrung hencodable (w'.fragmentBytes * 2) 6
    rw [nextShared] at hshared
    rw [hshared] at hdrawn
    cases hdrawn with
    | nothing => cases hsome
    | @served p s rest state head behind bytes hpaced hfaces hbytes =>
      have hlook := hfaces.lookup
      rw [hpaced.streams, hturned.streams] at hlook
      have hsize : (p.setRing (Class.shared p.turn) rest).fragmentBytes = minFragmentBytes :=
        hpaced.fragmentBytes.trans (hturned.fragmentBytes.trans hfragment)
      obtain ⟨hsmall, hwindow, c, hcls, hmessages⟩ := hs.each s state hlook
      obtain rfl : head = message c := hmessages head (hfaces.queue ▸ mem_cons_self)
      have hcut := cut_message hsize s c
      have hleft : (p.setRing (Class.shared p.turn) rest).leftover s (message c) behind =
          behind := by
        rw [leftover, hcut]
        exact if_pos (Nat.le_of_eq length_replicate)
      have hsends := sends_of_frame hlink hsecond hbytes (by
        rw [cut_stream]
        exact (hsound.encodable s state hlook).1.2) (by rwa [cut_stream])
      have hserved : ∀ t, w.nextFrame.1.streams.lookup t = if t = s then
          some { state with window := none, queue := behind } else w.streams.lookup t := by
        intro t
        rw [nextFrame_eq, hr]
        dsimp only
        rw [lookup_serve, streams_setRing, hpaced.streams, hturned.streams, hleft, hwindow]
        rfl
      have hbehind : ∀ q ∈ behind, q = message c := fun q hq =>
        hmessages q (hfaces.queue ▸ mem_cons_of_mem _ hq)
      have hlength := encode_length hsmall (hcut ▸ hbytes)
      rw [hcut] at hsends
      refine ⟨⟨?_, fun t state' ht => ?_, fun i => ?_⟩, c,
        ⟨.binary, false, s, (message c).payload⟩, bytes, fun i => ?_, length_replicate, ?_⟩
      · rw [nextFrame_eq, hr]
        show ((p.setRing _ rest).serve _ s state _ behind).link = []
        rw [link_serve, link_setRing, hpaced.same, hturned.same]
        exact hlink
      · rw [hserved] at ht
        split at ht
        · next heq =>
          cases ht
          exact ⟨heq ▸ hsmall, rfl, c, hcls, hbehind⟩
        · exact hs.each t state' ht
      · obtain ⟨state', hlook', hi⟩ := hs.there i
        rw [hserved]
        split
        · next heq =>
          rw [heq, hlook] at hlook'
          cases hlook'
          exact ⟨_, rfl, hi⟩
        · exact ⟨state', hlook', hi⟩
      · rw [hsends i, hcls]
        exact if_congr ⟨fun heq => (shared_injective heq).symm, fun heq => heq ▸ rfl⟩ rfl rfl
      · rw [hlength]
        exact congrArg (fun n => n + 2) length_replicate

theorem one_of_three : ∀ c : Fin 3,
    ((if 0 = c then 1 else 0) + if 1 = c then 1 else 0) + (if 2 = c then 1 else 0) = 1 := by
  decide

theorem Even.next (h : Even t n) {c : Fin 3} {bytes : Bytes}
    (hsends : ∀ i, w.sends i = if i = c then some (frame, bytes) else none)
    (hpayload : frame.payload.length = messageBytes c)
    (hbytes : bytes.length = messageBytes c + 2) : Even (t.next w) (n + 1) := by
  have hone : ∀ i, (w.sends i).elim 0 (fun _ => 1) = if i = c then 1 else 0 := fun i => by
    rw [hsends]
    split <;> rfl
  have hcount : ∀ i, (t.next w).frames i = t.frames i + if i = c then 1 else 0 := fun i =>
    congrArg (t.frames i + ·) (hone i)
  refine ⟨fun i => ?_, fun i => ?_, ?_⟩
  · rw [hcount, Tally.next]
    dsimp only
    rw [h.charged, hsends]
    split
    · next heq =>
      rw [heq, elim_some, hpayload, Nat.add_mul, Nat.one_mul]
    · rfl
  · rw [hcount, Tally.next]
    dsimp only
    rw [h.bytes, hsends]
    split
    · next heq =>
      rw [heq, elim_some, hbytes, Nat.add_mul, Nat.one_mul]
    · rfl
  · have hframes := h.frames
    have hone := one_of_three c
    rw [hcount, hcount, hcount]
    omega

theorem Steady.round (hs : Steady w) (h : Busy minFragmentBytes start t w) (he : Even t n) :
    ∃ t' w', Busy minFragmentBytes start t' w' ∧ Steady w' ∧ Even t' (n + 1) := by
  have hfill : ∀ {w : Writer} (i : Fin 3), Busy minFragmentBytes start t w →
      Busy minFragmentBytes start t (w.refill i) := fun {w} i h =>
    h.op (.queue (i.val + 1) .binary (message i).payload) (fun hop => by cases hop)
      ⟨fun hk => (by cases hk), fun hk => (by cases hk)⟩
      ((queue_counts w _ _ _).fragmentBytes.trans h.reachable.2)
  obtain ⟨hs₀, hsend₀, -⟩ := hs.refill 0
  obtain ⟨hs₁, hsend₁, hkept₁⟩ := hs₀.refill 1
  obtain ⟨hs₂, hsend₂, hkept₂⟩ := hs₁.refill 2
  have hfilled := hfill 2 (hfill 1 (hfill 0 h))
  generalize ((w.refill 0).refill 1).refill 2 = v at hs₂ hsend₂ hkept₂ hfilled
  have hbusy : ∀ i, ∃ s, Sendable v (Class.shared i) s
    | 0 => ⟨_, hkept₂ _ _ (hkept₁ _ _ hsend₀)⟩
    | 1 => ⟨_, hkept₂ _ _ hsend₁⟩
    | 2 => ⟨_, hsend₂⟩
  have hacked := hfilled.op (.acked v.written) (fun hop => by cases hop) trivial hfilled.reachable.2
  have hcapped := hacked.op (.setCap 0) (fun hop => by cases hop) trivial hacked.reachable.2
  have hroom : ((v.acked v.written).setCap 0).inFlight < ((v.acked v.written).setCap 0).cap := by
    show v.written - max v.acknowledged (min v.written v.written) < max 0 watermarkBytes
    rw [Nat.min_self, Nat.sub_eq_zero_of_le (Nat.le_max_right _ _)]
    decide
  have hsteady : Steady ((v.acked v.written).setCap 0) := ⟨hs₂.link, hs₂.each, hs₂.there⟩
  obtain ⟨hreach, hfragment⟩ := hcapped.reachable
  obtain ⟨hnext, c, frame, bytes, hsends, hpayload, hbytes⟩ :=
    hsteady.next hreach hfragment hbusy hroom
  refine ⟨_, _, hcapped.next ⟨hbusy, fun s state hlook _ q hq hkind => ?_⟩, hnext,
    he.next hsends hpayload hbytes⟩
  obtain ⟨-, -, i, -, hmessages⟩ := hsteady.each s state hlook
  rw [hmessages q hq] at hkind
  cases hkind

def three : Writer :=
  (((Writer.new.openStream 1 .live false).openStream 2 .sync false).openStream 3 .bulk
    false).setFragmentBytes 0

theorem reachable_three : Reachable three :=
  (((Reachable.new.step (.openStream 1 .live false) ⟨by decide, rfl⟩).step
    (.openStream 2 .sync false) ⟨by decide, rfl⟩).step (.openStream 3 .bulk false)
      ⟨by decide, rfl⟩).step (.setFragmentBytes 0) trivial

theorem lookup_three (s : StreamId) : three.streams.lookup s =
    if s = 3 then some ⟨.bulk, none, []⟩ else if s = 2 then some ⟨.sync, none, []⟩ else
      if s = 1 then some ⟨.live, none, []⟩ else none := by
  show (Writer.setStream _ 3 _).streams.lookup s = _
  rw [lookup_setStream]
  congr 1
  show (Writer.setStream _ 2 _).streams.lookup s = _
  rw [lookup_setStream]
  congr 1
  show (Writer.setStream _ 1 _).streams.lookup s = _
  rw [lookup_setStream]
  rfl

theorem steady_three : Steady three where
  link := rfl
  each s state h := by
    rw [lookup_three] at h
    have hnone : ∀ i, ∀ q ∈ ([] : List Queued), q = message i := fun i q hq => by cases hq
    split at h
    · next heq =>
      cases h
      exact ⟨heq ▸ by decide, rfl, 2, rfl, hnone 2⟩
    · split at h
      · next heq =>
        cases h
        exact ⟨heq ▸ by decide, rfl, 1, rfl, hnone 1⟩
      · split at h
        · next heq =>
          cases h
          exact ⟨heq ▸ by decide, rfl, 0, rfl, hnone 0⟩
        · cases h
  there
    | 0 => ⟨_, lookup_three 1, rfl⟩
    | 1 => ⟨_, lookup_three 2, rfl⟩
    | 2 => ⟨_, lookup_three 3, rfl⟩

theorem run_even (n : Nat) :
    ∃ t w, Busy minFragmentBytes three t w ∧ Steady w ∧ Even t n := by
  induction n with
  | zero =>
    refine ⟨.zero, three, .start reachable_three rfl, steady_three, fun i => ?_, fun i => ?_, rfl⟩
    · exact (Nat.zero_mul _).symm
    · exact (Nat.zero_mul _).symm
  | succ n ih =>
    obtain ⟨t, w, hbusy, hsteady, heven⟩ := ih
    exact hsteady.round hbusy heven


/-! ## The proportions -/

theorem weights_pos : ∀ i, 1 ≤ weights i := by decide

/-- While the classes that share stay backlogged, what they are charged is in the proportion of
their weights. -/
theorem shares {fragment : Nat} {start : Writer} {t : Tally} (h : Busy fragment start t w) :
    Shares t := by
  refine ⟨h.fair, fun i => ⟨(h.bytes i).1, (h.bytes i).2.1⟩, fun i j hnone => ?_⟩
  have hpassed := h.fair j i
  rw [(h.bytes i).2.2 hnone, Nat.mul_zero, Nat.zero_add] at hpassed
  calc t.bytes j ≤ t.charged j := (h.bytes j).1
    _ ≤ weights i * t.charged j := Nat.le_mul_of_pos_left _ (weights_pos i)
    _ ≤ slack j i := hpassed

/-- A thousand frames of three streams. -/
theorem shares_thousand :
    ∃ t w, Busy minFragmentBytes three t w ∧ Even t 1000 ∧ Shares t := by
  obtain ⟨t, w, hbusy, -, heven⟩ := run_even 1000
  exact ⟨t, w, hbusy, heven, shares hbusy⟩

/-- What the classes send is not in that proportion: a short frame is charged for a header it does
not have. -/
theorem not_shares_bytes : ¬∃ bound : Nat → Nat → Nat, ∀ fragment start t w,
    Busy fragment start t w → ∀ i j,
      weights j * t.bytes i ≤ weights i * t.bytes j + bound (fragment * 2) fragment := by
  rintro ⟨bound, hbound⟩
  obtain ⟨t, w, hbusy, -, heven⟩ :=
    run_even (50000 * (bound (4096 * 2) 4096 + slack 0 2 + slack 1 2 + 1))
  have hbytes := hbound _ _ _ _ hbusy 2 0
  have hlive := hbusy.fair 0 2
  have hsync := hbusy.fair 1 2
  have hframes := heven.frames
  rw [heven.bytes, heven.bytes] at hbytes
  rw [heven.charged, heven.charged] at hlive hsync
  simp only [weights, messageBytes, minFragmentBytes] at hbytes hlive hsync
  omega

end VibeField.Freeway.Writer
