import VibeField.Freeway.Writer

/-!
# The rings of a writer

A stream with something queued stands in the ring of its class, once, and in no other.  A call for
a frame turns a ring past the streams that may not write and serves the first that may.
-/

namespace VibeField.Freeway.Writer

open List

@[simp]
theorem lookup_setStream (w : Writer) (s s' : StreamId) (state : Stream) :
    (w.setStream s state).streams.lookup s' = if s' = s then some state else w.streams.lookup s' :=
  Dict.lookup_insert _ _ _ _

@[simp]
theorem rings_setStream (w : Writer) (s : StreamId) (state : Stream) :
    (w.setStream s state).rings = w.rings := rfl

@[simp]
theorem rings_setRing (w : Writer) (cls cls' : Class) (ring : List StreamId) :
    (w.setRing cls ring).rings cls' = if cls' = cls then ring else w.rings cls' :=
  Function.update_apply _ _ _ _

@[simp]
theorem streams_setRing (w : Writer) (cls : Class) (ring : List StreamId) :
    (w.setRing cls ring).streams = w.streams := rfl

@[simp]
theorem link_setRing (w : Writer) (cls : Class) (ring : List StreamId) :
    (w.setRing cls ring).link = w.link := rfl

/-! ## Serving the front of a ring -/

@[simp]
theorem cut_stream (w : Writer) (s : StreamId) (head : Queued) : (w.cut s head).1.stream = s := by
  unfold cut
  split <;> rfl

@[simp]
theorem cut_kind (w : Writer) (s : StreamId) (head : Queued) :
    (w.cut s head).1.kind = head.kind := by
  unfold cut
  split <;> rfl

@[simp]
theorem cut_rest_kind (w : Writer) (s : StreamId) (head : Queued) :
    (w.cut s head).2.1.kind = head.kind := by
  unfold cut
  split <;> rfl

theorem cut_rest_sent {w : Writer} {s : StreamId} {head : Queued}
    (h : head.kind.fragments = false) :
    (w.cut s head).2.1.sent ≥ (w.cut s head).2.1.payload.length := by
  unfold cut
  split
  · next hm => rcases hm with hm | hm <;> simp [hm, FrameType.fragments] at h
  · exact Nat.le_refl _

theorem leftover_cases (w : Writer) (s : StreamId) (head : Queued) (behind : List Queued) :
    w.leftover s head behind = behind ∨
      head.kind.fragments = true ∧
        ∃ head', head'.kind = head.kind ∧ w.leftover s head behind = head' :: behind := by
  unfold leftover
  dsimp only
  split
  · exact .inl rfl
  · next hmore =>
    right
    refine ⟨?_, _, cut_rest_kind w s head, rfl⟩
    by_contra hf
    exact hmore (cut_rest_sent (Bool.eq_false_iff.mpr hf))

theorem lookup_serve (w : Writer) (cls : Class) (s s' : StreamId) (state : Stream)
    (head : Queued) (behind : List Queued) :
    (w.serve cls s state head behind).streams.lookup s' =
      if s' = s then
        if head.last then none
        else
          some
            { state with
              window := state.window.map fun window => window - (w.cut s head).2.2
              queue := w.leftover s head behind }
      else w.streams.lookup s' := by
  unfold serve
  dsimp only
  split
  · exact Dict.lookup_erase _ _ _
  · split <;> exact Dict.lookup_insert _ _ _ _

theorem rings_serve (w : Writer) (cls cls' : Class) (s : StreamId) (state : Stream)
    (head : Queued) (behind : List Queued) :
    (w.serve cls s state head behind).rings cls' =
      if cls' = cls ∧ head.last = false ∧ w.leftover s head behind ≠ [] then
        w.rings cls ++ [s]
      else w.rings cls' := by
  unfold serve
  dsimp only
  by_cases hl : head.last = true
  · simp [hl]
  · by_cases hq : w.leftover s head behind = []
    · simp [hl, hq, setStream]
    · by_cases hc : cls' = cls
      · simp [hl, hq, hc]
      · simp [hl, hq, hc, setStream]

@[simp]
theorem link_serve (w : Writer) (cls : Class) (s : StreamId) (state : Stream) (head : Queued)
    (behind : List Queued) : (w.serve cls s state head behind).link = w.link := by
  unfold serve
  dsimp only
  split
  · rfl
  · split <;> rfl

/-- The rings hold the streams with something queued, each once, in its class. -/
structure Rung (w : Writer) : Prop where
  nodup : ∀ cls, (w.rings cls).Nodup
  mem : ∀ cls s, s ∈ w.rings cls ↔
    ∃ state, w.streams.lookup s = some state ∧ state.cls = cls ∧ state.queue ≠ []

/-! ## The front of a ring -/

section Front

variable {w : Writer} {cls : Class} {s : StreamId} {rest : List StreamId} {state : Stream}

theorem Rung.cls_of_front (h : Rung w) (hring : w.rings cls = s :: rest)
    (hs : w.streams.lookup s = some state) : state.cls = cls := by
  obtain ⟨state', hs', hc, -⟩ := (h.mem cls s).mp (hring ▸ mem_cons_self)
  obtain rfl := Option.some.inj (hs.symm.trans hs')
  exact hc

theorem Rung.nodup_front (h : Rung w) (hring : w.rings cls = s :: rest) : (s :: rest).Nodup :=
  hring ▸ h.nodup cls

theorem Rung.mem_popped (h : Rung w) (hring : w.rings cls = s :: rest) (cls' : Class)
    (s' : StreamId) (hne : s' ≠ s) : s' ∈ (w.setRing cls rest).rings cls' ↔
      ∃ st, w.streams.lookup s' = some st ∧ st.cls = cls' ∧ st.queue ≠ [] := by
  rw [rings_setRing, ← h.mem cls' s']
  split
  · next hc => rw [hc, hring, mem_cons, or_iff_right hne]
  · exact Iff.rfl

theorem Rung.not_mem_popped (h : Rung w) (hring : w.rings cls = s :: rest)
    (hs : w.streams.lookup s = some state) (cls' : Class) :
    s ∉ (w.setRing cls rest).rings cls' := by
  intro hmem
  rw [rings_setRing] at hmem
  split at hmem
  · exact (nodup_cons.mp (h.nodup_front hring)).1 hmem
  · next hc =>
    obtain ⟨st, hst, hstc, -⟩ := (h.mem cls' s).mp hmem
    obtain rfl := Option.some.inj (hs.symm.trans hst)
    exact hc (hstc.symm.trans (h.cls_of_front hring hs))

theorem Rung.nodup_popped (h : Rung w) (hring : w.rings cls = s :: rest) (cls' : Class) :
    ((w.setRing cls rest).rings cls').Nodup := by
  rw [rings_setRing]
  split
  · exact (nodup_cons.mp (h.nodup_front hring)).2
  · exact h.nodup cls'

end Front

theorem Rung.serve {w : Writer} (h : Rung w) {cls : Class} {s : StreamId} {rest : List StreamId}
    {state : Stream} (hring : w.rings cls = s :: rest) (hs : w.streams.lookup s = some state)
    (head : Queued) (behind : List Queued) :
    Rung ((w.setRing cls rest).serve cls s state head behind) := by
  have hcls := h.cls_of_front hring hs
  have hothers := h.mem_popped hring
  have hgone := h.not_mem_popped hring hs
  have hnodups := h.nodup_popped hring
  have hring' : (w.setRing cls rest).rings cls = rest := by rw [rings_setRing, if_pos rfl]
  have hstreams : (w.setRing cls rest).streams = w.streams := rfl
  generalize w.setRing cls rest = p at *
  constructor
  · intro cls'
    rw [rings_serve]
    split
    · rw [hring']
      exact perm_append_comm.nodup_iff.mpr (h.nodup_front hring)
    · exact hnodups cls'
  · intro cls' s'
    rw [rings_serve, lookup_serve, hstreams]
    by_cases hne : s' = s
    · subst hne
      rw [if_pos rfl]
      by_cases hl : head.last = true
      · have hnot := hgone cls'
        simp [hl, hnot]
      · by_cases hlo : p.leftover s' head behind = []
        · have hnot := hgone cls'
          simp only [hlo, ne_eq, not_true, and_false, if_false, hnot, false_iff]
          rintro ⟨st, hst, -, hne⟩
          rw [if_neg hl] at hst
          obtain rfl := Option.some.inj hst
          exact hne rfl
        · rw [Bool.not_eq_true] at hl
          by_cases hc : cls' = cls
          · simp [hl, hlo, hc, hcls]
          · have hnot := hgone cls'
            have hc' : ¬ cls = cls' := fun he => hc he.symm
            simp [hc, hl, hcls, hc', hnot]
    · rw [if_neg hne, ← hothers cls' s' hne]
      split
      · next hc =>
        rw [hc.1, mem_append, mem_singleton, or_iff_left hne]
      · exact Iff.rfl

/-! ## Searching a ring -/

/-- The stream has something queued that it may send. -/
def Sendable (w : Writer) (cls : Class) (s : StreamId) : Prop :=
  ∃ state, w.streams.lookup s = some state ∧ state.cls = cls ∧ state.queue ≠ [] ∧
    state.mayWrite = true

structure Turned (w w' : Writer) : Prop where
  same : w' = { w with rings := w'.rings }
  perm : ∀ cls, (w'.rings cls).Perm (w.rings cls)

/-- The front of the ring may write. -/
structure Faces (w : Writer) (cls : Class) (s : StreamId) (rest : List StreamId) (state : Stream)
    (head : Queued) (behind : List Queued) : Prop where
  ring : w.rings cls = s :: rest
  lookup : w.streams.lookup s = some state
  may : state.mayWrite = true
  queue : state.queue = head :: behind

/-- Every queued frame is one the codec writes. -/
def Encodable (w : Writer) : Prop :=
  ∀ s state, w.streams.lookup s = some state →
    (s ≠ 0 ∧ s < 2 ^ 64) ∧ ∀ q ∈ state.queue, q.kind ≠ .link ∧ q.kind ≠ .window

section Search

variable {w w' w'' : Writer} {cls : Class} {s : StreamId} {rest : List StreamId} {state : Stream}
  {head : Queued} {behind : List Queued}

theorem Turned.refl (w : Writer) : Turned w w := ⟨rfl, fun _ => List.Perm.refl _⟩

theorem Turned.trans (h : Turned w w') (h' : Turned w' w'') : Turned w w'' where
  same := by rw [h'.same, h.same]
  perm cls := (h'.perm cls).trans (h.perm cls)

theorem Turned.streams (h : Turned w w') : w'.streams = w.streams := by rw [h.same]

theorem Turned.fragmentBytes (h : Turned w w') : w'.fragmentBytes = w.fragmentBytes := by
  rw [h.same]

theorem Turned.deficits (h : Turned w w') : w'.deficits = w.deficits := by rw [h.same]

theorem Turned.turn (h : Turned w w') : w'.turn = w.turn := by rw [h.same]

theorem Turned.sendable (h : Turned w w') : Sendable w' cls s ↔ Sendable w cls s := by
  rw [Sendable, Sendable, h.streams]

theorem Turned.encodable (h : Turned w w') (he : Encodable w) : Encodable w' := by
  rw [Encodable, h.streams]
  exact he

theorem Rung.turned (h : Rung w) (ht : Turned w w') : Rung w' where
  nodup cls := (ht.perm cls).nodup_iff.mpr (h.nodup cls)
  mem cls s := by rw [(ht.perm cls).mem_iff, h.mem, ht.streams]

theorem Rung.mem_of_sendable (h : Rung w) (hs : Sendable w cls s) : s ∈ w.rings cls := by
  obtain ⟨state, hlook, hcls, hq, -⟩ := hs
  exact (h.mem cls s).mpr ⟨state, hlook, hcls, hq⟩

theorem turned_rotate (hring : w.rings cls = s :: rest) :
    Turned w (w.setRing cls (rest ++ [s])) where
  same := rfl
  perm cls' := by
    rw [rings_setRing]
    split
    · next hc =>
      rw [hc, hring]
      exact perm_append_comm
    · exact List.Perm.refl _

theorem Faces.sendable (h : Faces w cls s rest state head behind) (hr : Rung w) :
    Sendable w cls s :=
  ⟨state, h.lookup, hr.cls_of_front h.ring h.lookup, by rw [h.queue]; exact cons_ne_nil _ _,
    h.may⟩

theorem Encodable.cut (h : Encodable w) (hf : Faces w cls s rest state head behind) (v : Writer) :
    ∃ bytes, encode (v.cut s head).1 = .ok bytes := by
  obtain ⟨⟨hzero, -⟩, hkinds⟩ := h s state hf.lookup
  obtain ⟨hlink, hwindow⟩ := hkinds head (by rw [hf.queue]; exact mem_cons_self)
  refine encode_ok (check_ok (by rwa [cut_stream]) (by rwa [cut_kind]) (by rwa [cut_kind]) ?_)
  rw [cut_kind]
  unfold Writer.cut
  split
  · next hm => exact fun _ => FrameType.fragments_iff.mpr hm
  · intro hfrag
    cases hfrag

/-- What pricing a class's next frame did. -/
inductive Priced (cls : Class) (w : Writer) : Writer × Option Nat → Prop
  | nothing {w' : Writer} : Turned w w' → (∀ s, ¬Sendable w cls s) → Priced cls w (w', none)
  | front {w' : Writer} {s : StreamId} {rest : List StreamId} {state : Stream} {head : Queued}
      {behind : List Queued} : Turned w w' → Faces w' cls s rest state head behind →
      Priced cls w (w', some (min (head.payload.length - head.sent) w.fragmentBytes + 11))

/-- What a search of a class's ring did. -/
inductive Drawn (cls : Class) (w : Writer) : Writer × Option Bytes → Prop
  | nothing {w' : Writer} : Turned w w' → (∀ s, ¬Sendable w cls s) → Drawn cls w (w', none)
  | served {p : Writer} {s : StreamId} {rest : List StreamId} {state : Stream} {head : Queued}
      {behind : List Queued} {bytes : Bytes} : Turned w p → Faces p cls s rest state head behind →
      encode ((p.setRing cls rest).cut s head).1 = .ok bytes →
      Drawn cls w ((p.setRing cls rest).serve cls s state head behind, some bytes)

theorem Priced.turned {r : Writer × Option Nat} (h : Priced cls w r) : Turned w r.1 := by
  cases h with
  | nothing ht _ => exact ht
  | front ht _ => exact ht

theorem Priced.faces {cost : Nat} (h : Priced cls w (w', some cost)) :
    ∃ s rest state head behind, Faces w' cls s rest state head behind ∧
      cost = min (head.payload.length - head.sent) w.fragmentBytes + 11 := by
  cases h with
  | front _ hf => exact ⟨_, _, _, _, _, hf, rfl⟩

theorem Priced.none (h : Priced cls w (w', .none)) : ∀ s, ¬Sendable w cls s := by
  cases h with
  | nothing _ hnone => exact hnone

theorem Priced.after {r : Writer × Option Nat} (h : Priced cls w' r) (ht : Turned w w') :
    Priced cls w r := by
  cases h with
  | nothing ht' hnone => exact .nothing (ht.trans ht') fun s hs => hnone s (ht.sendable.mpr hs)
  | front ht' hf =>
    rw [ht.fragmentBytes]
    exact .front (ht.trans ht') hf

theorem Drawn.after {r : Writer × Option Bytes} (h : Drawn cls w' r) (ht : Turned w w') :
    Drawn cls w r := by
  cases h with
  | nothing ht' hnone => exact .nothing (ht.trans ht') fun s hs => hnone s (ht.sendable.mpr hs)
  | served ht' hf he => exact .served (ht.trans ht') hf he

theorem not_sendable_passed {passed : List StreamId} (hs : w.streams.lookup s = some state)
    (hmay : state.mayWrite = false) (hpassed : ∀ t ∈ passed, ¬Sendable w cls t) {t : StreamId}
    (ht : t ∈ passed ++ [s]) : ¬Sendable w cls t := by
  intro hsend
  rcases mem_append.mp ht with ht | ht
  · exact hpassed t ht hsend
  · obtain ⟨state', hs', -, -, hmay'⟩ := hsend
    rw [mem_singleton.mp ht, hs] at hs'
    cases hs'
    rw [hmay] at hmay'
    cases hmay'

theorem headCostLoop_priced {ahead passed : List StreamId} (h : Rung w)
    (hring : w.rings cls = ahead ++ passed) (hpassed : ∀ s ∈ passed, ¬Sendable w cls s) :
    Priced cls w (headCostLoop cls ahead.length w) := by
  induction ahead generalizing w passed with
  | nil =>
    refine .nothing (.refl w) fun s hs => ?_
    have hmem := h.mem_of_sendable hs
    rw [hring, nil_append] at hmem
    exact hpassed s hmem hs
  | cons s ahead ih =>
    rw [cons_append] at hring
    obtain ⟨state, hs, hcls, hne⟩ := (h.mem cls s).mp (hring ▸ mem_cons_self)
    rw [length_cons, headCostLoop, hring]
    simp only [hs]
    cases hmay : state.mayWrite with
    | true =>
      cases hq : state.queue with
      | nil => exact absurd hq hne
      | cons head behind => exact .front (.refl w) ⟨hring, hs, hmay, hq⟩
    | false =>
      have hturned := turned_rotate hring
      have hring' : (w.setRing cls (ahead ++ passed ++ [s])).rings cls =
          ahead ++ (passed ++ [s]) := by
        rw [rings_setRing, if_pos rfl, append_assoc]
      exact (ih (h.turned hturned) hring' fun t ht hsend =>
        not_sendable_passed hs hmay hpassed ht (hturned.sendable.mp hsend)).after hturned

theorem headCost_priced (h : Rung w) (cls : Class) : Priced cls w (w.headCost cls) :=
  headCostLoop_priced h (append_nil _).symm fun s hs => by cases hs

theorem nextFromLoop_drawn {ahead passed : List StreamId} (h : Rung w) (he : Encodable w)
    (hring : w.rings cls = ahead ++ passed) (hpassed : ∀ s ∈ passed, ¬Sendable w cls s) :
    Drawn cls w (nextFromLoop cls ahead.length w) := by
  induction ahead generalizing w passed with
  | nil =>
    refine .nothing (.refl w) fun s hs => ?_
    have hmem := h.mem_of_sendable hs
    rw [hring, nil_append] at hmem
    exact hpassed s hmem hs
  | cons s ahead ih =>
    rw [cons_append] at hring
    obtain ⟨state, hs, hcls, hne⟩ := (h.mem cls s).mp (hring ▸ mem_cons_self)
    rw [length_cons, nextFromLoop, hring]
    simp only [hs]
    cases hmay : state.mayWrite with
    | true =>
      cases hq : state.queue with
      | nil => exact absurd hq hne
      | cons head behind =>
        have hfaces : Faces w cls s (ahead ++ passed) state head behind := ⟨hring, hs, hmay, hq⟩
        obtain ⟨bytes, hbytes⟩ := he.cut hfaces (w.setRing cls (ahead ++ passed))
        simp only [Bool.not_true, Bool.false_eq_true, if_false, hbytes]
        exact .served (.refl w) hfaces hbytes
    | false =>
      have hturned := turned_rotate hring
      have hring' : (w.setRing cls (ahead ++ passed ++ [s])).rings cls =
          ahead ++ (passed ++ [s]) := by
        rw [rings_setRing, if_pos rfl, append_assoc]
      exact (ih (h.turned hturned) (hturned.encodable he) hring' fun t ht hsend =>
        not_sendable_passed hs hmay hpassed ht (hturned.sendable.mp hsend)).after hturned

theorem nextFrom_drawn (h : Rung w) (he : Encodable w) (cls : Class) :
    Drawn cls w (w.nextFrom cls) :=
  nextFromLoop_drawn h he (append_nil _).symm fun s hs => by cases hs

theorem nextFrom_front (he : Encodable w) (hf : Faces w cls s rest state head behind) :
    ∃ bytes, encode ((w.setRing cls rest).cut s head).1 = .ok bytes ∧
      w.nextFrom cls = ((w.setRing cls rest).serve cls s state head behind, some bytes) := by
  obtain ⟨bytes, hbytes⟩ := he.cut hf (w.setRing cls rest)
  refine ⟨bytes, hbytes, ?_⟩
  rw [nextFrom, hf.ring, length_cons, nextFromLoop, hf.ring]
  simp only [hf.lookup, hf.may, hf.queue, hbytes, Bool.not_true, Bool.false_eq_true, if_false]

end Search

end VibeField.Freeway.Writer
