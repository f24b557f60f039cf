import VibeField.Base.Ahead
import VibeField.Freeway.Rings

/-!
# What the writer emits, and in which order

A stream whose OPEN is still queued is unopened.  The writer never lets an unopened
stream overtake one that comes before it: an urgent one where it is not, or one
ahead of it in the ring of their class.  Between two classes that share there is no
such order.
-/

namespace VibeField.Freeway.Writer

open List Option

def Stream.unopened (s : Stream) : Bool := s.queue.head?.any fun q => q.kind = .open

def Stream.closing (s : Stream) : Bool := s.queue.any fun q => q.kind = .close

/-- A queue of a stream of ours: the OPEN first if at all, messages, and a CLOSE. -/
structure Stream.Shaped (s : Stream) : Prop where
  kinds : ∀ q ∈ s.queue, q.kind = .open ∨ q.kind.fragments = true ∨ q.kind = .close
  front : ∀ q ∈ s.queue.tail, q.kind ≠ .open
  fresh : s.unopened = true → s.mayWrite = true

def Unopened (w : Writer) (s : StreamId) : Prop :=
  ∃ state, w.streams.lookup s = some state ∧ state.unopened = true

/-- The writer emits `t` before `s` as long as both are unopened. -/
def Before (w : Writer) (t s : StreamId) : Prop :=
  ∃ first second, w.streams.lookup t = some first ∧ w.streams.lookup s = some second ∧
    ((first.cls = .urgent ∧ second.cls ≠ .urgent) ∨
      (first.cls = second.cls ∧ Ahead (w.rings first.cls) t s))

/-- The rings hold the streams with something queued, each once, in its class. -/
structure Wf (w : Writer) : Prop where
  nodup : ∀ cls, (w.rings cls).Nodup
  mem : ∀ cls s, s ∈ w.rings cls ↔
    ∃ state, w.streams.lookup s = some state ∧ state.cls = cls ∧ state.queue ≠ []
  shaped : ∀ s state, w.streams.lookup s = some state → state.Shaped
  ids : ∀ s state, w.streams.lookup s = some state → s ≠ 0 ∧ s < 2 ^ 64
  links : ∀ m ∈ w.link, ∃ payload,
    decode m = .ok { kind := .link, fragment := false, stream := 0, payload := payload }

variable {behind : List Queued} {cls : Class} {frame : Frame} {head : Queued}
  {rest : List StreamId} {s : StreamId} {state : Stream} {w w' w'' : Writer}

theorem Wf.congr (h : Wf w) (hs : w'.streams = w.streams) (hr : w'.rings = w.rings)
    (hl : w'.link = w.link) : Wf w' := by
  constructor
  · rw [hr]; exact h.nodup
  · rw [hr, hs]; exact h.mem
  · rw [hs]; exact h.shaped
  · rw [hs]; exact h.ids
  · rw [hl]; exact h.links

theorem Wf.rung (h : Wf w) : Rung w := ⟨h.nodup, h.mem⟩

theorem Wf.mem_ring (h : Wf w) (hs : w.streams.lookup s = some state) (hq : state.queue ≠ []) :
    s ∈ w.rings state.cls :=
  (h.mem state.cls s).mpr ⟨state, hs, rfl, hq⟩

theorem Stream.queue_of_unopened {s : Stream} (h : s.unopened = true) : s.queue ≠ [] := by
  intro hq
  rw [Stream.unopened, hq] at h
  cases h

theorem Wf.mem_of_unopened (h : Wf w) (hs : w.streams.lookup s = some state)
    (hu : state.unopened = true) : s ∈ w.rings state.cls :=
  h.mem_ring hs (Stream.queue_of_unopened hu)

/-! ## Moves of the scheduler alone -/

/-- Only the rings' order, the deficits and the counts moved, and the order of the
unopened streams stands. -/
structure Kept (w w' : Writer) : Prop where
  streams : w'.streams = w.streams
  link : w'.link = w.link
  ahead : ∀ cls t s, Unopened w t → Ahead (w.rings cls) t s → Ahead (w'.rings cls) t s

theorem Kept.of_same (hs : w'.streams = w.streams) (hr : w'.rings = w.rings)
    (hl : w'.link = w.link) : Kept w w' :=
  ⟨hs, hl, fun cls t s _ h => by rw [hr]; exact h⟩

theorem Kept.unopened (h : Kept w w') : Unopened w' s ↔ Unopened w s := by
  rw [Unopened, Unopened, h.streams]

theorem Kept.trans (h : Kept w w') (h' : Kept w' w'') : Kept w w'' :=
  ⟨h'.streams.trans h.streams, h'.link.trans h.link, fun cls t s ht ha =>
    h'.ahead cls t s (h.unopened.mpr ht) (h.ahead cls t s ht ha)⟩

theorem Kept.before (h : Kept w w') {t s : StreamId} (ht : Unopened w t) (hb : Before w t s) :
    Before w' t s := by
  obtain ⟨first, second, hf, hs, hor⟩ := hb
  refine ⟨first, second, by rw [h.streams]; exact hf, by rw [h.streams]; exact hs, ?_⟩
  exact hor.imp_right fun hc => ⟨hc.1, h.ahead _ t s ht hc.2⟩

theorem Wf.rotate (h : Wf w) (hring : w.rings cls = s :: rest)
    (hs : w.streams.lookup s = some state) (hwait : state.mayWrite = false) :
    Wf (w.setRing cls (rest ++ [s])) ∧ Kept w (w.setRing cls (rest ++ [s])) := by
  have hperm : (rest ++ [s]).Perm (s :: rest) := perm_append_comm
  refine ⟨⟨fun cls' => ?_, fun cls' s' => ?_, h.shaped, h.ids, h.links⟩, ⟨rfl, rfl, ?_⟩⟩
  · rw [rings_setRing]
    split
    · exact hperm.nodup_iff.mpr (hring ▸ h.nodup cls)
    · exact h.nodup cls'
  · rw [rings_setRing, streams_setRing, ← h.mem cls' s']
    split
    · next hc => rw [hc, hring, hperm.mem_iff]
    · exact Iff.rfl
  · intro cls' t s' ⟨first, hf, hu⟩ ha
    rw [rings_setRing]
    split
    · next hc =>
      rw [hc, hring] at ha
      refine ha.rotate fun he => ?_
      rw [he, hs] at hf
      obtain rfl := some.inj hf
      have hmay := (h.shaped s state hs).fresh hu
      rw [hwait] at hmay
      cases hmay
    · exact ha

/-! ## A frame of a stream -/

/-- The writer emitted a frame of a stream.  No unopened stream was to come before
it, and the order of the others stands. -/
structure Sent (w w' : Writer) (frame : Frame) : Prop where
  link : w'.link = w.link
  others : ∀ s, s ≠ frame.stream → w'.streams.lookup s = w.streams.lookup s
  head : ∃ state q behind, w.streams.lookup frame.stream = some state ∧
    state.queue = q :: behind ∧ q.kind = frame.kind ∧
    (frame.kind = .close ∧ w'.streams.lookup frame.stream = none ∨
      frame.kind ≠ .close ∧ ∃ state', w'.streams.lookup frame.stream = some state' ∧
        state'.cls = state.cls ∧
        (state'.queue = behind ∨
          frame.kind ≠ .open ∧ ∃ q', q'.kind = q.kind ∧ state'.queue = q' :: behind))
  settled : ¬ Unopened w' frame.stream
  first : ∀ t, t ≠ frame.stream → Unopened w t → ¬ Before w t frame.stream
  before : ∀ t s, Unopened w' t → Unopened w' s → Before w t s → Before w' t s

theorem Sent.unopened (h : Sent w w' frame) {t : StreamId} (ht : Unopened w' t) :
    Unopened w t ∧ t ≠ frame.stream := by
  have hne : t ≠ frame.stream := fun he => h.settled (he ▸ ht)
  obtain ⟨state, hs, hu⟩ := ht
  exact ⟨⟨state, by rw [← h.others t hne]; exact hs, hu⟩, hne⟩

theorem Kept.sent (h : Kept w w') (h' : Sent w' w'' frame) :
    Sent w w'' frame where
  link := h'.link.trans h.link
  others s hs := by rw [h'.others s hs, h.streams]
  head := by rw [← h.streams]; exact h'.head
  settled := h'.settled
  first t ht hu hb := h'.first t ht (h.unopened.mpr hu) (h.before hu hb)
  before t s ht hs hb := h'.before t s ht hs (h.before (h.unopened.mp (h'.unopened ht).1) hb)

theorem Sent.kept (h : Sent w w' frame) (h' : Kept w' w'') :
    Sent w w'' frame where
  link := h'.link.trans h.link
  others s hs := by rw [h'.streams]; exact h.others s hs
  head := by rw [h'.streams]; exact h.head
  settled hu := h.settled (h'.unopened.mp hu)
  first := h.first
  before t s ht hs hb := h'.before (h'.unopened.mp ht)
    (h.before t s (h'.unopened.mp ht) (h'.unopened.mp hs) hb)

/-! ### Serving the front of a ring -/

theorem encode_cut (hs : s ≠ 0)
    (hkind : head.kind = .open ∨ head.kind.fragments = true ∨ head.kind = .close) :
    ∃ message, encode (w.cut s head).1 = .ok message := by
  refine encode_ok (check_ok ?_ ?_ ?_ ?_)
  all_goals unfold cut
  · split <;> exact hs
  · split <;> rcases hkind with hk | hk | hk <;> intro he <;> simp_all [FrameType.fragments]
  · split <;> rcases hkind with hk | hk | hk <;> intro he <;> simp_all [FrameType.fragments]
  · split
    · next hm => rcases hm with hm | hm <;> simp [hm, FrameType.fragments]
    · intro hf
      cases hf

theorem Stream.Shaped.leftover (h : state.Shaped) (hq : state.queue = head :: behind) (w : Writer)
    (s : StreamId) (window : Option Int) :
    ({ state with window := window, queue := w.leftover s head behind } : Stream).Shaped ∧
      ({ state with window := window, queue := w.leftover s head behind } : Stream).unopened =
        false := by
  have hbehind : ∀ q ∈ behind, q.kind ≠ .open := by
    have hf := h.front
    rwa [hq] at hf
  have hkinds : ∀ q ∈ head :: behind, q.kind = .open ∨ q.kind.fragments = true ∨ q.kind = .close :=
    hq ▸ h.kinds
  have hhead : ∀ q ∈ w.leftover s head behind, q.kind ≠ .open ∧
      (q.kind = .open ∨ q.kind.fragments = true ∨ q.kind = .close) := by
    intro q hmem
    rcases leftover_cases w s head behind with hl | ⟨hfrag, head', hk, hl⟩
    · rw [hl] at hmem
      exact ⟨hbehind q hmem, hkinds q (mem_cons_of_mem _ hmem)⟩
    · rw [hl] at hmem
      rcases mem_cons.mp hmem with rfl | hmem
      · rw [hk]
        refine ⟨fun ho => ?_, .inr (.inl hfrag)⟩
        rw [ho] at hfrag
        cases hfrag
      · exact ⟨hbehind q hmem, hkinds q (mem_cons_of_mem _ hmem)⟩
  have hopened : ({ state with window := window, queue := w.leftover s head behind } :
      Stream).unopened = false := by
    unfold Stream.unopened
    cases hl : w.leftover s head behind with
    | nil => rfl
    | cons q rest =>
      have hne := (hhead q (hl ▸ mem_cons_self)).1
      simp [hne]
  refine ⟨⟨fun q hq' => (hhead q hq').2, fun q hq' => ?_, fun hu => ?_⟩, hopened⟩
  · exact (hhead q (mem_of_mem_tail hq')).1
  · rw [hopened] at hu
    cases hu

theorem Queued.last_iff {q : Queued}
    (hk : q.kind = .open ∨ q.kind.fragments = true ∨ q.kind = .close) :
    q.last = true ↔ q.kind = .close := by
  unfold Queued.last
  rcases hk with hk | hk | hk
  · simp [hk]
  · cases hkind : q.kind <;> simp_all [FrameType.fragments]
  · simp [hk]

theorem Wf.serve (h : Wf w) (hring : w.rings cls = s :: rest) (hs : w.streams.lookup s = some state)
    (hq : state.queue = head :: behind) :
    Wf ((w.setRing cls rest).serve cls s state head behind) := by
  have hleft := (h.shaped s state hs).leftover hq (w.setRing cls rest) s
    (state.window.map fun window => window - ((w.setRing cls rest).cut s head).2.2)
  have hrung := h.rung.serve hring hs head behind
  have hstreams : (w.setRing cls rest).streams = w.streams := rfl
  have hlink : (w.setRing cls rest).link = w.link := rfl
  generalize w.setRing cls rest = p at *
  refine ⟨hrung.nodup, hrung.mem, ?_, ?_, ?_⟩
  · intro s' st hst
    rw [lookup_serve, hstreams] at hst
    split at hst
    · split at hst
      · cases hst
      · obtain rfl := some.inj hst
        exact hleft.1
    · exact h.shaped s' st hst
  · intro s' st hst
    rw [lookup_serve, hstreams] at hst
    split at hst
    · next hse => exact hse ▸ h.ids s state hs
    · exact h.ids s' st hst
  · rw [link_serve, hlink]
    exact h.links

theorem Wf.sent_serve (h : Wf w)
        (hring : w.rings cls = s :: rest) (hs : w.streams.lookup s = some state)
    (hq : state.queue = head :: behind)
    (hpast : cls ≠ .urgent → ∀ t first, w.streams.lookup t = some first →
      first.unopened = true → first.cls ≠ .urgent) :
    Sent w ((w.setRing cls rest).serve cls s state head behind)
      ((w.setRing cls rest).cut s head).1 := by
  have hshape := h.shaped s state hs
  have hnodup := h.rung.nodup_front hring
  have hcls := h.rung.cls_of_front hring hs
  have hkind := hshape.kinds head (hq ▸ mem_cons_self)
  have hlast := Queued.last_iff hkind
  have hleft := hshape.leftover hq (w.setRing cls rest) s
    (state.window.map fun window => window - ((w.setRing cls rest).cut s head).2.2)
  have hsettled :
      ¬ Unopened ((w.setRing cls rest).serve cls s state head behind) s := by
    rintro ⟨st, hst, hu⟩
    rw [lookup_serve, if_pos rfl] at hst
    split at hst
    · cases hst
    · obtain rfl := some.inj hst
      rw [hleft.2] at hu
      cases hu
  refine ⟨by rw [link_serve]; rfl, fun s' hne => ?_, ?_, by rw [cut_stream]; exact hsettled,
    fun t hne hu hb => ?_, fun t u ht hu hb => ?_⟩
  · rw [cut_stream] at hne
    rw [lookup_serve, if_neg hne]
    rfl
  · rw [cut_stream, cut_kind]
    refine ⟨state, head, behind, hs, hq, rfl, ?_⟩
    rw [lookup_serve, if_pos rfl]
    by_cases hclose : head.kind = .close
    · exact .inl ⟨hclose, by rw [if_pos (hlast.mpr hclose)]⟩
    · refine .inr ⟨hclose, _, if_neg fun hl => hclose (hlast.mp hl), rfl, ?_⟩
      rcases leftover_cases (w.setRing cls rest) s head behind with hl | ⟨hf, head', hk, hl⟩
      · exact .inl hl
      · refine .inr ⟨fun ho => ?_, head', hk, hl⟩
        rw [ho] at hf
        cases hf
  · rw [cut_stream] at hne hb
    obtain ⟨first, second, hf, hs', hor⟩ := hb
    obtain rfl := some.inj (hs.symm.trans hs')
    obtain ⟨first', hf', hu⟩ := hu
    obtain rfl := some.inj (hf.symm.trans hf')
    rcases hor with ⟨hurgent, hnot⟩ | ⟨hsame, hahead⟩
    · exact hpast (hcls ▸ hnot) t first hf hu hurgent
    · rw [hsame, hcls, hring] at hahead
      exact Ahead.not_head hnodup hne hahead
  · have htne : t ≠ s := fun he => hsettled (he ▸ ht)
    have hune : u ≠ s := fun he => hsettled (he ▸ hu)
    obtain ⟨first, second, hf, hs', hor⟩ := hb
    refine ⟨first, second, by rw [lookup_serve, if_neg htne]; exact hf,
      by rw [lookup_serve, if_neg hune]; exact hs', hor.imp_right fun ⟨hsame, hahead⟩ => ?_⟩
    refine ⟨hsame, ?_⟩
    rw [rings_serve, rings_setRing, rings_setRing, if_pos rfl]
    by_cases hc : first.cls = cls
    · rw [hc, hring] at hahead
      have hrest := hahead.of_cons htne
      split
      · exact hrest.join s
      · exact hrest
    · rw [if_neg fun hand => hc hand.1, if_neg hc]
      exact hahead

/-! ## The loops -/

/-- What a search for a frame found: nothing, with only rings moved, or one frame of
a stream. -/
inductive Searched (w : Writer) : Writer × Option Bytes → Prop
  | nothing {w' : Writer} : Wf w' → Kept w w' → Searched w (w', none)
  | found {w' : Writer} {message : Bytes} {frame : Frame} :
      Wf w' → decode message = .ok frame → Sent w w' frame → Searched w (w', some message)

theorem Searched.after {r : Writer × Option Bytes} (h : Searched w' r) (hk : Kept w w') :
    Searched w r := by
  cases h with
  | nothing hw hk' => exact .nothing hw (hk.trans hk')
  | found hw hd hs => exact .found hw hd (hk.sent hs)

theorem nextFromLoop_searched (cls : Class) (tries : Nat) (h : Wf w)
    (hpast : cls ≠ .urgent → ∀ t first, w.streams.lookup t = some first →
      first.unopened = true → first.cls ≠ .urgent) :
    Searched w (nextFromLoop cls tries w) := by
  induction tries generalizing w with
  | zero => exact .nothing h (.of_same rfl rfl rfl)
  | succ tries ih =>
    unfold nextFromLoop
    cases hring : w.rings cls with
    | nil => exact .nothing h (.of_same rfl rfl rfl)
    | cons s rest =>
      obtain ⟨state, hs, -, hne⟩ := (h.mem cls s).mp (hring ▸ mem_cons_self)
      simp only [hs]
      cases hmay : state.mayWrite with
      | false =>
        obtain ⟨hw, hk⟩ := h.rotate hring hs hmay
        exact (ih hw hpast).after hk
      | true =>
        cases hq : state.queue with
        | nil => exact absurd hq hne
        | cons head behind =>
          obtain ⟨hs0, hs64⟩ := h.ids s state hs
          obtain ⟨message, he⟩ := encode_cut (w := w.setRing cls rest) hs0
            ((h.shaped s state hs).kinds head (hq ▸ mem_cons_self))
          simp only [he, Bool.not_true, Bool.false_eq_true, if_false]
          refine .found (h.serve hring hs hq) (decode_encode ?_ he)
            (h.sent_serve hring hs hq hpast)
          rw [cut_stream]
          exact hs64

theorem nextFromLoop_none (tries : Nat) (h : Wf w) (hnone : nextFromLoop cls tries w = (w', none)) :
    ∀ t ∈ (w.rings cls).take tries, ¬ Unopened w t := by
  induction tries generalizing w with
  | zero => exact fun t ht => absurd ht not_mem_nil
  | succ tries ih =>
    unfold nextFromLoop at hnone
    cases hring : w.rings cls with
    | nil => exact fun t ht => absurd ht not_mem_nil
    | cons s rest =>
      obtain ⟨state, hs, -, hne⟩ := (h.mem cls s).mp (hring ▸ mem_cons_self)
      simp only [hring, hs] at hnone
      cases hmay : state.mayWrite with
      | false =>
        rw [hmay] at hnone
        obtain ⟨hw, hk⟩ := h.rotate hring hs hmay
        intro t ht hu
        rw [take_succ_cons] at ht
        rcases mem_cons.mp ht with rfl | ht
        · obtain ⟨state', hs', hu'⟩ := hu
          obtain rfl := some.inj (hs.symm.trans hs')
          have hfresh := (h.shaped t state hs).fresh hu'
          rw [hmay] at hfresh
          cases hfresh
        · refine ih hw hnone t ?_ (hk.unopened.mpr hu)
          rw [rings_setRing, if_pos rfl, take_append]
          exact mem_append_left _ ht
      | true =>
        cases hq : state.queue with
        | nil => exact absurd hq hne
        | cons head behind =>
          obtain ⟨message, he⟩ := encode_cut (w := w.setRing cls rest) (h.ids s state hs).1
            ((h.shaped s state hs).kinds head (hq ▸ mem_cons_self))
          simp only [hmay, hq, he, Bool.not_true, Bool.false_eq_true, if_false] at hnone
          cases hnone

theorem headCostLoop_kept (cls : Class) (tries : Nat) (h : Wf w) :
    Wf (headCostLoop cls tries w).1 ∧ Kept w (headCostLoop cls tries w).1 := by
  induction tries generalizing w with
  | zero => exact ⟨h, .of_same rfl rfl rfl⟩
  | succ tries ih =>
    unfold headCostLoop
    cases hring : w.rings cls with
    | nil => exact ⟨h, .of_same rfl rfl rfl⟩
    | cons s rest =>
      obtain ⟨state, hs, -, hne⟩ := (h.mem cls s).mp (hring ▸ mem_cons_self)
      simp only [hs]
      cases hmay : state.mayWrite with
      | false =>
        obtain ⟨hw, hk⟩ := h.rotate hring hs hmay
        exact ⟨(ih hw).1, hk.trans (ih hw).2⟩
      | true =>
        cases hq : state.queue with
        | nil => exact absurd hq hne
        | cons head behind => exact ⟨h, .of_same rfl rfl rfl⟩

/-- No stream of the urgent class is unopened. -/
def NoneUrgent (w : Writer) : Prop :=
  ∀ t first, w.streams.lookup t = some first → first.unopened = true → first.cls ≠ .urgent

theorem Kept.noneUrgent (h : Kept w w') (hw : NoneUrgent w) : NoneUrgent w' := by
  rw [NoneUrgent, h.streams]
  exact hw

theorem nextSharedLoop_searched {quantum : Nat} (tries : Nat) (h : Wf w) (hpast : NoneUrgent w) :
    Searched w (nextSharedLoop quantum tries w) := by
  induction tries generalizing w with
  | zero => exact .nothing h (.of_same rfl rfl rfl)
  | succ tries ih =>
    unfold nextSharedLoop
    obtain ⟨hw, hk⟩ := headCostLoop_kept (Class.shared w.turn)
      (w.rings (Class.shared w.turn)).length h
    dsimp only [headCost]
    generalize headCostLoop (Class.shared w.turn) (w.rings (Class.shared w.turn)).length w = r at *
    obtain ⟨w', cost⟩ := r
    -- what follows starts from a writer that differs in its deficits and its turn only
    have hnext : ∀ deficits turn, Kept w { w' with deficits := deficits, turn := turn } :=
      fun deficits turn => hk.trans (.of_same rfl rfl rfl)
    have hwf : ∀ deficits turn, Wf { w' with deficits := deficits, turn := turn } :=
      fun deficits turn => hw.congr rfl rfl rfl
    cases cost with
    | none => exact (ih (hwf _ _) ((hnext _ _).noneUrgent hpast)).after (hnext _ _)
    | some cost =>
      dsimp only
      split
      · exact (nextFromLoop_searched _ _ (hwf _ _)
          fun _ => (hnext _ _).noneUrgent hpast).after (hnext _ _)
      · exact (ih (hwf _ _) ((hnext _ _).noneUrgent hpast)).after (hnext _ _)

/-! ## The next frame -/

/-- What a call of `nextFrame` does: nothing, or a link frame, or a frame of a
stream. -/
inductive Wrote (w : Writer) : Writer × Option Bytes → Prop
  | nothing {w' : Writer} : Wf w' → Kept w w' → Wrote w (w', none)
  | link {w' : Writer} {message payload : Bytes} :
      Wf w' → Kept { w with link := w'.link } w' →
        decode message =
          .ok { kind := .link, fragment := false, stream := 0, payload := payload } →
        Wrote w (w', some message)
  | stream {w' : Writer} {message : Bytes} {frame : Frame} :
      Wf w' → decode message = .ok frame → Sent w w' frame → Wrote w (w', some message)

theorem Searched.wrote {r : Writer × Option Bytes} (h : Searched w r) : Wrote w r := by
  cases h with
  | nothing hw hk => exact .nothing hw hk
  | found hw hd hs => exact .stream hw hd hs

theorem pick_wrote (h : Wf w) : Wrote w w.pick := by
  unfold pick
  cases hlink : w.link with
  | cons message rest =>
    obtain ⟨payload, hd⟩ := h.links message (hlink ▸ mem_cons_self)
    refine .link ⟨h.nodup, h.mem, h.shaped, h.ids, fun m hm => ?_⟩ (.of_same rfl rfl rfl) hd
    exact h.links m (hlink ▸ mem_cons_of_mem _ hm)
  | nil =>
    dsimp only
    have hsearch := nextFromLoop_searched .urgent (w.rings .urgent).length h
      fun hne => absurd rfl hne
    cases hr : w.nextFrom .urgent with
    | mk w' found =>
      rw [nextFrom] at hr
      rw [hr] at hsearch
      cases found with
      | some message => exact hsearch.wrote
      | none =>
        -- the urgent ring has nothing unopened, so the others may go
        cases hsearch with
        | nothing hw hk =>
          have hnone : NoneUrgent w := fun t first hf hu hurgent => by
            refine nextFromLoop_none _ h hr t ?_ ⟨first, hf, hu⟩
            rw [take_length, ← hurgent]
            exact h.mem_of_unopened hf hu
          dsimp only
          split
          · exact .nothing hw hk
          · exact ((nextSharedLoop_searched 6 hw (hk.noneUrgent hnone)).after hk).wrote

theorem nextFrame_wrote (h : Wf w) : Wrote w w.nextFrame := by
  have hpick := pick_wrote h
  unfold nextFrame
  generalize w.pick = r at hpick
  have hcount : ∀ (w' : Writer) n, Kept w' { w' with written := n } :=
    fun w' n => .of_same rfl rfl rfl
  cases hpick with
  | nothing hw hk => exact .nothing hw hk
  | link hw hk hd => exact .link (hw.congr rfl rfl rfl) (hk.trans (hcount _ _)) hd
  | stream hw hd hs => exact .stream (hw.congr rfl rfl rfl) hd (hs.kept (hcount _ _))

end VibeField.Freeway.Writer
