import VibeField.Freeway.Schedule

/-!
# What is queued, and where

Opening a stream, queueing on it, moving it to another class and granting it bytes:
each keeps the rings in shape and, but for the move, the order of the unopened
streams.
-/

namespace VibeField.Freeway.Writer

open List Option

variable {cls : Class} {old state : Stream} {q : Queued} {s t : StreamId} {w w' : Writer}

theorem Before.transport (h : Before w t s)
    (hcls : ∀ x, x = t ∨ x = s → ∀ state, w.streams.lookup x = some state →
      ∃ state', w'.streams.lookup x = some state' ∧ state'.cls = state.cls)
    (hrings : ∀ cls, Ahead (w.rings cls) t s → Ahead (w'.rings cls) t s) : Before w' t s := by
  obtain ⟨first, second, hf, hs, hor⟩ := h
  obtain ⟨first', hf', hcf⟩ := hcls t (.inl rfl) first hf
  obtain ⟨second', hs', hcs⟩ := hcls s (.inr rfl) second hs
  refine ⟨first', second', hf', hs', ?_⟩
  rw [hcf, hcs]
  exact hor.imp_right fun hc => ⟨hc.1, hrings _ hc.2⟩

theorem Wf.shaped_set (h : Wf w) {s s' : StreamId} {state st : Stream} (hshape : state.Shaped)
    (hst : (if s' = s then some state else w.streams.lookup s') = some st) : st.Shaped := by
  split at hst
  · obtain rfl := some.inj hst
    exact hshape
  · exact h.shaped s' st hst

theorem Wf.ids_set (h : Wf w) {s s' : StreamId} {state st : Stream} (hid : s ≠ 0 ∧ s < 2 ^ 64)
    (hst : (if s' = s then some state else w.streams.lookup s') = some st) :
    s' ≠ 0 ∧ s' < 2 ^ 64 := by
  split at hst
  · next he => exact he ▸ hid
  · exact h.ids s' st hst

theorem Wf.rewrite (h : Wf w) {state state' : Stream} (hs : w.streams.lookup s = some state)
    (hcls : state'.cls = state.cls) (hq : state'.queue = [] ↔ state.queue = [])
    (hshape : state'.Shaped) : Wf (w.setStream s state') := by
  refine ⟨h.nodup, fun cls s' => ?_,
    fun s' st hst => h.shaped_set hshape ((lookup_setStream _ _ _ _).symm.trans hst),
    fun s' st hst => h.ids_set (h.ids s state hs) ((lookup_setStream _ _ _ _).symm.trans hst),
    h.links⟩
  rw [rings_setStream, h.mem cls s', lookup_setStream]
  by_cases he : s' = s
  · subst he
    simp [hs, hcls, hq]
  · rw [if_neg he]

theorem Wf.join (h : Wf w) (state : Stream)
    (hidle : ∀ old, w.streams.lookup s = some old → old.queue = []) (hq : state.queue ≠ [])
    (hshape : state.Shaped) (hid : s ≠ 0 ∧ s < 2 ^ 64) :
    Wf ((w.setStream s state).setRing state.cls (w.rings state.cls ++ [s])) := by
  have hout : ∀ cls, s ∉ w.rings cls := by
    intro cls hmem
    obtain ⟨old, hold, -, hne⟩ := (h.mem cls s).mp hmem
    exact hne (hidle old hold)
  refine ⟨fun cls => ?_, fun cls s' => ?_,
    fun s' st hst => h.shaped_set hshape ((lookup_setStream _ _ _ _).symm.trans hst),
    fun s' st hst => h.ids_set hid ((lookup_setStream _ _ _ _).symm.trans hst), h.links⟩
  · rw [rings_setRing]
    split
    · exact perm_append_comm.nodup_iff.mpr
        (nodup_cons.mpr ⟨hout state.cls, h.nodup state.cls⟩)
    · exact h.nodup cls
  · rw [rings_setRing, streams_setRing, lookup_setStream, rings_setStream]
    by_cases he : s' = s
    · subst he
      have hnot := hout cls
      by_cases hc : cls = state.cls
      · simp [hc, hq]
      · have hc' : ¬ state.cls = cls := fun he => hc he.symm
        simp [hc, hc', hnot]
    · rw [if_neg he, ← h.mem cls s']
      split
      · next hc => simp [hc, he]
      · exact Iff.rfl

/-! ## Queueing -/

/-- Nothing but the queue of one stream changed, and its tail only. -/
structure Queues (w w' : Writer) (s : StreamId) (q : Queued) : Prop where
  others : ∀ s', s' ≠ s → w'.streams.lookup s' = w.streams.lookup s'
  state : ∀ old, w.streams.lookup s = some old →
    w'.streams.lookup s = some { old with queue := old.queue ++ [q] }
  ahead : ∀ cls t u, Ahead (w.rings cls) t u → Ahead (w'.rings cls) t u
  link : w'.link = w.link

theorem queue_queues (hs : w.streams.lookup s = some old) (kind : FrameType) (payload : Bytes) :
    Queues w (w.queue s kind payload) s { kind := kind, payload := payload, sent := 0 } := by
  unfold queue
  rw [hs]
  dsimp only
  split
  · refine ⟨fun s' hne => ?_, fun old' hold => ?_, fun cls t u ha => ?_, rfl⟩
    · rw [streams_setRing, lookup_setStream, if_neg hne]
    · obtain rfl := some.inj (hs.symm.trans hold)
      rw [streams_setRing, lookup_setStream, if_pos rfl]
    · rw [rings_setRing]
      split
      · next hc => exact (hc ▸ ha).join s
      · exact ha
  · refine ⟨fun s' hne => ?_, fun old' hold => ?_, fun cls t u ha => ha, rfl⟩
    · rw [lookup_setStream, if_neg hne]
    · obtain rfl := some.inj (hs.symm.trans hold)
      rw [lookup_setStream, if_pos rfl]

theorem queue_of_none (hs : w.streams.lookup s = none) (kind : FrameType) (payload : Bytes) :
    w.queue s kind payload = w := by
  unfold queue
  rw [hs]

theorem Wf.queue (h : Wf w)
    (hs : w.streams.lookup s = some old) {kind : FrameType} {payload : Bytes}
    (hshape : ({ old with
      queue := old.queue ++ [{ kind := kind, payload := payload, sent := 0 }] } : Stream).Shaped) :
    Wf (w.queue s kind payload) := by
  unfold Writer.queue
  rw [hs]
  dsimp only
  split
  · next hidle =>
    refine h.join { old with
      queue := old.queue ++ [{ kind := kind, payload := payload, sent := 0 }] }
      (fun old' hold => ?_) (by simp) hshape (h.ids s old hs)
    obtain rfl := some.inj (hs.symm.trans hold)
    exact List.isEmpty_iff.mp hidle
  · next hbusy =>
    refine h.rewrite hs rfl ?_ hshape
    have hne : old.queue ≠ [] := fun he => hbusy (List.isEmpty_iff.mpr he)
    simp [hne]

theorem Stream.unopened_append {s : Stream} (hk : q.kind ≠ .open) :
    ({ s with queue := s.queue ++ [q] } : Stream).unopened = s.unopened := by
  unfold Stream.unopened
  cases hq : s.queue with
  | nil => simp [hk]
  | cons head rest => rfl

theorem Stream.Shaped.append {s : Stream} (h : s.Shaped)
    (hk : q.kind.fragments = true ∨ q.kind = .close) :
    ({ s with queue := s.queue ++ [q] } : Stream).Shaped := by
  have hopen : q.kind ≠ .open := by
    intro ho
    rw [ho] at hk
    rcases hk with hk | hk <;> cases hk
  refine ⟨fun r hr => ?_, fun r hr => ?_, fun hu => ?_⟩
  · rcases mem_append.mp hr with hr | hr
    · exact h.kinds r hr
    · obtain rfl := mem_singleton.mp hr
      exact .inr hk
  · cases hq : s.queue with
    | nil =>
      simp only [hq, nil_append, tail_cons] at hr
      exact absurd hr not_mem_nil
    | cons head rest =>
      simp only [hq, cons_append, tail_cons] at hr
      rcases mem_append.mp hr with hr | hr
      · exact h.front r (by rw [hq]; exact hr)
      · obtain rfl := mem_singleton.mp hr
        exact hopen
  · rw [Stream.unopened_append hopen] at hu
    exact h.fresh hu

theorem Queues.before (h : Queues w w' s q) (hs : w.streams.lookup s = some old) {t u : StreamId}
    (hb : Before w t u) : Before w' t u := by
  refine hb.transport (fun x _ state hx => ?_) fun cls ha => h.ahead cls t u ha
  by_cases he : x = s
  · subst he
    obtain rfl := some.inj (hs.symm.trans hx)
    exact ⟨_, h.state old hs, rfl⟩
  · exact ⟨state, by rw [h.others x he]; exact hx, rfl⟩

/-! ## Opening -/

/-- The writer after a stream of ours has begun with its OPEN. -/
structure Begun (w w' : Writer) (s : StreamId) (cls : Class) : Prop where
  wf : Wf w'
  others : ∀ s', s' ≠ s → w'.streams.lookup s' = w.streams.lookup s'
  state : ∃ state, w'.streams.lookup s = some state ∧ state.cls = cls ∧ state.unopened = true
  rings : ∀ cls', w'.rings cls' = if cls' = cls then w.rings cls' ++ [s] else w.rings cls'
  link : w'.link = w.link

theorem begun (h : Wf w) (hnew : w.streams.lookup s = none) (hid : s ≠ 0 ∧ s < 2 ^ 64) (cls : Class)
    (windowed : Bool) (payload : Bytes) :
    Begun w ((w.openStream s cls windowed).queue s .open payload) s cls := by
  have hopened : (w.openStream s cls windowed).streams.lookup s =
      some
        { cls := cls
          window := if windowed then some streamWindowBytes else none
          queue := [] } := by
    rw [openStream, lookup_setStream, if_pos rfl]
  have hempty : ({
      cls := cls
      window := if windowed then some streamWindowBytes else none
      queue := [] } : Stream).Shaped :=
    ⟨fun q hq => absurd hq not_mem_nil, fun _ hq => absurd hq not_mem_nil, fun hu => by cases hu⟩
  have hwf : Wf (w.openStream s cls windowed) := by
    refine ⟨h.nodup, fun cls' s' => ?_,
      fun s' st hst => h.shaped_set hempty ((lookup_setStream _ _ _ _).symm.trans hst),
      fun s' st hst => h.ids_set hid ((lookup_setStream _ _ _ _).symm.trans hst), h.links⟩
    rw [openStream, rings_setStream, h.mem cls' s', lookup_setStream]
    by_cases he : s' = s
    · subst he
      simp [hnew]
    · rw [if_neg he]
  have hqueues := queue_queues hopened .open payload
  refine ⟨hwf.queue hopened ⟨fun q hq => ?_, fun _ hq => absurd hq not_mem_nil, fun _ => ?_⟩,
    fun s' hne => ?_,
    ⟨_, hqueues.state _ hopened, rfl, rfl⟩, fun cls' => ?_, hqueues.link⟩
  · exact .inl (by rw [mem_singleton.mp hq])
  · cases windowed <;> rfl
  · rw [hqueues.others s' hne, openStream, lookup_setStream, if_neg hne]
  · rw [queue, hopened]
    simp only [isEmpty_nil, if_true, rings_setRing, openStream, rings_setStream]
    split
    · next hc => rw [hc]
    · rfl

theorem Begun.unopened (h : Begun w w' s cls) (hnew : w.streams.lookup s = none) (t : StreamId) :
    Unopened w' t ↔ t = s ∨ Unopened w t := by
  by_cases he : t = s
  · subst he
    obtain ⟨state, hs, -, hu⟩ := h.state
    exact iff_of_true ⟨state, hs, hu⟩ (.inl rfl)
  · rw [Unopened, Unopened, h.others t he, or_iff_right he]

theorem Begun.before (h : Begun w w' s cls) (hnew : w.streams.lookup s = none) {t u : StreamId}
    (hb : Before w t u) : Before w' t u := by
  refine hb.transport (fun x _ state hx => ?_) fun cls' ha => ?_
  · have hne : x ≠ s := fun he => by rw [he, hnew] at hx; cases hx
    exact ⟨state, by rw [h.others x hne]; exact hx, rfl⟩
  · rw [h.rings]
    split
    · exact ha.join s
    · exact ha

theorem Begun.before_new (hw : Wf w) (h : Begun w w' s cls) (hne : t ≠ s)
    (ht : w.streams.lookup t = some state) (hu : state.unopened = true)
    (hor : (state.cls = .urgent ∧ cls ≠ .urgent) ∨ state.cls = cls) : Before w' t s := by
  obtain ⟨new, hs, hc, -⟩ := h.state
  refine ⟨state, new, by rw [h.others t hne]; exact ht, hs, ?_⟩
  rw [hc]
  refine hor.imp_right fun hsame => ⟨hsame, ?_⟩
  rw [h.rings, if_pos hsame]
  exact Ahead.of_mem (hw.mem_of_unopened ht hu) s

/-! ## Grants and moves -/

theorem Wf.grant (h : Wf w) (s : StreamId) (bytes : Nat) : Wf (w.grant s bytes) := by
  unfold Writer.grant
  split
  · exact h
  · next state hs =>
    split
    · exact h
    · next window hwindow =>
      refine h.rewrite hs rfl Iff.rfl ⟨(h.shaped s state hs).kinds, (h.shaped s state hs).front,
        fun hu => ?_⟩
      have hfresh := (h.shaped s state hs).fresh hu
      simp only [Stream.mayWrite, hwindow, all_some, decide_eq_true_eq] at hfresh ⊢
      unfold saturatingAdd
      omega

theorem lookup_grant (w : Writer) (s s' : StreamId) (bytes : Nat)
    (hs : w.streams.lookup s' = some state) :
    ∃ window, (w.grant s bytes).streams.lookup s' = some { state with window := window } := by
  unfold grant
  split
  · exact ⟨state.window, hs⟩
  · next old hold =>
    split
    · exact ⟨state.window, hs⟩
    · next window hwindow =>
      rw [lookup_setStream]
      split
      · next he =>
        subst he
        obtain rfl := some.inj (hs.symm.trans hold)
        exact ⟨_, rfl⟩
      · exact ⟨state.window, hs⟩

theorem lookup_grant_none (w : Writer) (s s' : StreamId) (bytes : Nat)
    (hs : w.streams.lookup s' = none) : (w.grant s bytes).streams.lookup s' = none := by
  unfold grant
  split
  · exact hs
  · next old hold =>
    split
    · exact hs
    · rw [lookup_setStream, if_neg fun he => ?_]
      · exact hs
      · rw [he, hold] at hs
        cases hs

@[simp]
theorem rings_grant (w : Writer) (s : StreamId) (bytes : Nat) :
    (w.grant s bytes).rings = w.rings := by
  unfold grant
  split
  · rfl
  · split <;> rfl

theorem reclass_moves (h : Wf w) (hs : w.streams.lookup s = some state) (hne : state.cls ≠ cls) :
    Wf (w.reclass s cls) ∧
    (∀ s', (w.reclass s cls).streams.lookup s' =
      if s' = s then some { state with cls := cls } else w.streams.lookup s') ∧
    (∀ cls', (w.reclass s cls).rings cls' =
      if state.queue = [] then w.rings cls'
      else if cls' = cls then w.rings cls' ++ [s] else (w.rings cls').erase s) := by
  have hshape := h.shaped s state hs
  have hshape' : ({ state with cls := cls } : Stream).Shaped :=
    ⟨hshape.kinds, hshape.front, hshape.fresh⟩
  have hin : ∀ cls', s ∈ w.rings cls' ↔ cls' = state.cls ∧ state.queue ≠ [] := by
    intro cls'
    rw [h.mem cls' s]
    constructor
    · rintro ⟨st, hst, hc, hq⟩
      obtain rfl := some.inj (hs.symm.trans hst)
      exact ⟨hc.symm, hq⟩
    · rintro ⟨hc, hq⟩
      exact ⟨state, hs, hc.symm, hq⟩
  unfold reclass
  rw [hs]
  dsimp only
  rw [if_neg hne]
  by_cases hq : state.queue = []
  · rw [if_neg fun hmem => ((hin _).mp hmem).2 hq]
    refine ⟨⟨h.nodup, fun cls' s' => ?_,
      fun s' st hst => h.shaped_set hshape' ((lookup_setStream _ _ _ _).symm.trans hst),
      fun s' st hst => h.ids_set (h.ids s state hs) ((lookup_setStream _ _ _ _).symm.trans hst),
      h.links⟩, fun s' => lookup_setStream _ _ _ _, fun cls' => ?_⟩
    · rw [rings_setStream, h.mem cls' s', lookup_setStream]
      by_cases he : s' = s
      · subst he
        simp [hs, hq]
      · rw [if_neg he]
    · rw [if_pos hq]
      rfl
  · rw [if_pos ((hin _).mpr ⟨rfl, hq⟩)]
    have hrings : ∀ cls', (((w.setStream s { state with cls := cls }).setRing state.cls
        ((w.rings state.cls).erase s)).setRing cls (w.rings cls ++ [s])).rings cls' =
        if cls' = cls then w.rings cls' ++ [s] else (w.rings cls').erase s := by
      intro cls'
      rw [rings_setRing, rings_setRing, rings_setStream]
      by_cases hc : cls' = cls
      · rw [if_pos hc, if_pos hc, hc]
      · rw [if_neg hc, if_neg hc]
        by_cases hc' : cls' = state.cls
        · rw [if_pos hc', hc']
        · rw [if_neg hc', erase_of_not_mem fun hmem => hc' ((hin cls').mp hmem).1]
    refine ⟨⟨fun cls' => ?_, fun cls' s' => ?_,
      fun s' st hst => h.shaped_set hshape' ((lookup_setStream _ _ _ _).symm.trans hst),
      fun s' st hst => h.ids_set (h.ids s state hs) ((lookup_setStream _ _ _ _).symm.trans hst),
      h.links⟩, fun s' => lookup_setStream _ _ _ _, fun cls' => ?_⟩
    · rw [hrings]
      split
      · next hc =>
        have hnot : s ∉ w.rings cls' := fun hmem => hne (((hin cls').mp hmem).1.symm.trans hc)
        exact perm_append_comm.nodup_iff.mpr (nodup_cons.mpr ⟨hnot, h.nodup cls'⟩)
      · exact (h.nodup cls').erase s
    · rw [hrings, streams_setRing, streams_setRing, lookup_setStream]
      by_cases he : s' = s
      · subst he
        rw [if_pos rfl]
        by_cases hc : cls' = cls
        · simp [hc, hq]
        · have hc' : ¬ cls = cls' := fun he => hc he.symm
          simp [hc, hc', (h.nodup cls').mem_erase_iff]
      · rw [if_neg he, ← h.mem cls' s']
        split
        · simp [he]
        · rw [(h.nodup cls').mem_erase_iff, and_iff_right he]
    · rw [hrings, if_neg hq]

end VibeField.Freeway.Writer
