import VibeField.Freeway.Order

/-!
# No stream of ours is one too many

The peer counts a stream from its OPEN until both CLOSEs, and this end drops it once
it has sent its CLOSE and received the peer's.  In between, the CLOSE of a dropped
stream is queued or in flight, and the OPEN of a later one must not pass it.  Nothing
of a stream follows its CLOSE.
-/

namespace VibeField.Freeway.Peers

open List Option
open Writer (Unopened Before Wf)

def CloseIn (fs : List Frame) (s : StreamId) : Prop := ∃ f ∈ fs, f.kind = .close ∧ f.stream = s

/-- The CLOSE of `s` arrives before the OPEN of `t`, if that is in flight at all. -/
def ClosesFirst (fs : List Frame) (s t : StreamId) : Prop :=
  ∃ sooner later, fs = sooner ++ later ∧ CloseIn sooner s ∧
    ∀ f ∈ sooner, f.kind = .open → f.stream ≠ t

variable {f : Frame} {fs : List Frame} {p : Peers} {role : Role} {s : StreamId}

theorem CloseIn.append (h : CloseIn fs s) (more : List Frame) : CloseIn (fs ++ more) s :=
  let ⟨f, hf, hk⟩ := h
  ⟨f, mem_append_left _ hf, hk⟩

theorem CloseIn.of_cons (h : CloseIn (f :: fs) s) (hne : f.kind = .close → f.stream ≠ s) :
    CloseIn fs s := by
  obtain ⟨g, hg, hk, hs⟩ := h
  rcases mem_cons.mp hg with rfl | hg
  · exact absurd hs (hne hk)
  · exact ⟨g, hg, hk, hs⟩

theorem ClosesFirst.append {s t : StreamId} (h : ClosesFirst fs s t) (more : List Frame) :
    ClosesFirst (fs ++ more) s t := by
  obtain ⟨sooner, later, rfl, hc, ho⟩ := h
  exact ⟨sooner, later ++ more, append_assoc _ _ _, hc, ho⟩

theorem ClosesFirst.of_cons {s t : StreamId} (h : ClosesFirst (f :: fs) s t)
    (hne : f.kind = .close → f.stream ≠ s) : ClosesFirst fs s t := by
  obtain ⟨sooner, later, heq, hc, ho⟩ := h
  cases sooner with
  | nil =>
    obtain ⟨g, hg, -⟩ := hc
    exact absurd hg not_mem_nil
  | cons g sooner =>
    obtain ⟨rfl, rfl⟩ := List.cons.inj heq
    exact ⟨sooner, later, rfl, hc.of_cons hne, fun f' hf' => ho f' (mem_cons_of_mem _ hf')⟩

theorem not_closesFirst_head (hk : f.kind = .open) : ¬ ClosesFirst (f :: fs) s f.stream := by
  rintro ⟨sooner, later, heq, ⟨g, hg, -⟩, ho⟩
  cases sooner with
  | nil => exact absurd hg not_mem_nil
  | cons g' sooner =>
    obtain ⟨rfl, -⟩ := List.cons.inj heq
    exact ho f mem_cons_self hk rfl

/-- A frame of the peer's on its way back, and what the peer has done by then. -/
def Honest (p : Peers) (f : Frame) : Prop :=
  f.kind = .opened ∨
  (f.kind = .close ∧ ∀ state, p.peer.streams.lookup f.stream = some state →
    state.weClosed = true) ∨
  (f.kind = .openRefused ∧ p.peer.streams.lookup f.stream = none)

structure Balanced (role : Role) (p : Peers) : Prop where
  fault : p.fault = none
  silent : p.frames.Pairwise fun f g => f.kind = .close → g.stream ≠ f.stream
  gone : ∀ f ∈ p.frames, f.kind = .close → p.writer.streams.lookup f.stream = none
  peerGone : ∀ s state, p.peer.streams.lookup s = some state → state.peerClosed = true →
    p.writer.streams.lookup s = none ∧ ∀ f ∈ p.frames, f.stream ≠ s
  theirs : ∀ s state, p.peer.streams.lookup s = some state →
    state.ours = false ∧ role.opens s = true ∧ s ≠ 0 ∧ s ≤ p.peer.peerHigh
  once : ∀ s state, p.peer.streams.lookup s = some state → state.weClosed = true →
    state.peerClosed = false
  mine : ∀ s state, p.mux.streams.lookup s = some state →
    role.opens s = true ∧ s ≠ 0 ∧ s < p.mux.nextOurs
  known : ∀ s, role.opens s = true → s ≠ 0 → s < p.mux.nextOurs →
    (∃ state, p.writer.streams.lookup s = some state) ∨ CloseIn p.frames s ∨
      (s ≤ p.peer.peerHigh ∧ ∀ state, p.peer.streams.lookup s = some state →
        state.peerClosed = true)
  pending : ∀ s, role.opens s = true → p.peer.peerHigh < s → s < p.mux.nextOurs →
    ∃ state, p.mux.streams.lookup s = some state ∧ state.peerClosed = false
  weClosed : ∀ s state, p.mux.streams.lookup s = some state → state.weClosed = true →
    ∀ queued, p.writer.streams.lookup s = some queued → queued.closing = true
  peerClosed : ∀ s state, p.mux.streams.lookup s = some state → state.peerClosed = true →
    s ≤ p.peer.peerHigh ∧ ∀ state', p.peer.streams.lookup s = some state' →
      state'.weClosed = true
  held : ∀ s state, p.peer.streams.lookup s = some state →
    (∃ state', p.mux.streams.lookup s = some state') ∨
      (state.weClosed = true ∧
        ((∃ queued, p.writer.streams.lookup s = some queued ∧ queued.closing = true) ∨
          CloseIn p.frames s))
  back : ∀ m ∈ p.back, ∃ f, decode m = .ok f ∧ role.opens f.stream = true ∧ f.stream ≠ 0 ∧
    f.stream ≤ p.peer.peerHigh ∧ Honest p f
  room : ∀ t, role.opens t = true → p.peer.peerHigh < t → t < p.mux.nextOurs →
    ∃ counted : List StreamId, counted.length < maxStreams ∧
      (∀ s, role.opens s = true → p.peer.peerHigh < s → s < t → s ∈ counted) ∧
      ∀ s state, p.peer.streams.lookup s = some state → s ∉ counted →
        state.weClosed = true ∧ ClosesFirst p.frames s t

theorem balanced_start (role : Role) : Balanced role (start role) := by
  have hsmall : ∀ s, role.opens s = true → s ≠ 0 → ¬ s < (start role).mux.nextOurs := by
    intro s hs hne hlt
    cases role with
    | dialer =>
      exact hne (Nat.lt_one_iff.mp hlt)
    | acceptor =>
      obtain rfl : s = 1 :=
        Nat.le_antisymm (Nat.le_of_lt_succ hlt) (Nat.pos_of_ne_zero hne)
      cases hs
  refine ⟨rfl, .nil, nofun, nofun, nofun, nofun, nofun, fun s hs hne hlt => ?_,
    fun s hs hpos hlt => ?_, nofun, nofun, nofun, nofun, fun t ht hpos hlt => ?_⟩
  · exact absurd hlt (hsmall s hs hne)
  · exact absurd hlt (hsmall s hs (Nat.ne_of_gt hpos))
  · exact absurd hlt (hsmall t ht (Nat.ne_of_gt hpos))

/-! ## The writer moves -/

/-- Only the writer moved, and at most one frame went out: a stream it no longer has
went with its CLOSE. -/
theorem Balanced.forward (h : Balanced role p) {w : Writer}
    (wire : List Bytes) (sent : Option Frame) (hframes : framesOf wire = p.frames ++ sent.toList)
    (hnew : ∀ s, p.writer.streams.lookup s = none → w.streams.lookup s = none)
    (hkept : ∀ s queued, p.writer.streams.lookup s = some queued →
      (∃ queued', w.streams.lookup s = some queued' ∧
        (queued.closing = true → queued'.closing = true)) ∨
      CloseIn sent.toList s)
    (hsent : ∀ f ∈ sent, (f.kind = .link ∧ f.stream = 0) ∨
      ∃ queued, p.writer.streams.lookup f.stream = some queued)
    (hclose : ∀ f ∈ sent, f.kind = .close → w.streams.lookup f.stream = none)
    (hzero : ∀ f ∈ p.frames, f.kind = .close → f.stream ≠ 0) :
    Balanced role { p with writer := w, wire := wire } := by
  have hmore : ∀ s, CloseIn p.frames s → CloseIn (framesOf wire) s := fun s hc => by
    rw [hframes]
    exact hc.append _
  have hlast : ∀ s, CloseIn sent.toList s → CloseIn (framesOf wire) s := by
    intro s hc
    obtain ⟨f, hf, hk⟩ := hc
    rw [hframes]
    exact ⟨f, mem_append_right _ hf, hk⟩
  refine ⟨h.fault, ?_, ?_, ?_, h.theirs, h.once, h.mine, ?_, h.pending, ?_, h.peerClosed, ?_,
    h.back, ?_⟩
  · rw [frames, hframes, pairwise_append]
    refine ⟨h.silent, by cases sent <;> simp, fun f hf g hg hk => ?_⟩
    rcases hsent g (mem_toList.mp hg) with ⟨-, hz⟩ | ⟨queued, hq⟩
    · rw [hz]
      exact (hzero f hf hk).symm
    · intro he
      have hnone := h.gone f hf hk
      rw [← he, hq] at hnone
      cases hnone
  · intro f hf hk
    rw [frames, hframes] at hf
    rcases mem_append.mp hf with hf | hf
    · exact hnew _ (h.gone f hf hk)
    · exact hclose f (mem_toList.mp hf) hk
  · intro s state hs hc
    obtain ⟨hnone, hno⟩ := h.peerGone s state hs hc
    refine ⟨hnew s hnone, fun f hf => ?_⟩
    rw [frames, hframes] at hf
    rcases mem_append.mp hf with hf | hf
    · exact hno f hf
    · rcases hsent f (mem_toList.mp hf) with ⟨-, hz⟩ | ⟨queued, hq⟩
      · rw [hz]
        exact (h.theirs s state hs).2.2.1.symm
      · rintro rfl
        rw [hnone] at hq
        cases hq
  · intro s hs hne hlt
    rcases h.known s hs hne hlt with ⟨queued, hq⟩ | hc | hp
    · rcases hkept s queued hq with ⟨queued', hq', -⟩ | hc
      · exact .inl ⟨queued', hq'⟩
      · exact .inr (.inl (hlast s hc))
    · exact .inr (.inl (hmore s hc))
    · exact .inr (.inr hp)
  · intro s state hs hc queued' hq'
    cases hq : p.writer.streams.lookup s with
    | none =>
      have hgone : w.streams.lookup s = none := hnew s hq
      rw [hgone] at hq'
      cases hq'
    | some queued =>
      rcases hkept s queued hq with ⟨queued'', hq'', hclosing⟩ | ⟨f, hf, hk, rfl⟩
      · obtain rfl := some.inj (hq'.symm.trans hq'')
        exact hclosing (h.weClosed s state hs hc queued hq)
      · rw [hclose f (mem_toList.mp hf) hk] at hq'
        cases hq'
  · intro s state hs
    refine (h.held s state hs).imp_right fun hor => ⟨hor.1, ?_⟩
    rcases hor.2 with ⟨queued, hq, hclosing⟩ | hc
    · rcases hkept s queued hq with ⟨queued', hq', hc'⟩ | hc
      · exact .inl ⟨queued', hq', hc' hclosing⟩
      · exact .inr (hlast s hc)
    · exact .inr (hmore s hc)
  · intro t ht hpos hlt
    obtain ⟨counted, hlen, hun, hrest⟩ := h.room t ht hpos hlt
    refine ⟨counted, hlen, hun, fun s state hs hnot => ?_⟩
    obtain ⟨hwe, hfirst⟩ := hrest s state hs hnot
    refine ⟨hwe, ?_⟩
    rw [frames, hframes]
    exact hfirst.append _

theorem Balanced.unmoved (h : Balanced role p) {w : Writer} (hw : w.streams = p.writer.streams)
    (hzero : ∀ f ∈ p.frames, f.kind = .close → f.stream ≠ 0) :
    Balanced role { p with writer := w } := by
  refine h.forward p.wire none (by simp [frames]) (fun s hs => ?_)
    (fun s queued hq => .inl ⟨queued, ?_, id⟩) nofun nofun hzero
  · rw [hw]
    exact hs
  · rw [hw]
    exact hq

theorem Balanced.queue (h : Balanced role p) (s : StreamId) (kind : FrameType) (payload : Bytes)
    (hzero : ∀ f ∈ p.frames, f.kind = .close → f.stream ≠ 0) :
    Balanced role { p with writer := p.writer.queue s kind payload } := by
  cases hs : p.writer.streams.lookup s with
  | none =>
    rw [Writer.queue_of_none hs]
    exact h
  | some old =>
    have hq := Writer.queue_queues hs kind payload
    refine h.forward p.wire none (by simp [frames]) (fun s' hs' => ?_)
      (fun s' queued hqueued => .inl ?_) nofun nofun hzero
    · rw [hq.others s' fun he => by rw [he, hs] at hs'; cases hs']
      exact hs'
    · by_cases he : s' = s
      · subst he
        refine ⟨_, hq.state queued hqueued, fun hc => ?_⟩
        simp only [Writer.Stream.closing, any_append, Bool.or_eq_true] at hc ⊢
        exact .inl hc
      · exact ⟨queued, by rw [hq.others s' he]; exact hqueued, id⟩

theorem Balanced.grant (h : Balanced role p) (s : StreamId) (bytes : Nat)
    (hzero : ∀ f ∈ p.frames, f.kind = .close → f.stream ≠ 0) :
    Balanced role { p with writer := p.writer.grant s bytes } := by
  refine h.forward p.wire none (by simp [frames])
    (fun s' hs' => Writer.lookup_grant_none _ _ _ _ hs') (fun s' queued hqueued => .inl ?_)
    nofun nofun hzero
  obtain ⟨window, hw⟩ := Writer.lookup_grant p.writer s s' bytes hqueued
  exact ⟨_, hw, id⟩

theorem Balanced.reclass (h : Balanced role p) (hwf : p.writer.Wf) (s : StreamId) (cls : Class)
    (hzero : ∀ f ∈ p.frames, f.kind = .close → f.stream ≠ 0) :
    Balanced role { p with writer := p.writer.reclass s cls } := by
  cases hs : p.writer.streams.lookup s with
  | none =>
    refine h.unmoved ?_ hzero
    simp only [Writer.reclass, hs]
  | some old =>
    by_cases hcls : old.cls = cls
    · refine h.unmoved ?_ hzero
      simp only [Writer.reclass, hs, hcls, if_true]
    · obtain ⟨-, hlookup, -⟩ := Writer.reclass_moves hwf hs hcls
      refine h.forward p.wire none (by simp [frames]) (fun s' hs' => ?_)
        (fun s' queued hqueued => .inl ?_) (fun f hf => by cases hf) (fun f hf => by cases hf)
        hzero
      · rw [hlookup, if_neg fun he => by rw [he, hs] at hs'; cases hs']
        exact hs'
      · rw [hlookup]
        by_cases he : s' = s
        · subst he
          obtain rfl := some.inj (hs.symm.trans hqueued)
          exact ⟨_, if_pos rfl, id⟩
        · exact ⟨queued, by rw [if_neg he]; exact hqueued, id⟩

theorem Balanced.write (h : Balanced role p) (hwf : p.writer.Wf)
    (hzero : ∀ f ∈ p.frames, f.kind = .close → f.stream ≠ 0) : Balanced role p.write := by
  have hwrote := Writer.nextFrame_wrote hwf
  generalize hr : p.writer.nextFrame = r at hwrote
  cases hwrote with
  | nothing hw hk =>
    rw [write_of_none hr]
    exact h.unmoved hk.streams hzero
  | @link w message payload hw hk hd =>
    rw [write_of_some hr]
    have hstreams : w.streams = p.writer.streams := hk.streams
    refine h.forward _
      (some { kind := .link, fragment := false, stream := 0, payload := payload })
      (framesOf_append hd p.wire) (fun s hs => ?_) (fun s queued hq => .inl ⟨queued, ?_, id⟩)
      (fun f hf => .inl ?_) (fun f hf hc => ?_) hzero
    · rw [hstreams]
      exact hs
    · rw [hstreams]
      exact hq
    · obtain rfl := some.inj hf
      exact ⟨rfl, rfl⟩
    · obtain rfl := some.inj hf
      cases hc
  | @stream w message frame hw hd hs =>
    rw [write_of_some hr]
    obtain ⟨state, q, behind, hstate, hqueue, hkind, hafter⟩ := hs.head
    refine h.forward _ (some frame) (framesOf_append hd p.wire) (fun s hn => ?_)
      (fun s queued hq => ?_) (fun f hf => .inr ?_) (fun f hf hc => ?_) hzero
    · rw [hs.others s fun he => by rw [he, hstate] at hn; cases hn]
      exact hn
    · by_cases he : s = frame.stream
      · subst he
        obtain rfl := some.inj (hstate.symm.trans hq)
        rcases hafter with ⟨hc, -⟩ | ⟨hc, state', hstate', -, hrest⟩
        · exact .inr ⟨frame, by simp, hc, rfl⟩
        · -- the CLOSE is behind the head, if it is queued
          refine .inl ⟨state', hstate', fun hclosing => ?_⟩
          have hnot : ¬ q.kind = .close := fun hk => hc (hkind ▸ hk)
          have hbehind : (behind.any fun q => q.kind = .close) = true := by
            simpa [Writer.Stream.closing, hqueue, hnot] using hclosing
          rcases hrest with hrest | ⟨-, q', -, hrest⟩
          · rw [Writer.Stream.closing, hrest]
            exact hbehind
          · rw [Writer.Stream.closing, hrest, any_cons, hbehind, Bool.or_true]
      · exact .inl ⟨queued, by rw [hs.others s he]; exact hq, id⟩
    · obtain rfl := some.inj hf
      exact ⟨state, hstate⟩
    · obtain rfl := some.inj hf
      rcases hafter with ⟨-, hgone⟩ | ⟨hnot, -⟩
      · exact hgone
      · exact absurd hc hnot

end VibeField.Freeway.Peers
