import VibeField.Freeway.Peers

/-!
# OPENs arrive in the order of their ids

The frames in flight fit the peer's mux one after the other: an OPEN names an id
above every earlier one, and any other frame an id already named.  What is still
queued continues them, because the writer never lets an OPEN overtake one of a lower
id where the end is orderly.
-/

namespace VibeField.Freeway.Peers

open List Option
open Writer (Unopened Before Wf)

def framesOf (wire : List Bytes) : List Frame := wire.filterMap fun m => (decode m).toOption

def frames (p : Peers) : List Frame := framesOf p.wire

variable {cls : Class} {f : Frame} {p : Peers} {role : Role}

theorem framesOf_cons {m : Bytes} (h : decode m = .ok f) (rest : List Bytes) :
    framesOf (m :: rest) = f :: framesOf rest := by
  rw [framesOf, filterMap_cons_some (b := f) (by rw [h]; rfl)]
  rfl

theorem framesOf_append {m : Bytes} (h : decode m = .ok f) (wire : List Bytes) :
    framesOf (wire ++ [m]) = framesOf wire ++ [f] := by
  rw [framesOf, filterMap_append]
  congr 1
  exact framesOf_cons h []

def nextHigh (h : Nat) (f : Frame) : Nat := if f.kind = .open then f.stream else h

def highAfter (h : Nat) (fs : List Frame) : Nat := fs.foldl nextHigh h

/-- The frame is one the end may send when the highest id named is `h`. -/
def Fits (role : Role) (h : Nat) (f : Frame) : Prop :=
  f.kind = .link ∨
    (role.opens f.stream = true ∧ f.stream ≠ 0 ∧
      ((f.kind = .open ∧ h < f.stream) ∨
        ((f.kind.fragments = true ∨ f.kind = .close) ∧ f.stream ≤ h)))

def InOrder (role : Role) : Nat → List Frame → Prop
  | _, [] => True
  | h, f :: fs => Fits role h f ∧ InOrder role (nextHigh h f) fs

theorem inOrder_append :
    ∀ {fs : List Frame} {h : Nat}, InOrder role h fs → Fits role (highAfter h fs) f →
      InOrder role h (fs ++ [f])
  | [], _, _, hf => ⟨hf, trivial⟩
  | _ :: _, _, hfs, hf => ⟨hfs.1, inOrder_append hfs.2 hf⟩

theorem highAfter_append (h : Nat) (fs : List Frame) (f : Frame) :
    highAfter h (fs ++ [f]) = nextHigh (highAfter h fs) f := foldl_append

theorem Fits.le_nextHigh {h : Nat} (hf : Fits role h f) : h ≤ nextHigh h f := by
  unfold nextHigh
  split
  · next ho =>
    rcases hf with hl | ⟨-, -, ⟨-, habove⟩ | ⟨hk, -⟩⟩
    · rw [ho] at hl
      cases hl
    · exact Nat.le_of_lt habove
    · rw [ho] at hk
      rcases hk with hk | hk <;> cases hk
  · exact Nat.le_refl _

theorem InOrder.le_highAfter :
    ∀ {fs : List Frame} {h : Nat}, InOrder role h fs → h ≤ highAfter h fs
  | [], _, _ => Nat.le_refl _
  | _ :: _, _, hfs => Nat.le_trans hfs.1.le_nextHigh hfs.2.le_highAfter

theorem InOrder.named :
    ∀ {fs : List Frame} {h : Nat}, InOrder role h fs → f ∈ fs → f.kind ≠ .link →
      f.stream ≠ 0 ∧ f.stream ≤ highAfter h fs
  | g :: fs, h, hfs, hf, hk => by
    rcases mem_cons.mp hf with rfl | hf
    · obtain ⟨-, hne, hor⟩ := hfs.1.resolve_left hk
      refine ⟨hne, Nat.le_trans ?_ hfs.2.le_highAfter⟩
      unfold nextHigh
      split
      · exact Nat.le_refl _
      · next ho => exact (hor.resolve_left fun hopen => ho hopen.1).2
    · exact hfs.2.named hf hk

def high (p : Peers) : Nat := highAfter p.peer.peerHigh p.frames

structure Ordered (role : Role) (p : Peers) : Prop where
  ourRole : p.mux.role = role
  peerRole : p.peer.role = role.other
  wf : p.writer.Wf
  next : role.opens p.mux.nextOurs = true ∧ p.mux.nextOurs ≠ 0 ∧ p.mux.nextOurs < 2 ^ 64
  decoded : ∀ m ∈ p.wire, ∃ f, decode m = .ok f
  ids : ∀ s state, p.writer.streams.lookup s = some state →
    role.opens s = true ∧ s < p.mux.nextOurs
  inOrder : InOrder role p.peer.peerHigh p.frames
  above : ∀ s, Unopened p.writer s → p.high < s
  below : ∀ s state, p.writer.streams.lookup s = some state → state.unopened = false →
    s ≤ p.high
  order : ∀ t s, t < s → Unopened p.writer t → Unopened p.writer s → Before p.writer t s
  bound : p.high < p.mux.nextOurs

theorem ordered_start (role : Role) : Ordered role (start role) := by
  refine ⟨rfl, rfl, ⟨fun cls => nodup_nil, fun cls s => ?_, nofun, nofun, nofun⟩, ?_, nofun,
    nofun, trivial, ?_, nofun, ?_, ?_⟩
  · constructor
    · intro hmem
      exact absurd hmem not_mem_nil
    · rintro ⟨state, hs, -⟩
      cases hs
  · cases role <;> decide
  · rintro s ⟨state, hs, -⟩
    cases hs
  · rintro t s - ⟨state, hs, -⟩
    cases hs
  · cases role <;> decide

theorem Ordered.moved (h : Ordered role p) {w : Writer} (hw : w.Wf)
    (hdom : ∀ s state, w.streams.lookup s = some state → ∃ old,
      p.writer.streams.lookup s = some old ∧ state.unopened = old.unopened)
    (horder : ∀ t s, t < s → Unopened w t → Unopened w s → Before p.writer t s → Before w t s) :
    Ordered role { p with writer := w } := by
  have hunopened : ∀ s, Unopened w s → Unopened p.writer s := by
    rintro s ⟨state, hs, hu⟩
    obtain ⟨old, hold, he⟩ := hdom s state hs
    exact ⟨old, hold, he ▸ hu⟩
  refine ⟨h.ourRole, h.peerRole, hw, h.next, h.decoded, fun s state hs => ?_, h.inOrder,
    fun s hs => h.above s (hunopened s hs), fun s state hs hu => ?_,
    fun t s hlt ht hs => horder t s hlt ht hs (h.order t s hlt (hunopened t ht) (hunopened s hs)),
    h.bound⟩
  · obtain ⟨old, hold, -⟩ := hdom s state hs
    exact h.ids s old hold
  · obtain ⟨old, hold, he⟩ := hdom s state hs
    exact h.below s old hold (he ▸ hu)

theorem Ordered.of_same {p p' : Peers} (h : Ordered role p) (hw : p'.writer = p.writer)
    (hwire : p'.wire = p.wire) (hmux : Mux.Same p.mux p'.mux) (hpeer : Mux.Same p.peer p'.peer) :
    Ordered role p' := by
  have hframes : p'.frames = p.frames := congrArg framesOf hwire
  have hhigh : p'.high = p.high := by rw [high, high, hframes, hpeer.peerHigh]
  constructor
  · rw [hmux.role]; exact h.ourRole
  · rw [hpeer.role]; exact h.peerRole
  · rw [hw]; exact h.wf
  · rw [hmux.nextOurs]; exact h.next
  · rw [hwire]; exact h.decoded
  · rw [hw, hmux.nextOurs]; exact h.ids
  · rw [hframes, hpeer.peerHigh]; exact h.inOrder
  · rw [hw, hhigh]; exact h.above
  · rw [hw, hhigh]; exact h.below
  · rw [hw]; exact h.order
  · rw [hhigh, hmux.nextOurs]; exact h.bound

/-! ## One event -/

theorem Ordered.queue (h : Ordered role p) (s : StreamId) {kind : FrameType}
    (hk : kind.fragments = true ∨ kind = .close) (payload : Bytes) :
    Ordered role { p with writer := p.writer.queue s kind payload } := by
  cases hs : p.writer.streams.lookup s with
  | none =>
    rw [Writer.queue_of_none hs]
    exact h
  | some old =>
    have hq := Writer.queue_queues hs kind payload
    have hopen : kind ≠ .open := by
      rintro rfl
      rcases hk with hk | hk <;> cases hk
    refine h.moved (h.wf.queue hs ((h.wf.shaped s old hs).append hk)) (fun s' state hs' => ?_)
      fun t u _ _ _ hb => hq.before hs hb
    by_cases he : s' = s
    · subst he
      rw [hq.state old hs] at hs'
      obtain rfl := some.inj hs'
      exact ⟨old, hs, Writer.Stream.unopened_append hopen⟩
    · rw [hq.others s' he] at hs'
      exact ⟨state, hs', rfl⟩

theorem Ordered.grant (h : Ordered role p) (s : StreamId) (bytes : Nat) :
    Ordered role { p with writer := p.writer.grant s bytes } := by
  refine h.moved (h.wf.grant s bytes) (fun s' state hs' => ?_) fun t u _ _ _ hb => ?_
  · cases hold : p.writer.streams.lookup s' with
    | none =>
      rw [Writer.lookup_grant_none _ _ _ _ hold] at hs'
      cases hs'
    | some old =>
      obtain ⟨window, hw⟩ := Writer.lookup_grant p.writer s s' bytes hold
      obtain rfl := some.inj (hs'.symm.trans hw)
      exact ⟨old, rfl, rfl⟩
  · refine hb.transport (fun x _ old hold => ?_) fun cls ha => ?_
    · obtain ⟨window, hw⟩ := Writer.lookup_grant p.writer s x bytes hold
      exact ⟨_, hw, rfl⟩
    · rw [Writer.rings_grant]
      exact ha

theorem Ordered.unmoved (h : Ordered role p) {w : Writer} (hs : w.streams = p.writer.streams)
    (hr : w.rings = p.writer.rings) (hw : w.Wf) : Ordered role { p with writer := w } := by
  refine h.moved hw (fun s state hst => ⟨state, by rw [← hs]; exact hst, rfl⟩)
    fun t s _ _ _ hb => ?_
  unfold Before
  rw [hs, hr]
  exact hb

theorem Ordered.queueLink (h : Ordered role p) (payload : Bytes) :
    Ordered role (p.queueLink payload) := by
  unfold Peers.queueLink
  split
  · next message he =>
    refine h.unmoved rfl rfl ⟨h.wf.nodup, h.wf.mem, h.wf.shaped, h.wf.ids, fun m hm => ?_⟩
    rcases mem_snoc.mp hm with hm | rfl
    · exact h.wf.links m hm
    · exact ⟨payload, decode_encode (Nat.two_pow_pos 64) he⟩
  · exact h

theorem drainsFirst_iff {first second : Class} :
    drainsFirst first second = true ↔
      (first = .urgent ∧ second ≠ .urgent) ∨ first = second := by
  cases first <;> cases second <;> decide

theorem orderly_reclass {s t : StreamId} {old st : Writer.Stream}
    (hok : p.orderly (.reclass s cls) = true) (hs : p.writer.streams.lookup s = some old)
    (hu : old.unopened = true) (hcls : old.cls ≠ cls) (ht : p.writer.streams.lookup t = some st)
    (htu : st.unopened = true) :
    (t < s → drainsFirst st.cls cls = true) ∧
      (s < t → cls = .urgent ∧ st.cls ≠ .urgent) := by
  have hall := List.all_eq_true.mp hok (s, old.cls) (mem_unopened.mpr ⟨old, hs, hu, rfl⟩)
  simp only [ne_eq, not_true, decide_false, Bool.false_or, Bool.or_eq_true, beq_iff_eq, hcls,
    false_or] at hall
  have hpair := List.all_eq_true.mp hall (t, st.cls) (mem_unopened.mpr ⟨st, ht, htu, rfl⟩)
  refine ⟨fun hlt => ?_, fun hlt => ?_⟩
  · simpa only [hlt, if_true] using hpair
  · have hne : t ≠ s := Nat.ne_of_gt hlt
    simpa only [Nat.not_lt.mpr (Nat.le_of_lt hlt), if_false, Bool.or_eq_true, decide_eq_true_eq,
      hne, false_or, Bool.and_eq_true, beq_iff_eq, bne_iff_ne, ne_eq] using hpair

theorem Ordered.reclass (h : Ordered role p) {s : StreamId}
    (hok : p.orderly (.reclass s cls) = true) :
    Ordered role { p with writer := p.writer.reclass s cls } := by
  cases hs : p.writer.streams.lookup s with
  | none =>
    have hsame : p.writer.reclass s cls = p.writer := by
      unfold Writer.reclass
      rw [hs]
    rw [hsame]
    exact h
  | some old =>
    by_cases hcls : old.cls = cls
    · have hsame : p.writer.reclass s cls = p.writer := by
        unfold Writer.reclass
        rw [hs]
        exact if_pos hcls
      rw [hsame]
      exact h
    obtain ⟨hwf, hlookup, hrings⟩ := Writer.reclass_moves h.wf hs hcls
    have hdom : ∀ s' state, (p.writer.reclass s cls).streams.lookup s' = some state → ∃ old,
        p.writer.streams.lookup s' = some old ∧ state.unopened = old.unopened := by
      intro s' state hs'
      rw [hlookup] at hs'
      split at hs'
      · next he =>
        obtain rfl := some.inj hs'
        exact ⟨old, he ▸ hs, rfl⟩
      · exact ⟨state, hs', rfl⟩
    have hold : Unopened (p.writer.reclass s cls) s → old.unopened = true := by
      rintro ⟨st, hst, hu⟩
      obtain ⟨old', hold', hou⟩ := hdom s st hst
      obtain rfl := some.inj (hs.symm.trans hold')
      exact hou ▸ hu
    have hat : (p.writer.reclass s cls).streams.lookup s = some { old with cls := cls } := by
      rw [hlookup, if_pos rfl]
    refine h.moved hwf hdom fun t u hlt ht hu hb => ?_
    -- the pairs without the moved stream keep their order, the others are what is asked
    by_cases hts : t = s
    · subst hts
      obtain ⟨su, hsu, hsuu⟩ := hu
      have hsu' := hsu
      rw [hlookup, if_neg (Nat.ne_of_gt hlt)] at hsu'
      exact ⟨{ old with cls := cls }, su, hat, hsu,
        .inl ((orderly_reclass hok hs (hold ht) hcls hsu' hsuu).2 hlt)⟩
    · by_cases hus : u = s
      · subst hus
        obtain ⟨st, hst, hstu⟩ := ht
        have hst' := hst
        rw [hlookup, if_neg hts] at hst'
        have hpair := (orderly_reclass hok hs (hold hu) hcls hst' hstu).1 hlt
        refine ⟨st, { old with cls := cls }, hst, hat,
          (drainsFirst_iff.mp hpair).imp_right fun hsame => ⟨hsame, ?_⟩⟩
        have hne : old.queue ≠ [] := Writer.Stream.queue_of_unopened (hold hu)
        rw [hrings, if_neg hne, if_pos hsame]
        exact Ahead.of_mem (h.wf.mem_of_unopened hst' hstu) u
      · refine hb.transport (fun x hx state hstate => ?_) fun cls' ha => ?_
        · have hxs : x ≠ s := by rcases hx with rfl | rfl <;> assumption
          exact ⟨state, by rw [hlookup, if_neg hxs]; exact hstate, rfl⟩
        · rw [hrings]
          split
          · exact ha
          · split
            · exact ha.join s
            · exact ha.erase hts hus

theorem Ordered.fresh (h : Ordered role p) : p.writer.streams.lookup p.mux.nextOurs = none := by
  cases hs : p.writer.streams.lookup p.mux.nextOurs with
  | none => rfl
  | some state => exact absurd (h.ids _ state hs).2 (Nat.lt_irrefl _)

theorem opens_add_two (role : Role) (s : StreamId) : role.opens (s + 2) = role.opens s := by
  unfold Role.opens
  rw [Nat.add_mod_right]

theorem Ordered.openStream (h : Ordered role p) {spec : StreamSpec} {payload : Bytes}
    (hok : p.orderly (.openStream spec cls payload) = true) (hnext : p.mux.nextOurs + 2 < 2 ^ 64) :
    Ordered role (p.openStream spec cls payload) := by
  by_cases hfull : p.mux.streams.len ≥ maxStreams
  · rw [openStream_of_full hfull]
    exact h
  · rw [openStream_of_room hfull]
    have hfresh := h.fresh
    obtain ⟨hours, hne, hlt⟩ := h.next
    have hbegun := Writer.begun h.wf hfresh ⟨hne, hlt⟩ cls spec.windowed payload
    have hunopened := hbegun.unopened hfresh
    refine ⟨h.ourRole, h.peerRole, hbegun.wf,
      ⟨by rw [opens_add_two]; exact hours, Nat.succ_ne_zero _, hnext⟩, h.decoded,
      fun s state hs => ?_, h.inOrder, fun s hs => ?_, fun s state hs hu => ?_,
      fun t s hlt ht hs => ?_, Nat.lt_add_right 2 h.bound⟩
    · by_cases he : s = p.mux.nextOurs
      · exact ⟨he ▸ hours, he ▸ Nat.lt_add_of_pos_right (by decide)⟩
      · rw [hbegun.others s he] at hs
        exact ⟨(h.ids s state hs).1, Nat.lt_add_right 2 (h.ids s state hs).2⟩
    · rcases (hunopened s).mp hs with rfl | hs
      · exact h.bound
      · exact h.above s hs
    · by_cases he : s = p.mux.nextOurs
      · subst he
        obtain ⟨new, hnew, -, hnu⟩ := hbegun.state
        obtain rfl := some.inj (hs.symm.trans hnew)
        rw [hu] at hnu
        cases hnu
      · rw [hbegun.others s he] at hs
        exact h.below s state hs hu
    · rcases (hunopened t).mp ht with rfl | ht
      · rcases (hunopened s).mp hs with rfl | ⟨state, hstate, -⟩
        · exact absurd hlt (Nat.lt_irrefl _)
        · exact absurd (h.ids s state hstate).2 (Nat.lt_asymm hlt)
      · rcases (hunopened s).mp hs with rfl | hs
        · -- the newcomer goes behind every stream that is still unopened
          obtain ⟨state, hstate, hu⟩ := ht
          have hdrains := (orderly_openStream hfull hok).1 (t, state.cls)
            (mem_unopened.mpr ⟨state, hstate, hu, rfl⟩)
          exact hbegun.before_new h.wf (Nat.ne_of_lt hlt) hstate hu (drainsFirst_iff.mp hdrains)
        · exact hbegun.before hfresh (h.order t s hlt ht hs)

section Write

variable {role : Role} {p : Peers} {w : Writer} {message : Bytes} {frame : Frame}

theorem Ordered.kept (h : Ordered role p) (hw : w.Wf) {l : List Bytes}
    (hk : Writer.Kept { p.writer with link := l } w) : Ordered role { p with writer := w } := by
  refine h.moved hw (fun s state hs => ?_) fun t s _ ht _ hb => ?_
  · rw [hk.streams] at hs
    exact ⟨state, hs, rfl⟩
  · exact hk.before (hk.unopened.mp ht) hb

theorem high_wrote (hd : decode message = .ok frame) :
    ({ p with writer := w, wire := p.wire ++ [message] } : Peers).high =
      nextHigh p.high frame := by
  rw [high, frames, framesOf_append hd, highAfter_append]
  rfl

theorem Ordered.wrote (h : Ordered role p) (hd : decode message = .ok frame)
    (hfits : Fits role p.high frame) :
    (∀ m ∈ p.wire ++ [message], ∃ f, decode m = .ok f) ∧
      InOrder role p.peer.peerHigh
        ({ p with writer := w, wire := p.wire ++ [message] } : Peers).frames := by
  refine ⟨fun m hm => ?_, ?_⟩
  · rcases mem_snoc.mp hm with hm | hm
    · exact h.decoded m hm
    · exact ⟨_, hm ▸ hd⟩
  · rw [frames, framesOf_append hd]
    exact inOrder_append h.inOrder hfits

theorem Ordered.wroteLink (h : Ordered role p) (hw : w.Wf) {l : List Bytes}
    (hk : Writer.Kept { p.writer with link := l } w) (hd : decode message = .ok frame)
    (hlink : frame.kind = .link) :
    Ordered role { p with writer := w, wire := p.wire ++ [message] } := by
  have hmoved := h.kept hw hk
  obtain ⟨hdecoded, hin⟩ := h.wrote (w := w) hd (.inl hlink)
  have hhigh : ({ p with writer := w, wire := p.wire ++ [message] } : Peers).high = p.high := by
    rw [high_wrote hd, nextHigh, if_neg (by rw [hlink]; exact FrameType.noConfusion)]
  exact ⟨hmoved.ourRole, hmoved.peerRole, hw, hmoved.next, hdecoded, hmoved.ids, hin,
    hhigh ▸ hmoved.above, hhigh ▸ hmoved.below, hmoved.order, hhigh ▸ h.bound⟩

theorem Ordered.sent (h : Ordered role p) (hs : Writer.Sent p.writer w frame) :
    ∃ state, p.writer.streams.lookup frame.stream = some state ∧
      (frame.kind = .open ↔ state.unopened = true) ∧ Fits role p.high frame := by
  obtain ⟨state, q, behind, hstate, hqueue, hkind, -⟩ := hs.head
  have hopen : frame.kind = .open ↔ state.unopened = true := by
    simp [Writer.Stream.unopened, hqueue, hkind]
  have hkinds := (h.wf.shaped _ state hstate).kinds q (hqueue ▸ mem_cons_self)
  rw [hkind] at hkinds
  refine ⟨state, hstate, hopen, .inr ⟨(h.ids _ state hstate).1, (h.wf.ids _ state hstate).1, ?_⟩⟩
  by_cases ho : frame.kind = .open
  · exact .inl ⟨ho, h.above _ ⟨state, hstate, hopen.mp ho⟩⟩
  · exact .inr ⟨hkinds.resolve_left ho,
      h.below _ state hstate (Bool.eq_false_iff.mpr fun hu => ho (hopen.mpr hu))⟩

theorem Ordered.wroteStream (h : Ordered role p) (hw : w.Wf) (hd : decode message = .ok frame)
    (hs : Writer.Sent p.writer w frame) :
    Ordered role { p with writer := w, wire := p.wire ++ [message] } := by
  obtain ⟨state, hstate, hopen, hfits⟩ := h.sent hs
  obtain ⟨hdecoded, hin⟩ := h.wrote (w := w) hd hfits
  have hids := h.ids _ state hstate
  have hhigh := high_wrote (p := p) (w := w) hd
  refine ⟨h.ourRole, h.peerRole, hw, h.next, hdecoded, fun s st hst => ?_, hin,
    fun s hs' => ?_, fun s st hst hu => ?_, fun t s hlt ht hs' => ?_, ?_⟩
  · by_cases he : s = frame.stream
    · exact he ▸ hids
    · rw [hs.others s he] at hst
      exact h.ids s st hst
  · -- an OPEN that went out was the least of those queued
    obtain ⟨hu, hne⟩ := hs.unopened hs'
    have habove := h.above s hu
    rw [hhigh]
    unfold nextHigh
    split
    · next ho =>
      by_contra hnot
      have hlt : s < frame.stream := Nat.lt_of_le_of_ne (Nat.le_of_not_lt hnot) hne
      exact hs.first s hne hu (h.order s _ hlt hu ⟨state, hstate, hopen.mp ho⟩)
    · exact habove
  · rw [hhigh]
    by_cases he : s = frame.stream
    · subst he
      unfold nextHigh
      split
      · exact Nat.le_refl _
      · next ho =>
        exact h.below _ state hstate (Bool.eq_false_iff.mpr fun hu' => ho (hopen.mpr hu'))
    · rw [hs.others s he] at hst
      exact Nat.le_trans (h.below s st hst hu) hfits.le_nextHigh
  · exact hs.before t s ht hs' (h.order t s hlt (hs.unopened ht).1 (hs.unopened hs').1)
  · rw [hhigh]
    unfold nextHigh
    split
    · exact hids.2
    · exact h.bound

theorem Ordered.write (h : Ordered role p) : Ordered role p.write := by
  have hwrote := Writer.nextFrame_wrote h.wf
  generalize hr : p.writer.nextFrame = r at hwrote
  cases hwrote with
  | nothing hw hk =>
    rw [write_of_none hr]
    exact h.kept hw hk
  | link hw hk hd =>
    rw [write_of_some hr]
    exact h.wroteLink hw hk hd rfl
  | stream hw hd hs =>
    rw [write_of_some hr]
    exact h.wroteStream hw hd hs

end Write

theorem receive_fits {role : Role} {m : Mux} (hrole : m.role = role.other) {message : Bytes}
    {f : Frame} (hd : decode message = .ok f) (hfits : Fits role m.peerHigh f)
    (spec : Option StreamSpec) :
    (m.receive message fun _ => spec).1.role = m.role ∧
      (m.receive message fun _ => spec).1.peerHigh = nextHigh m.peerHigh f := by
  by_cases ho : f.kind = .open
  · have hopen : role.opens f.stream = true ∧ m.peerHigh < f.stream := by
      rcases hfits with hl | ⟨hours, -, ⟨-, habove⟩ | ⟨hk, -⟩⟩
      · rw [hl] at ho
        cases ho
      · exact ⟨hours, habove⟩
      · rw [ho] at hk
        rcases hk with hk | hk <;> cases hk
    have hours : m.ours f.stream = false := by
      rw [Mux.ours, hrole, Role.opens_other, hopen.1]
      rfl
    have hnamed := Mux.peerOpen_named hours hopen.2 spec
    rw [nextHigh, if_pos ho]
    simp only [Mux.receive, hd, ho]
    exact ⟨hnamed.1, hnamed.2.2⟩
  · have hsame := Mux.same_receive (m := m) hd ho fun _ => spec
    rw [nextHigh, if_neg ho]
    exact ⟨hsame.role, hsame.peerHigh⟩

theorem Ordered.deliver {role : Role} {p p' : Peers} (h : Ordered role p)
    {spec : Option StreamSpec} (hs : p.deliver spec = some p') : Ordered role p' := by
  obtain ⟨message, rest, hwire, rfl⟩ := of_deliver hs
  obtain ⟨f, hd⟩ := h.decoded message (hwire ▸ mem_cons_self)
  have hframes : p.frames = f :: framesOf rest := by rw [frames, hwire, framesOf_cons hd]
  have hin := h.inOrder
  rw [hframes] at hin
  obtain ⟨hfits, hrest⟩ := hin
  obtain ⟨hrole, hhigh⟩ := receive_fits h.peerRole hd hfits spec
  generalize p.peer.receive message (fun _ => spec) = r at *
  have hsame : ({ p with
      peer := r.1
      wire := rest
      fault := faultAfter p.fault r.2 } : Peers).high = p.high := by
    rw [high, high, hframes, hhigh]
    rfl
  refine ⟨h.ourRole, hrole.trans h.peerRole, h.wf, h.next,
    fun m hm => h.decoded m (hwire ▸ mem_cons_of_mem _ hm), h.ids, ?_, hsame ▸ h.above,
    hsame ▸ h.below, h.order, hsame ▸ h.bound⟩
  rw [hhigh]
  exact hrest

end VibeField.Freeway.Peers
