import VibeField.Freeway.Delivery

/-!
# Every frame of an orderly end is accepted

No error that closes the link comes of the frames an end's writer emits, in the
order it emits them, where the end opens and moves its streams in an orderly way.
Without that, an OPEN may overtake one of a lower id that waits in another class, or
the CLOSE of a stream its own end has dropped.
-/

namespace VibeField.Freeway.Peers

open Option Dict

theorem faultAfter_of_kept {fault : Option MuxError} {result : Except MuxError Event}
    (h : ∀ e, result = .error e → e.closesLink = false) : faultAfter fault result = fault := by
  cases result with
  | ok _ => rfl
  | error e => simp [faultAfter, h e rfl]

/-- The peer takes the first message of the wire without a fault, and both ends stay
balanced. -/
def Accepts (role : Role) (p : Peers) (message : Bytes) (rest : List Bytes)
    (spec : Option StreamSpec) : Prop :=
  faultAfter p.fault (p.peer.receive message fun _ => spec).2 = none ∧
    Balanced role { p with peer := (p.peer.receive message fun _ => spec).1, wire := rest }

section Accepts

variable {role : Role} {p : Peers} {message : Bytes} {rest : List Bytes} {f : Frame}

theorem Balanced.accepts_link (h : Balanced role p) (hd : decode message = .ok f)
    (hframes : p.frames = f :: framesOf rest) (hk : f.kind = .link) (spec : Option StreamSpec) :
    Accepts role p message rest spec := by
  have hreceive : p.peer.receive message (fun _ => spec) = (p.peer, .ok (.link f.payload)) := by
    simp only [Mux.receive, hd, hk]
  unfold Accepts
  rw [hreceive]
  refine ⟨h.fault, h.arrived hframes rfl (fun s state hs => ⟨state, hs, rfl, rfl, .inl rfl⟩)
    fun hc => ?_⟩
  rw [hk] at hc
  cases hc

theorem Balanced.accepts_open (h : Balanced role p) (hrole : p.peer.role = role.other)
    (hd : decode message = .ok f) (hframes : p.frames = f :: framesOf rest) (hk : f.kind = .open)
    (hours : role.opens f.stream = true) (hne : f.stream ≠ 0)
    (habove : p.peer.peerHigh < f.stream) (hlt : f.stream < p.mux.nextOurs)
    (spec : Option StreamSpec) : Accepts role p message rest spec := by
  have hnot : ¬ (p.peer.ours f.stream || decide (f.stream ≤ p.peer.peerHigh)) = true := by
    rw [Mux.ours, hrole, Role.opens_other, hours]
    simpa using Nat.not_le.mpr habove
  -- the peer counts fewer streams than the limit, since none was closed behind this OPEN
  have hroom : ¬ p.peer.streams.len ≥ maxStreams := by
    obtain ⟨counted, hlen, -, hrest⟩ := h.room f.stream hours habove hlt
    refine Nat.not_le.mpr (Nat.lt_of_le_of_lt (len_le_of_subset fun s state hs => ?_) hlen)
    by_contra hout
    have hcf := (hrest s state hs hout).2
    rw [hframes] at hcf
    exact not_closesFirst_head hk hcf
  have hopened : ∀ m : Mux, m.peerHigh = f.stream →
      (∀ s state, m.streams.lookup s = some state → p.peer.streams.lookup s = some state ∨
        (s = f.stream ∧ state.ours = false ∧ state.weClosed = false ∧
          state.peerClosed = false)) →
      Balanced role { p with peer := m, wire := rest } := fun m hhigh hfrom =>
    h.opened hframes hk hours hne habove hlt hhigh hfrom
  unfold Accepts
  simp only [Mux.receive, hd, hk, Mux.peerOpen, if_neg hnot]
  cases spec with
  | none => exact ⟨h.fault, hopened _ rfl fun s state hs => .inl hs⟩
  | some accepted =>
    simp only [if_neg hroom]
    refine ⟨h.fault, hopened _ rfl fun s state hs => ?_⟩
    rw [lookup_insert] at hs
    split at hs
    · next he =>
      obtain rfl := some.inj hs
      exact .inr ⟨he, rfl, rfl, rfl⟩
    · exact .inl hs

theorem lookup_of_setStream {m : Mux} {id s : StreamId} {new state : Mux.Stream}
    (hs : (m.setStream id new).streams.lookup s = some state) :
    (s = id ∧ state = new) ∨ m.streams.lookup s = some state := by
  rw [Mux.setStream, lookup_insert] at hs
  split at hs
  · next he => exact .inl ⟨he, (some.inj hs).symm⟩
  · exact .inr hs

theorem Balanced.accepts_fragment (h : Balanced role p) (hframes : p.frames = f :: framesOf rest)
    {old : Mux.Stream} (hold : p.peer.streams.lookup f.stream = some old)
    (hopen : old.peerClosed = false) (hk : f.kind.fragments = true) :
    faultAfter p.fault (p.peer.onOpenStream old f).2 = none ∧
      Balanced role { p with peer := (p.peer.onOpenStream old f).1, wire := rest } := by
  obtain ⟨reassembly, hset, hkept⟩ :=
    Mux.onOpenStream_fragment hk hopen (h.theirs f.stream old hold).1
  refine ⟨(faultAfter_of_kept hkept).trans h.fault, ?_⟩
  rw [hset]
  refine h.arrived hframes rfl (fun s state hs => ?_) fun hc => ?_
  · rcases lookup_of_setStream hs with ⟨rfl, rfl⟩ | hs
    · exact ⟨old, hold, rfl, rfl, .inl rfl⟩
    · exact ⟨state, hs, rfl, rfl, .inl rfl⟩
  · rw [hc] at hk
    cases hk

theorem Balanced.accepts_close (h : Balanced role p) (hframes : p.frames = f :: framesOf rest)
    (hle : f.stream ≤ p.peer.peerHigh) {old : Mux.Stream}
    (hold : p.peer.streams.lookup f.stream = some old) (hopen : old.peerClosed = false)
    (hk : f.kind = .close) :
    faultAfter p.fault (p.peer.onOpenStream old f).2 = none ∧
      Balanced role { p with peer := (p.peer.onOpenStream old f).1, wire := rest } := by
  rw [Mux.onOpenStream_close hk hopen]
  refine ⟨h.fault, ?_⟩
  split
  · refine h.arrived hframes rfl (fun s state hs => ?_) fun _ => ⟨hle, fun state hs => ?_⟩
    · rw [Mux.forget, lookup_erase] at hs
      split at hs
      · cases hs
      · exact ⟨state, hs, rfl, rfl, .inl rfl⟩
    · rw [Mux.forget, lookup_erase, if_pos rfl] at hs
      cases hs
  · next hwe =>
    have hwe' : old.weClosed = false := Bool.eq_false_iff.mpr hwe
    refine h.arrived hframes rfl (fun s state hs => ?_) fun _ => ⟨hle, fun state hs => ?_⟩
    · rcases lookup_of_setStream hs with ⟨rfl, rfl⟩ | hs
      · exact ⟨old, hold, rfl, rfl, .inr ⟨hk, rfl, hwe'⟩⟩
      · exact ⟨state, hs, rfl, rfl, .inl rfl⟩
    · rw [Mux.setStream, lookup_insert, if_pos rfl] at hs
      obtain rfl := some.inj hs
      exact ⟨rfl, hwe'⟩

theorem Balanced.accepts_stream (h : Balanced role p) (hrole : p.peer.role = role.other)
    (hd : decode message = .ok f) (hframes : p.frames = f :: framesOf rest)
    (hk : f.kind.fragments = true ∨ f.kind = .close) (hours : role.opens f.stream = true)
    (hle : f.stream ≤ p.peer.peerHigh) (spec : Option StreamSpec) :
    Accepts role p message rest spec := by
  have hmem : f ∈ p.frames := hframes ▸ List.mem_cons_self
  have hnotLink : f.kind ≠ .link := fun hl => by simp [hl, FrameType.fragments] at hk
  have hnotOpen : f.kind ≠ .open := fun hl => by simp [hl, FrameType.fragments] at hk
  have hnamed : p.peer.named f.stream = true := by
    rw [Mux.named, Mux.ours, hrole, Role.opens_other, hours]
    simpa using hle
  unfold Accepts
  rw [Mux.receive_of_stream hd hnotLink hnotOpen, Mux.onStream]
  split
  · next hs =>
    rw [if_pos hnamed]
    refine ⟨h.fault, h.arrived hframes rfl (fun s state hs => ⟨state, hs, rfl, rfl, .inl rfl⟩)
      fun _ => ⟨hle, fun state hs' => ?_⟩⟩
    rw [hs] at hs'
    cases hs'
  · next old hold =>
    have hopen : old.peerClosed = false := Bool.eq_false_iff.mpr fun hc =>
      (h.peerGone f.stream old hold hc).2 f hmem rfl
    rcases hk with hk | hk
    · exact h.accepts_fragment hframes hold hopen hk
    · exact h.accepts_close hframes hle hold hopen hk

theorem Balanced.accepts (h : Balanced role p) (ho : Ordered role p)
    (hwire : p.wire = message :: rest) (spec : Option StreamSpec) :
    Accepts role p message rest spec := by
  obtain ⟨f, hd⟩ := ho.decoded message (hwire ▸ List.mem_cons_self)
  have hframes : p.frames = f :: framesOf rest := by rw [frames, hwire, framesOf_cons hd]
  have hmem : f ∈ p.frames := hframes ▸ List.mem_cons_self
  have hin := ho.inOrder
  rw [hframes] at hin
  rcases hin.1 with hk | ⟨hours, hne, ⟨hk, habove⟩ | ⟨hk, hle⟩⟩
  · exact h.accepts_link hd hframes hk spec
  · have hlt : f.stream < p.mux.nextOurs := by
      refine Nat.lt_of_le_of_lt (ho.inOrder.named hmem fun hl => ?_).2 ho.bound
      rw [hk] at hl
      cases hl
    exact h.accepts_open ho.peerRole hd hframes hk hours hne habove hlt spec
  · exact h.accepts_stream ho.peerRole hd hframes hk hours hle spec

end Accepts

/-! ## Whole runs -/

structure Sound (role : Role) (p : Peers) : Prop where
  ordered : Ordered role p
  balanced : Balanced role p

variable {role : Role} {p : Peers}

theorem Sound.close_ne_zero (h : Sound role p) {f : Frame}
    (hf : f ∈ p.frames) (hk : f.kind = .close) : f.stream ≠ 0 := by
  refine (h.ordered.inOrder.named hf fun hl => ?_).1
  rw [hk] at hl
  cases hl

theorem Sound.peerHigh_lt (h : Sound role p) :
    p.peer.peerHigh < 2 ^ 64 :=
  Nat.lt_of_le_of_lt h.ordered.inOrder.le_highAfter
    (Nat.lt_trans h.ordered.bound h.ordered.next.2.2)

theorem Ordered.send (h : Ordered role p) (kind : FrameType)
    (s : StreamId) (payload : Bytes) : Ordered role (p.send kind s payload) := by
  unfold Peers.send
  split
  · exact h.of_same rfl rfl (.refl _) (.refl _)
  · exact h

theorem Sound.next {p p' : Peers} {e : PeersEvent} (h : Sound role p)
    (hok : Orderly p e) (hs : p.next e = some p') : Sound role p' := by
  have ho := h.ordered
  have hb := h.balanced
  have hzero : ∀ f ∈ p.frames, f.kind = .close → f.stream ≠ 0 := fun f hf hk =>
    h.close_ne_zero hf hk
  cases e with
  | openStream spec cls payload =>
    simp only [Peers.next] at hs
    split at hs
    · next hroom =>
      obtain rfl := some.inj hs
      exact ⟨ho.openStream hok hroom, hb.openStream ho hok⟩
    · cases hs
  | queue s text payload =>
    obtain rfl := some.inj hs
    exact ⟨ho.queue s (.inl (by cases text <;> rfl)) payload, hb.queue s _ payload hzero⟩
  | reclass s cls =>
    obtain rfl := some.inj hs
    exact ⟨ho.reclass hok, hb.reclass ho.wf s cls hzero⟩
  | grant s bytes =>
    obtain rfl := some.inj hs
    exact ⟨ho.grant s bytes, hb.grant s bytes hzero⟩
  | close s payload =>
    obtain rfl := some.inj hs
    exact ⟨(ho.queue s (.inr rfl) payload).of_same rfl rfl (Mux.same_close _ _) (.refl _),
      hb.endStream s payload hzero⟩
  | link payload =>
    obtain rfl := some.inj hs
    refine ⟨ho.queueLink payload, ?_⟩
    unfold queueLink
    split
    · exact hb.unmoved rfl hzero
    · exact hb
  | acked delivered =>
    obtain rfl := some.inj hs
    exact ⟨ho.unmoved rfl rfl (ho.wf.congr rfl rfl rfl), hb.unmoved rfl hzero⟩
  | setCap bytes =>
    obtain rfl := some.inj hs
    exact ⟨ho.unmoved rfl rfl (ho.wf.congr rfl rfl rfl), hb.unmoved rfl hzero⟩
  | setFragmentBytes bytes =>
    obtain rfl := some.inj hs
    exact ⟨ho.unmoved rfl rfl (ho.wf.congr rfl rfl rfl), hb.unmoved rfl hzero⟩
  | write =>
    obtain rfl := some.inj hs
    exact ⟨ho.write, hb.write ho.wf hzero⟩
  | deliver spec =>
    refine ⟨ho.deliver hs, ?_⟩
    obtain ⟨message, rest, hwire, rfl⟩ := of_deliver hs
    obtain ⟨hfault, hmoved⟩ := hb.accepts ho hwire spec
    rw [hfault]
    rw [hb.fault] at hmoved
    exact hmoved
  | peerAnswers s payload =>
    simp only [Peers.next] at hs
    split at hs
    · next hopen =>
      obtain rfl := some.inj hs
      exact ⟨ho.send _ _ _, hb.peerAnswers payload h.peerHigh_lt hopen⟩
    · cases hs
  | peerCloses s payload =>
    simp only [Peers.next] at hs
    split at hs
    · next hopen =>
      obtain rfl := some.inj hs
      have hmoved : Ordered role { p with peer := p.peer.close s } :=
        ho.of_same rfl rfl (.refl _) (Mux.same_close _ _)
      exact ⟨hmoved.send _ _ _, hb.peerCloses payload h.peerHigh_lt hopen⟩
    · cases hs
  | peerRefuses s payload =>
    simp only [Peers.next] at hs
    split at hs
    · next hopen =>
      obtain rfl := some.inj hs
      have hmoved : Ordered role { p with peer := p.peer.forget s } :=
        ho.of_same rfl rfl (.refl _) (Mux.same_forget _ _)
      refine ⟨hmoved.send _ _ _, hb.peerRefuses payload h.peerHigh_lt ?_ hopen.2⟩
      have hours := hopen.1
      rw [Mux.ours, ho.peerRole, Role.opens_other] at hours
      simpa using hours
    · cases hs
  | read index =>
    refine ⟨?_, hb.read hs⟩
    simp only [Peers.next, Peers.read] at hs
    split at hs
    · cases hs
    · next message hm =>
      obtain rfl := some.inj hs
      obtain ⟨f, hd, -, -, -, hhonest⟩ := hb.back message (List.mem_of_getElem? hm)
      refine ho.of_same rfl rfl (Mux.same_receive hd (fun hopen => ?_) _) (.refl _)
      simp only [Honest, hopen] at hhonest
      rcases hhonest with hk | ⟨hk, -⟩ | ⟨hk, -⟩ <;> cases hk

theorem sound_of_reaches (h : (machine role).Reaches Orderly p) :
    Sound role p :=
  h.invariant ⟨ordered_start role, balanced_start role⟩ fun _ _ _ hp hok hs => hp.next hok hs

/-- No frame of an orderly end is an error that closes the link. -/
theorem accepted_of_orderly {role : Role} {p : Peers} (h : (machine role).Reaches Orderly p) :
    p.fault = none :=
  (sound_of_reaches h).balanced.fault

namespace Sample

def spec : StreamSpec where
  windowed := true
  messageBound := 8

def orderlyRun : List PeersEvent :=
  [.openStream spec .urgent [1], .openStream spec .live [2], .reclass 3 .bulk, .write, .write,
    .deliver (some spec), .peerAnswers 1 [], .read 0, .queue 1 true [104, 105],
    .queue 3 false [7], .write, .write, .deliver (some spec), .deliver none,
    .peerCloses 1 [], .read 0, .close 1 [], .write, .deliver none, .deliver none]

def overtakingRun : List PeersEvent :=
  [.openStream spec .bulk [1], .openStream spec .urgent [2], .write, .write,
    .deliver (some spec), .deliver (some spec)]

end Sample

instance (p : Peers) (e : PeersEvent) : Decidable (Orderly p e) :=
  inferInstanceAs (Decidable (p.orderly e = true))

/-- The first stream has come and gone, and the second is open at the peer. -/
theorem accepted_two_streams :
    ∃ p : Peers, p.wire = [] ∧ p.peer.peerHigh = 3 ∧ p.peer.streams.len = 1 ∧ p.fault = none := by
  obtain ⟨p, hreach, hp⟩ := Machine.exists_of_orderly_run (M := machine .dialer) Orderly
    (fun p => p.wire.isEmpty && p.peer.peerHigh == 3 && p.peer.streams.len == 1)
    Sample.orderlyRun (by decide)
  simp only [Bool.and_eq_true, List.isEmpty_iff, beq_iff_eq] at hp
  exact ⟨p, hp.1.1, hp.1.2, hp.2, accepted_of_orderly hreach⟩

/-- The urgent stream's OPEN goes first, and the bulk one's names a lower id. -/
theorem open_overtaken : ¬ ∀ p, (machine .dialer).Reachable p → p.fault = none := by
  intro hall
  obtain ⟨p, hreach, hp⟩ := Machine.exists_of_run (M := machine .dialer)
    (fun p => decide (p.fault = some (.badOpen 1))) Sample.overtakingRun (by decide)
  have hfault := of_decide_eq_true hp
  rw [hall p hreach] at hfault
  cases hfault

end VibeField.Freeway.Peers
