import VibeField.Freeway.Room

/-!
# Streams come and go at both ends

How a stream's two records move: this end opens and closes it and reads the peer's
answers, the peer receives its frames and answers, closes or refuses it.  Each move
leaves room for every OPEN still to come.
-/

namespace VibeField.Freeway.Peers

open List Option Dict

/-! ## This end's streams -/

variable {f : Frame} {m : Mux} {p : Peers} {role : Role} {s : StreamId}

theorem Balanced.underway (h : Balanced role p) {state : Mux.Stream}
    (hs : p.mux.streams.lookup s = some state)
    (hclosing : ∀ queued, p.writer.streams.lookup s = some queued → queued.closing = true)
    {state' : Mux.Stream} (hs' : p.peer.streams.lookup s = some state')
    (hwe : state'.weClosed = true) :
    (∃ queued, p.writer.streams.lookup s = some queued ∧ queued.closing = true) ∨
      CloseIn p.frames s := by
  obtain ⟨hours, hne, hlt⟩ := h.mine s state hs
  rcases h.known s hours hne hlt with ⟨queued, hq⟩ | hc | ⟨-, hclosed⟩
  · exact .inl ⟨queued, hq, hclosing queued hq⟩
  · exact .inr hc
  · have hopen := h.once s state' hs' hwe
    rw [hclosed state' hs'] at hopen
    cases hopen

theorem Balanced.muxMoved (h : Balanced role p)
    (hnext : m.nextOurs = p.mux.nextOurs)
    (hfrom : ∀ s state, m.streams.lookup s = some state → ∃ old,
      p.mux.streams.lookup s = some old ∧
      (state.weClosed = old.weClosed ∨
        ∀ queued, p.writer.streams.lookup s = some queued → queued.closing = true) ∧
      (state.peerClosed = old.peerClosed ∨
        (s ≤ p.peer.peerHigh ∧ ∀ state', p.peer.streams.lookup s = some state' →
          state'.weClosed = true)))
    (hto : ∀ s old, p.mux.streams.lookup s = some old →
      (∃ state, m.streams.lookup s = some state) ∨
      (s ≤ p.peer.peerHigh ∧ ∀ state', p.peer.streams.lookup s = some state' →
        state'.weClosed = true ∧
          ((∃ queued, p.writer.streams.lookup s = some queued ∧ queued.closing = true) ∨
            CloseIn p.frames s))) :
    Balanced role { p with mux := m } := by
  refine ⟨h.fault, h.silent, h.gone, h.peerGone, h.theirs, h.once, fun s state hs => ?_,
    hnext ▸ h.known, fun s hs hpos hlt => ?_, fun s state hs hc => ?_, fun s state hs hc => ?_,
    fun s state hs => ?_, h.back, hnext ▸ h.room⟩
  · obtain ⟨old, hold, -⟩ := hfrom s state hs
    rw [hnext]
    exact h.mine s old hold
  · obtain ⟨old, hold, hopen⟩ := h.pending s hs hpos (hnext ▸ hlt)
    have hnot : ¬ s ≤ p.peer.peerHigh := Nat.not_le.mpr hpos
    obtain ⟨state, hstate⟩ := (hto s old hold).resolve_right fun hgone => hnot hgone.1
    obtain ⟨old', hold', -, hclosed⟩ := hfrom s state hstate
    obtain rfl := some.inj (hold.symm.trans hold')
    exact ⟨state, hstate, (hclosed.resolve_right fun hp => hnot hp.1).trans hopen⟩
  · obtain ⟨old, hold, hwe, -⟩ := hfrom s state hs
    exact hwe.elim (fun he => h.weClosed s old hold (he ▸ hc)) id
  · obtain ⟨old, hold, -, hpeer⟩ := hfrom s state hs
    exact hpeer.elim (fun he => h.peerClosed s old hold (he ▸ hc)) id
  · rcases h.held s state hs with ⟨old, hold⟩ | hdone
    · exact (hto s old hold).imp_right fun hgone => hgone.2 state hs
    · exact .inr hdone

theorem Balanced.muxSet (h : Balanced role p)
    {old new : Mux.Stream} (hold : p.mux.streams.lookup s = some old)
    (hwe : new.weClosed = old.weClosed ∨
      ∀ queued, p.writer.streams.lookup s = some queued → queued.closing = true)
    (hpeer : new.peerClosed = old.peerClosed ∨
      (s ≤ p.peer.peerHigh ∧ ∀ state', p.peer.streams.lookup s = some state' →
        state'.weClosed = true)) :
    Balanced role { p with mux := p.mux.setStream s new } := by
  refine h.muxMoved rfl (fun t state ht => ?_) fun t state ht => .inl ?_
  · rw [Mux.setStream, lookup_insert] at ht
    split at ht
    · next he =>
      subst he
      obtain rfl := some.inj ht
      exact ⟨old, hold, hwe, hpeer⟩
    · exact ⟨state, ht, .inl rfl, .inl rfl⟩
  · rw [Mux.setStream, lookup_insert]
    split
    · exact ⟨new, rfl⟩
    · exact ⟨state, ht⟩

theorem Balanced.muxForget (h : Balanced role p)
    (hgone : s ≤ p.peer.peerHigh ∧ ∀ state', p.peer.streams.lookup s = some state' →
      state'.weClosed = true ∧
        ((∃ queued, p.writer.streams.lookup s = some queued ∧ queued.closing = true) ∨
          CloseIn p.frames s)) :
    Balanced role { p with mux := p.mux.forget s } := by
  refine h.muxMoved rfl (fun t state ht => ?_) fun t state ht => ?_
  · rw [Mux.forget, lookup_erase] at ht
    split at ht
    · cases ht
    · exact ⟨state, ht, .inl rfl, .inl rfl⟩
  · rw [Mux.forget, lookup_erase]
    split
    · next he => exact .inr (he ▸ hgone)
    · exact .inl ⟨state, ht⟩

theorem Balanced.close (h : Balanced role p)
    (hclosing : ∀ queued, p.writer.streams.lookup s = some queued → queued.closing = true) :
    Balanced role { p with mux := p.mux.close s } := by
  unfold Mux.close
  split
  · exact h
  · next old hold =>
    split
    · next hc =>
      obtain ⟨hle, hwe⟩ := h.peerClosed s old hold hc
      exact h.muxForget ⟨hle, fun state' hs' =>
        ⟨hwe state' hs', h.underway hold hclosing hs' (hwe state' hs')⟩⟩
    · exact h.muxSet hold (.inr hclosing) (.inl rfl)

theorem Balanced.endStream (h : Balanced role p) (s : StreamId) (payload : Bytes)
    (hzero : ∀ f ∈ p.frames, f.kind = .close → f.stream ≠ 0) :
    Balanced role (p.endStream s payload) := by
  have hqueued := h.queue s .close payload hzero
  refine hqueued.close fun queued hq => ?_
  cases hs : p.writer.streams.lookup s with
  | none =>
    simp only [Writer.queue_of_none hs, hs] at hq
    cases hq
  | some old =>
    have hstate := (Writer.queue_queues hs .close payload).state old hs
    obtain rfl := some.inj (hstate.symm.trans hq)
    simp [Writer.Stream.closing]

theorem Balanced.received (h : Balanced role p) {message : Bytes} (hd : decode message = .ok f)
    (hle : f.stream ≤ p.peer.peerHigh) (hhonest : Honest p f) (spec : Bytes → Option StreamSpec) :
    Balanced role { p with mux := (p.mux.receive message spec).1 } := by
  have hkind : f.kind = .opened ∨ f.kind = .close ∨ f.kind = .openRefused :=
    hhonest.imp_right (Or.imp And.left And.left)
  have hreceive : p.mux.receive message spec = p.mux.onStream f := by
    unfold Mux.receive
    rcases hkind with hk | hk | hk <;> simp only [hd, hk]
  rw [hreceive]
  unfold Mux.onStream
  split
  · split <;> exact h
  · next old hold =>
    unfold Mux.onOpenStream
    dsimp only
    split
    · exact h
    · rcases hhonest with hk | ⟨hk, hwe⟩ | ⟨hk, hnone⟩ <;> simp only [hk]
      · split
        · exact h
        · exact h.muxSet hold (.inl rfl) (.inl rfl)
      · split
        · -- both ends have closed it
          next hours =>
          have hclosing := h.weClosed f.stream old hold hours
          exact h.muxForget ⟨hle, fun state' hs' =>
            ⟨hwe state' hs', h.underway hold hclosing hs' (hwe state' hs')⟩⟩
        · exact h.muxSet hold (.inl rfl)
            (.inr ⟨hle, hwe⟩)
      · split
        · exact h
        · -- refused, and the peer has no record of it
          refine h.muxForget ⟨hle, fun state' hs' => ?_⟩
          rw [hnone] at hs'
          cases hs'

theorem Balanced.read {p p' : Peers} (h : Balanced role p) {index : Nat}
    (hs : p.read index = some p') : Balanced role p' := by
  unfold Peers.read at hs
  split at hs
  · cases hs
  · next message hm =>
    obtain rfl := some.inj hs
    obtain ⟨f, hd, -, -, hle, hhonest⟩ := h.back message (mem_of_getElem? hm)
    have hmoved := h.received hd hle hhonest fun _ => none
    exact ⟨hmoved.fault, hmoved.silent, hmoved.gone, hmoved.peerGone, hmoved.theirs, hmoved.once,
      hmoved.mine, hmoved.known, hmoved.pending, hmoved.weClosed, hmoved.peerClosed, hmoved.held,
      fun m hm' => h.back m ((eraseIdx_sublist _ _).subset hm'), hmoved.room⟩

theorem opens_lt {s n : StreamId} (hs : role.opens s = true) (hn : role.opens n = true)
    (hlt : s < n + 2) : s < n ∨ s = n := by
  unfold Role.opens at hs hn
  rcases Nat.lt_or_ge s n with h | h
  · exact .inl h
  · rcases Nat.lt_or_eq_of_le h with h | h
    · obtain rfl : s = n + 1 := Nat.le_antisymm (Nat.le_of_lt_succ hlt) h
      rcases Nat.mod_two_eq_zero_or_one n with hmod | hmod <;> cases role <;>
        simp [Nat.add_mod, hmod] at hs hn
    · exact .inr h.symm

theorem Balanced.openStream (h : Balanced role p) (ho : Ordered role p) {spec : StreamSpec}
    {cls : Class} {payload : Bytes} (hok : p.orderly (.openStream spec cls payload) = true) :
    Balanced role (p.openStream spec cls payload) := by
  by_cases hfull : p.mux.streams.len ≥ maxStreams
  · rw [openStream_of_full hfull]
    exact h
  rw [openStream_of_room hfull]
  obtain ⟨-, hroom⟩ := orderly_openStream hfull hok
  obtain ⟨hours, hne, hlt⟩ := ho.next
  have hbegun := Writer.begun ho.wf ho.fresh ⟨hne, hlt⟩ cls spec.windowed payload
  have hframes : ∀ f ∈ p.frames, f.kind ≠ .link → f.stream ≠ p.mux.nextOurs := fun f hf hk =>
    Nat.ne_of_lt (Nat.lt_of_le_of_lt (ho.inOrder.named hf hk).2 ho.bound)
  have hpeer : ∀ s, s ≤ p.peer.peerHigh → s ≠ p.mux.nextOurs := fun s hle =>
    Nat.ne_of_lt (Nat.lt_of_le_of_lt (Nat.le_trans hle ho.inOrder.le_highAfter) ho.bound)
  have hmux : ∀ s, s ≠ p.mux.nextOurs →
      (p.mux.streams.insert p.mux.nextOurs (.new true spec)).lookup s =
        p.mux.streams.lookup s := fun s hs => by rw [lookup_insert, if_neg hs]
  refine ⟨h.fault, h.silent, fun f hf hk => ?_, fun s state hs hc => ?_, h.theirs, h.once,
    fun s state hs => ?_, fun s hs hnz hless => ?_, fun s hs hpos hless => ?_,
    fun s state hs hc queued hq => ?_, fun s state hs hc => ?_, fun s state hs => ?_, h.back,
    fun t ht hpos hless => ?_⟩
  · rw [hbegun.others _ (hframes f hf fun hl => by rw [hk] at hl; cases hl)]
    exact h.gone f hf hk
  · rw [hbegun.others s (hpeer s (h.theirs s state hs).2.2.2)]
    exact h.peerGone s state hs hc
  · rw [lookup_insert] at hs
    split at hs
    · next he =>
      subst he
      exact ⟨hours, hne, Nat.lt_add_of_pos_right (by decide)⟩
    · obtain ⟨hopens, hnz, hless⟩ := h.mine s state hs
      exact ⟨hopens, hnz, Nat.lt_add_right 2 hless⟩
  · rcases opens_lt hs hours hless with hold | rfl
    · rcases h.known s hs hnz hold with ⟨queued, hq⟩ | hc | hp
      · exact .inl ⟨queued, by rw [hbegun.others s (Nat.ne_of_lt hold)]; exact hq⟩
      · exact .inr (.inl hc)
      · exact .inr (.inr hp)
    · obtain ⟨state, hstate, -⟩ := hbegun.state
      exact .inl ⟨state, hstate⟩
  · rcases opens_lt hs hours hless with hold | rfl
    · obtain ⟨state, hstate, hopen⟩ := h.pending s hs hpos hold
      exact ⟨state, by rw [hmux s (Nat.ne_of_lt hold)]; exact hstate, hopen⟩
    · exact ⟨_, by rw [lookup_insert, if_pos rfl], rfl⟩
  · rw [lookup_insert] at hs
    split at hs
    · obtain rfl := some.inj hs
      cases hc
    · next hne' =>
      rw [hbegun.others s hne'] at hq
      exact h.weClosed s state hs hc queued hq
  · rw [lookup_insert] at hs
    split at hs
    · obtain rfl := some.inj hs
      cases hc
    · exact h.peerClosed s state hs hc
  · have hs' := hpeer s (h.theirs s state hs).2.2.2
    dsimp only
    rw [hmux s hs', hbegun.others s hs']
    exact h.held s state hs
  · rcases opens_lt ht hours hless with hold | rfl
    · exact h.room t ht hpos hold
    · -- what the peer may still count is here, lingering, or closed on the way
      refine ⟨p.mux.streams.keys ++ p.lingering, ?_, fun s hs hpos' hless' => ?_,
        fun s state hs hnot => ?_⟩
      · rw [length_append, length_keys]
        exact hroom
      · obtain ⟨state, hstate, -⟩ := h.pending s hs hpos' hless'
        exact mem_append_left _ (Dict.mem_keys.mpr ⟨state, hstate⟩)
      · have hkeys : s ∉ p.mux.streams.keys := fun hk => hnot (mem_append_left _ hk)
        have hnone : p.mux.streams.lookup s = none :=
          eq_none_iff_forall_ne_some.mpr fun state' hs' =>
            hkeys (Dict.mem_keys.mpr ⟨state', hs'⟩)
        rcases h.held s state hs with hmem | ⟨hwe, hqueued | hc⟩
        · exact absurd (Dict.mem_keys.mpr hmem) hkeys
        · exact absurd (mem_append_right _ (mem_lingering.mpr ⟨hqueued, hnone⟩)) hnot
        · exact ⟨hwe, p.frames, [], (append_nil _).symm, hc,
            fun f hf hk => hframes f hf fun hl => by rw [hk] at hl; cases hl⟩

/-! ## The peer's streams -/

theorem Balanced.peerMoved (h : Balanced role p)
    (hhigh : m.peerHigh = p.peer.peerHigh)
    (hfrom : ∀ s state, m.streams.lookup s = some state → ∃ old,
      p.peer.streams.lookup s = some old ∧ state.ours = old.ours ∧
      state.peerClosed = old.peerClosed ∧ (old.weClosed = true → state.weClosed = true) ∧
      (state.weClosed = true → state.peerClosed = false)) :
    Balanced role { p with peer := m } := by
  refine ⟨h.fault, h.silent, h.gone, fun s state hs hc => ?_, fun s state hs => ?_,
    fun s state hs hwe => ?_, h.mine, fun s hs hne hlt => ?_, hhigh ▸ h.pending, h.weClosed,
    fun s state hs hc => ?_, fun s state hs => ?_, fun m' hm' => ?_, fun t ht hpos hlt => ?_⟩
  · obtain ⟨old, hold, -, hpeer, -⟩ := hfrom s state hs
    exact h.peerGone s old hold (hpeer ▸ hc)
  · obtain ⟨old, hold, hours, -⟩ := hfrom s state hs
    rw [hours, hhigh]
    exact h.theirs s old hold
  · obtain ⟨old, -, -, -, -, honce⟩ := hfrom s state hs
    exact honce hwe
  · refine (h.known s hs hne hlt).imp_right (Or.imp_right fun ⟨hle, hall⟩ => ?_)
    refine ⟨hhigh ▸ hle, fun state hstate => ?_⟩
    obtain ⟨old, hold, -, hpeer, -⟩ := hfrom s state hstate
    rw [hpeer]
    exact hall old hold
  · obtain ⟨hle, hall⟩ := h.peerClosed s state hs hc
    refine ⟨hhigh ▸ hle, fun state' hs' => ?_⟩
    obtain ⟨old, hold, -, -, hwe, -⟩ := hfrom s state' hs'
    exact hwe (hall old hold)
  · obtain ⟨old, hold, -, -, hwe, -⟩ := hfrom s state hs
    exact (h.held s old hold).imp_right fun hdone => ⟨hwe hdone.1, hdone.2⟩
  · obtain ⟨f, hd, hours, hne, hle, hhonest⟩ := h.back m' hm'
    refine ⟨f, hd, hours, hne, hhigh ▸ hle, hhonest.imp_right (Or.imp ?_ ?_)⟩
    · rintro ⟨hk, hall⟩
      refine ⟨hk, fun state hs => ?_⟩
      obtain ⟨old, hold, -, -, hwe, -⟩ := hfrom f.stream state hs
      exact hwe (hall old hold)
    · rintro ⟨hk, hnone⟩
      refine ⟨hk, eq_none_iff_forall_ne_some.mpr fun state hs => ?_⟩
      obtain ⟨old, hold, -⟩ := hfrom f.stream state hs
      rw [hnone] at hold
      cases hold
  · obtain ⟨counted, hlen, hun, hrest⟩ := h.room t ht (hhigh ▸ hpos) hlt
    refine ⟨counted, hlen, fun s hs hpos' => hun s hs (hhigh ▸ hpos'), fun s state hs hnot => ?_⟩
    obtain ⟨old, hold, -, -, hwe, -⟩ := hfrom s state hs
    exact ⟨hwe (hrest s old hold hnot).1, (hrest s old hold hnot).2⟩

theorem Balanced.send (h : Balanced role p) {kind : FrameType} (payload : Bytes)
    (hbound : s < 2 ^ 64) (hours : role.opens s = true) (hne : s ≠ 0) (hle : s ≤ p.peer.peerHigh)
    (hhonest : Honest p { kind := kind, fragment := false, stream := s, payload := payload }) :
    Balanced role (p.send kind s payload) := by
  unfold Peers.send
  split
  · next message he =>
    refine ⟨h.fault, h.silent, h.gone, h.peerGone, h.theirs, h.once, h.mine, h.known, h.pending,
      h.weClosed, h.peerClosed, h.held, fun m hm => ?_, h.room⟩
    rcases mem_cons.mp hm with rfl | hm
    · exact ⟨_, decode_encode hbound he, hours, hne, hle, hhonest⟩
    · exact h.back m hm
  · exact h

theorem Balanced.peerAnswers (h : Balanced role p) (payload : Bytes)
    (hbound : p.peer.peerHigh < 2 ^ 64) (hs : (p.peer.streams.lookup s).isSome = true) :
    Balanced role (p.send .opened s payload) := by
  obtain ⟨state, hstate⟩ := isSome_iff_exists.mp hs
  obtain ⟨-, hours, hne, hle⟩ := h.theirs s state hstate
  exact h.send payload (Nat.lt_of_le_of_lt hle hbound) hours hne hle (.inl rfl)

theorem Balanced.peerForgets (h : Balanced role p) (s : StreamId) :
    Balanced role { p with peer := p.peer.forget s } := by
  refine h.peerMoved rfl fun t state ht => ?_
  rw [Mux.forget, lookup_erase] at ht
  split at ht
  · cases ht
  · exact ⟨state, ht, rfl, rfl, id, h.once t state ht⟩

theorem Balanced.peerCloses (h : Balanced role p) (payload : Bytes)
    (hbound : p.peer.peerHigh < 2 ^ 64) (hs : (p.peer.streams.lookup s).isSome = true) :
    Balanced role ({ p with peer := p.peer.close s }.send .close s payload) := by
  obtain ⟨old, hold⟩ := isSome_iff_exists.mp hs
  obtain ⟨-, hours, hne, hle⟩ := h.theirs s old hold
  have hsame := Mux.same_close p.peer s
  have hclosed : Balanced role { p with peer := p.peer.close s } ∧
      ∀ state, (p.peer.close s).streams.lookup s = some state → state.weClosed = true := by
    unfold Mux.close
    rw [hold]
    dsimp only
    split
    · refine ⟨h.peerForgets s, fun state hstate => ?_⟩
      rw [lookup_erase, if_pos rfl] at hstate
      cases hstate
    · next hopen =>
      refine ⟨h.peerMoved rfl fun t state ht => ?_, fun state hstate => ?_⟩
      · rw [lookup_insert] at ht
        split at ht
        · next he =>
          subst he
          obtain rfl := some.inj ht
          exact ⟨old, hold, rfl, rfl, fun _ => rfl, fun _ => Bool.eq_false_iff.mpr hopen⟩
        · exact ⟨state, ht, rfl, rfl, id, h.once t state ht⟩
      · rw [lookup_insert, if_pos rfl] at hstate
        obtain rfl := some.inj hstate
        rfl
  exact hclosed.1.send payload (Nat.lt_of_le_of_lt hle hbound) hours hne
    (hsame.peerHigh ▸ hle) (.inr (.inl ⟨rfl, hclosed.2⟩))

theorem Balanced.peerRefuses (h : Balanced role p) (payload : Bytes)
    (hbound : p.peer.peerHigh < 2 ^ 64) (hours : role.opens s = true) (hle : s ≤ p.peer.peerHigh) :
    Balanced role ({ p with peer := p.peer.forget s }.send .openRefused s payload) := by
  have hforgot := h.peerForgets s
  by_cases hne : s = 0
  · -- no frame of stream 0 but LINK is written
    subst hne
    exact hforgot
  · refine hforgot.send payload (Nat.lt_of_le_of_lt hle hbound) hours hne hle
      (.inr (.inr ⟨rfl, ?_⟩))
    exact (lookup_erase _ _ _).trans (if_pos rfl)

/-! ## A frame arrives -/

/-- The peer received a frame that is no OPEN: a CLOSE closes the stream, and any
other leaves the streams as they are. -/
theorem Balanced.arrived (h : Balanced role p)
    {rest : List Bytes} (hframes : p.frames = f :: framesOf rest)
    (hhigh : m.peerHigh = p.peer.peerHigh)
    (hfrom : ∀ s state, m.streams.lookup s = some state → ∃ old,
      p.peer.streams.lookup s = some old ∧ state.ours = old.ours ∧
      state.weClosed = old.weClosed ∧
      (state.peerClosed = old.peerClosed ∨
        (f.kind = .close ∧ f.stream = s ∧ old.weClosed = false)))
    (hclose : f.kind = .close → f.stream ≤ p.peer.peerHigh ∧
      ∀ state, m.streams.lookup f.stream = some state →
        state.peerClosed = true ∧ state.weClosed = false) :
    Balanced role { p with peer := m, wire := rest } := by
  have hmem : f ∈ p.frames := hframes ▸ mem_cons_self
  have htail : ∀ g ∈ framesOf rest, g ∈ p.frames := fun g hg =>
    hframes ▸ mem_cons_of_mem _ hg
  have hsilent := h.silent
  rw [hframes] at hsilent
  obtain ⟨hfirst, hpairs⟩ := pairwise_cons.mp hsilent
  -- a stream the peer still counts after this end's CLOSE arrived is one it has not closed
  have hstill : ∀ s state, m.streams.lookup s = some state → state.weClosed = true →
      f.kind = .close → f.stream ≠ s := by
    rintro s state hs hwe hc rfl
    rw [((hclose hc).2 state hs).2] at hwe
    cases hwe
  refine ⟨h.fault, hpairs, fun g hg hc => h.gone g (htail g hg) hc, fun s state hs hc => ?_,
    fun s state hs => ?_, fun s state hs hwe => ?_, h.mine, fun s hs hne hlt => ?_,
    hhigh ▸ h.pending, h.weClosed, fun s state hs hc => ?_, fun s state hs => ?_,
    fun m' hm' => ?_, fun t ht hpos hlt => ?_⟩
  · obtain ⟨old, hold, -, -, hpeer⟩ := hfrom s state hs
    rcases hpeer with hpeer | ⟨hk', rfl, -⟩
    · obtain ⟨hnone, hno⟩ := h.peerGone s old hold (hpeer ▸ hc)
      exact ⟨hnone, fun g hg => hno g (htail g hg)⟩
    · exact ⟨h.gone f hmem hk', fun g hg => hfirst g hg hk'⟩
  · obtain ⟨old, hold, hours, -⟩ := hfrom s state hs
    rw [hours, hhigh]
    exact h.theirs s old hold
  · obtain ⟨old, hold, -, hwe', hpeer⟩ := hfrom s state hs
    rcases hpeer with hpeer | ⟨-, -, hnot⟩
    · rw [hpeer]
      exact h.once s old hold (hwe' ▸ hwe)
    · rw [hwe', hnot] at hwe
      cases hwe
  · rcases h.known s hs hne hlt with hq | hc | ⟨hle, hall⟩
    · exact .inl hq
    · by_cases he : f.kind = .close ∧ f.stream = s
      · obtain ⟨hk', rfl⟩ := he
        exact .inr (.inr ⟨hhigh ▸ (hclose hk').1, fun state hs' => ((hclose hk').2 state hs').1⟩)
      · refine .inr (.inl ?_)
        rw [hframes] at hc
        exact hc.of_cons fun hk' hs' => he ⟨hk', hs'⟩
    · refine .inr (.inr ⟨hhigh ▸ hle, fun state hs' => ?_⟩)
      obtain ⟨old, hold, -, -, hpeer⟩ := hfrom s state hs'
      rcases hpeer with hpeer | ⟨hk', rfl, -⟩
      · rw [hpeer]
        exact hall old hold
      · exact ((hclose hk').2 state hs').1
  · obtain ⟨hle, hall⟩ := h.peerClosed s state hs hc
    refine ⟨hhigh ▸ hle, fun state' hs' => ?_⟩
    obtain ⟨old, hold, -, hwe, -⟩ := hfrom s state' hs'
    rw [hwe]
    exact hall old hold
  · obtain ⟨old, hold, -, hwe, -⟩ := hfrom s state hs
    refine (h.held s old hold).imp_right fun ⟨hdone, hor⟩ => ⟨hwe ▸ hdone, ?_⟩
    refine hor.imp_right fun hc => ?_
    rw [hframes] at hc
    exact hc.of_cons (hstill s state hs (hwe ▸ hdone))
  · obtain ⟨g, hd, hours, hne, hle, hhonest⟩ := h.back m' hm'
    refine ⟨g, hd, hours, hne, hhigh ▸ hle, hhonest.imp_right (Or.imp ?_ ?_)⟩
    · rintro ⟨hk', hall⟩
      refine ⟨hk', fun state hs => ?_⟩
      obtain ⟨old, hold, -, hwe, -⟩ := hfrom g.stream state hs
      rw [hwe]
      exact hall old hold
    · rintro ⟨hk', hnone⟩
      refine ⟨hk', eq_none_iff_forall_ne_some.mpr fun state hs => ?_⟩
      obtain ⟨old, hold, -⟩ := hfrom g.stream state hs
      rw [hnone] at hold
      cases hold
  · obtain ⟨counted, hlen, hun, hrest⟩ := h.room t ht (hhigh ▸ hpos) hlt
    refine ⟨counted, hlen, fun s hs hpos' => hun s hs (hhigh ▸ hpos'), fun s state hs hnot => ?_⟩
    obtain ⟨old, hold, -, hwe, -⟩ := hfrom s state hs
    obtain ⟨hdone, hcf⟩ := hrest s old hold hnot
    rw [hframes] at hcf
    exact ⟨hwe ▸ hdone, hcf.of_cons (hstill s state hs (hwe ▸ hdone))⟩

theorem Balanced.opened (h : Balanced role p)
    {rest : List Bytes} (hframes : p.frames = f :: framesOf rest) (hk : f.kind = .open)
    (hours : role.opens f.stream = true) (hne : f.stream ≠ 0)
    (habove : p.peer.peerHigh < f.stream) (hlt : f.stream < p.mux.nextOurs)
    (hhigh : m.peerHigh = f.stream)
    (hfrom : ∀ s state, m.streams.lookup s = some state →
      p.peer.streams.lookup s = some state ∨
        (s = f.stream ∧ state.ours = false ∧ state.weClosed = false ∧
          state.peerClosed = false)) :
    Balanced role { p with peer := m, wire := rest } := by
  have htail : ∀ g ∈ framesOf rest, g ∈ p.frames := fun g hg =>
    hframes ▸ mem_cons_of_mem _ hg
  have hnot : f.kind ≠ .close := fun hc => by rw [hk] at hc; cases hc
  have hrest : ∀ s, CloseIn p.frames s → CloseIn (framesOf rest) s := fun s hc => by
    rw [hframes] at hc
    exact hc.of_cons fun hc' => absurd hc' hnot
  have hsilent := h.silent
  rw [hframes] at hsilent
  -- what the peer knew of streams it had seen stands
  have hseen : ∀ s state, s ≤ p.peer.peerHigh → m.streams.lookup s = some state →
      p.peer.streams.lookup s = some state := fun s state hle hs =>
    (hfrom s state hs).resolve_right fun hnew =>
      absurd habove (Nat.not_lt.mpr (hnew.1 ▸ hle))
  have hup : ∀ {s : StreamId}, s ≤ p.peer.peerHigh → s ≤ m.peerHigh := fun hle =>
    hhigh ▸ Nat.le_trans hle (Nat.le_of_lt habove)
  refine ⟨h.fault, (pairwise_cons.mp hsilent).2, fun g hg hc => h.gone g (htail g hg) hc,
    fun s state hs hc => ?_, fun s state hs => ?_, fun s state hs hwe => ?_, h.mine,
    fun s hs hnz hless => ?_, fun s hs hpos hless => ?_, h.weClosed, fun s state hs hc => ?_,
    fun s state hs => ?_, fun m' hm' => ?_, fun t ht hpos hless => ?_⟩
  · rcases hfrom s state hs with hold | ⟨-, -, -, hopen⟩
    · obtain ⟨hnone, hno⟩ := h.peerGone s state hold hc
      exact ⟨hnone, fun g hg => hno g (htail g hg)⟩
    · rw [hopen] at hc
      cases hc
  · rcases hfrom s state hs with hold | ⟨rfl, hnew, -⟩
    · obtain ⟨ho, hs', hnz, hle⟩ := h.theirs s state hold
      exact ⟨ho, hs', hnz, hup hle⟩
    · exact ⟨hnew, hours, hne, Nat.le_of_eq hhigh.symm⟩
  · rcases hfrom s state hs with hold | ⟨-, -, -, hopen⟩
    · exact h.once s state hold hwe
    · exact hopen
  · rcases h.known s hs hnz hless with hq | hc | ⟨hle, hall⟩
    · exact .inl hq
    · exact .inr (.inl (hrest s hc))
    · exact .inr (.inr ⟨hup hle, fun state hs' => hall state (hseen s state hle hs')⟩)
  · exact h.pending s hs (Nat.lt_trans habove (hhigh ▸ hpos)) hless
  · obtain ⟨hle, hall⟩ := h.peerClosed s state hs hc
    exact ⟨hup hle, fun state' hs' => hall state' (hseen s state' hle hs')⟩
  · rcases hfrom s state hs with hold | ⟨rfl, -⟩
    · exact (h.held s state hold).imp_right (And.imp_right (Or.imp_right (hrest s)))
    · obtain ⟨state', hstate', -⟩ := h.pending f.stream hours habove hlt
      exact .inl ⟨state', hstate'⟩
  · obtain ⟨g, hd, hours', hnz, hle, hhonest⟩ := h.back m' hm'
    refine ⟨g, hd, hours', hnz, hup hle, hhonest.imp_right (Or.imp ?_ ?_)⟩
    · exact And.imp_right fun hall state hs => hall state (hseen g.stream state hle hs)
    · refine And.imp_right fun hnone => eq_none_iff_forall_ne_some.mpr fun state hs => ?_
      have hold := hseen g.stream state hle hs
      rw [hnone] at hold
      cases hold
  · have hpos' : f.stream < t := hhigh ▸ hpos
    obtain ⟨counted, hlen, hun, hclosed⟩ := h.room t ht (Nat.lt_trans habove hpos') hless
    refine ⟨counted, hlen, fun s hs hlow => hun s hs (Nat.lt_trans habove (hhigh ▸ hlow)),
      fun s state hs hout => ?_⟩
    rcases hfrom s state hs with hold | ⟨rfl, -⟩
    · obtain ⟨hwe, hcf⟩ := hclosed s state hold hout
      rw [hframes] at hcf
      exact ⟨hwe, hcf.of_cons fun hc => absurd hc hnot⟩
    · exact absurd (hun f.stream hours habove hpos') hout

end VibeField.Freeway.Peers
