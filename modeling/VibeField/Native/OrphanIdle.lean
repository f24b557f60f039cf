import VibeField.Native.Orphan

/-!
# When the floor stops itself

The slot is empty since it was last left, and a decision of the bound was made on zeros alone,
read for a whole span in one vacancy.  Where the vacancy at the end of the confirming wait is the
one the decision was made in, the floor that stops is truly idle.
-/

namespace VibeField.Native.Orphan

open List Option

variable {span : Nat} {s s' : State} {now : Instant}

/-! ## The slot -/

/-- The slot as the presence has it. -/
structure Slot (s : State) : Prop where
  moves : ∀ t ∈ s.moves, t ≤ s.clock
  empty : s.current = none ↔ s.presence.vacantSince ≠ none
  since : ∀ v, s.presence.vacantSince = some v → v ≤ s.clock ∧ ∀ t ∈ s.moves, t ≤ v
  detaching : s.presence.detaching = if s.said then s.current else none
  said : s.said = true → s.current ≠ none

/-- The slot is left as it is. -/
structure SameSlot (s s' : State) : Prop where
  clock : s'.clock = s.clock
  vacantSince : s'.presence.vacantSince = s.presence.vacantSince
  detaching : s'.presence.detaching = s.presence.detaching
  current : s'.current = s.current
  said : s'.said = s.said
  moves : s'.moves = s.moves

/-- So are the bound and what the loop has read. -/
structure Apart (s s' : State) : Prop extends SameSlot s s' where
  bound : s'.bound = s.bound
  phase : s'.phase = s.phase
  readings : s'.readings = s.readings

theorem SameSlot.slot (ha : SameSlot s s') (h : Slot s) : Slot s' := by
  refine ⟨?_, ?_, ?_, ?_, ?_⟩
  · rw [ha.moves, ha.clock]
    exact h.moves
  · rw [ha.current, ha.vacantSince]
    exact h.empty
  · rw [ha.vacantSince, ha.clock, ha.moves]
    exact h.since
  · rw [ha.detaching, ha.said, ha.current]
    exact h.detaching
  · rw [ha.said, ha.current]
    exact h.said

theorem apart_answer (s : State) (n : Nat) (d : Departed) (deadline now : Instant)
    (census : Census) : Apart s (s.answer n d deadline now census) := by
  rw [State.answer]
  split <;> exact ⟨⟨rfl, rfl, rfl, rfl, rfl, rfl⟩, rfl, rfl, rfl⟩

theorem apart_takeLast (s : State) (now : Instant) (first : Census) :
    Apart s (s.takeLast now first) := by
  rw [State.takeLast]
  split
  · exact ⟨⟨rfl, rfl, rfl, rfl, rfl, rfl⟩, rfl, rfl, rfl⟩
  · rename_i d _
    dsimp only
    split
    · exact ⟨⟨rfl, rfl, rfl, rfl, rfl, rfl⟩, rfl, rfl, rfl⟩
    · have ha := apart_answer { s with presence := s.presence.takeLast } (s.leavings.length - 1) d
        (now + freshCountWait) now first
      exact ⟨⟨ha.clock, ha.vacantSince, ha.detaching, ha.current, ha.said, ha.moves⟩, ha.bound,
        ha.phase, ha.readings⟩

theorem Slot.tick (h : Slot s) (hnow : s.clock ≤ now) : Slot { s with clock := now } where
  __ := h
  moves t ht := Nat.le_trans (h.moves t ht) hnow
  since v hv := ⟨Nat.le_trans (h.since v hv).1 hnow, (h.since v hv).2⟩

theorem Slot.left_detaching (h : Slot s) {conn : Nat} (hc : s.current = some conn)
    (how : Departure) (atMs : Nat) :
    (s.presence.left conn how atMs s.clock).detaching = none := by
  have hd := h.detaching
  rw [hc] at hd
  rw [Presence.left]
  dsimp only
  cases hsaid : s.said <;> simp_all

theorem Slot.close (h : Slot s) {conn : Nat} (hc : s.current = some conn) (atMs : Nat) :
    Slot (s.leave conn .closed atMs s.clock) where
  moves t ht := by
    rcases mem_snoc.mp ht with ht | ht
    · exact h.moves t ht
    · exact Nat.le_of_eq ht
  empty := by simp [State.leave, Presence.left]
  since v hv := by
    have hv' : some s.clock = some v := hv
    cases hv'
    refine ⟨Nat.le_refl _, fun t ht => ?_⟩
    rcases mem_snoc.mp ht with ht | ht
    · exact h.moves t ht
    · exact Nat.le_of_eq ht
  detaching := h.left_detaching hc .closed atMs
  said hsaid := by cases hsaid

theorem slot_take (hmoves : ∀ t ∈ s.moves, t ≤ s.clock) (hd : s.presence.detaching = none)
    (hsaid : s.said = false) (conn : Nat) : Slot (s.take conn s.clock) where
  moves t ht := by
    rcases mem_snoc.mp ht with ht | ht
    · exact hmoves t ht
    · exact Nat.le_of_eq ht
  empty := by simp [State.take, Presence.held]
  since v hv := by cases hv
  detaching := by
    show s.presence.detaching = if s.said then some conn else none
    rw [hd, hsaid]
    rfl
  said h := by
    have h' : s.said = true := h
    rw [hsaid] at h'
    cases h'

theorem Slot.not_said (h : Slot s) (hc : s.current = none) : s.said = false := by
  cases hsaid : s.said
  · rfl
  · exact absurd hc (h.said hsaid)

theorem Slot.hello (h : Slot s) (conn atMs : Nat) (first : Census) :
    Slot (s.hello conn atMs s.clock first) := by
  rw [State.hello]
  cases hc : s.current with
  | none =>
    have hsaid := h.not_said hc
    have hd := h.detaching
    rw [hsaid] at hd
    exact (apart_takeLast _ _ _).slot (slot_take h.moves hd hsaid conn)
  | some old =>
    have hleft : Slot ((s.leave old .superseded atMs s.clock).take conn s.clock) := by
      refine slot_take (s := s.leave old .superseded atMs s.clock) (fun t ht => ?_)
        (h.left_detaching hc .superseded atMs) rfl conn
      rcases mem_snoc.mp ht with ht | ht
      · exact h.moves t ht
      · exact Nat.le_of_eq ht
    exact (apart_takeLast _ _ _).slot hleft

/-! ## The bound -/

def idleIn (vacant since : Instant) : OrphanBound :=
  { vacancy := some vacant, idleSince := some since }

/-- Since `since`, in the vacancy that began at `vacant`, the loop has read nothing but zeros. -/
structure Zeros (s : State) (since vacant : Instant) : Prop where
  vacancy : s.bound.vacancy = some vacant
  after : vacant ≤ since
  read : ∃ before after, s.readings = before ++ (since, .counted 0) :: after ∧
    ∀ r ∈ after, r.2 = .counted 0

structure Watched (span : Nat) (s : State) : Prop where
  times : ∀ r ∈ s.readings, r.1 ≤ s.clock
  idle : ∀ since, s.bound.idleSince = some since → ∃ vacant, Zeros s since vacant
  decided : ∀ decided deadline, s.phase = .confirming decided deadline →
    ∃ since, s.bound.idleSince = some since ∧ since + span ≤ decided

theorem Watched.congr (h : Watched span s) (hclock : s.clock ≤ s'.clock) (hbound : s'.bound = s.bound)
    (hphase : s'.phase = s.phase) (hreadings : s'.readings = s.readings) : Watched span s' := by
  refine ⟨fun r hr => ?_, fun since hs => ?_, fun decided deadline hd => ?_⟩
  · rw [hreadings] at hr
    exact Nat.le_trans (h.times r hr) hclock
  · rw [hbound] at hs
    obtain ⟨vacant, hz⟩ := h.idle since hs
    refine ⟨vacant, ?_, hz.after, ?_⟩
    · rw [hbound]
      exact hz.vacancy
    · rw [hreadings]
      exact hz.read
  · rw [hphase] at hd
    rw [hbound]
    exact h.decided decided deadline hd

theorem Watched.phase (h : Watched span s) {phase : Phase}
    (hp : ∀ decided deadline, phase = .confirming decided deadline →
      ∃ since, s.bound.idleSince = some since ∧ since + span ≤ decided) :
    Watched span { s with phase := phase } where
  times := h.times
  idle since hs := by
    obtain ⟨vacant, hz⟩ := h.idle since hs
    exact ⟨vacant, hz.vacancy, hz.after, hz.read⟩
  decided := hp

variable {census : Census}

theorem freshCount_zero {deadline : Instant}
    (h : freshCount deadline now census = some (some 0)) : census = .counted 0 := by
  cases census with
  | counted n =>
    rw [freshCount, some.injEq, some.injEq] at h
    rw [h]
  | notYet =>
    rw [freshCount] at h
    split at h <;> cases h
  | unknown => cases h

theorem confirm_cases (s : State) (decided deadline now : Instant) (census : Census) :
    (census = .counted 0 ∧ s.presence.vacantSince ≠ none ∧
      s.confirm decided deadline now census = { s with phase := .done decided (some 0) }) ∨
    s.confirm decided deadline now census = { s with bound := s.bound.refused, phase := .polling } ∨
    s.confirm decided deadline now census =
      { s with phase := .confirming decided deadline } := by
  rw [State.confirm]
  split
  · rename_i count hcount
    rw [State.confirmed]
    split
    · exact .inr (.inl rfl)
    · rename_i hstop
      rw [not_or, not_not] at hstop
      obtain ⟨hvacant, rfl⟩ := hstop
      exact .inl ⟨freshCount_zero hcount, hvacant, rfl⟩
  · exact .inr (.inr rfl)

theorem trulyIdle_done (hslot : Slot s) {since vacant decided : Instant}
    (hz : Zeros s since vacant) (hspan : since + span ≤ decided)
    (hvacant : s.presence.vacantSince = some vacant) :
    TrulyIdle span { s with phase := .done decided (some 0) } where
  empty := hslot.empty.mpr (by rw [hvacant]; exact some_ne_none vacant)
  idle := by
    obtain ⟨before, after, hread, hzeros⟩ := hz.read
    exact ⟨decided, since, before, after, rfl, hread, hzeros, hspan, fun t ht =>
      Nat.le_trans ((hslot.since vacant hvacant).2 t ht) hz.after⟩

theorem Watched.refused (h : Watched span s) :
    Watched span { s with bound := s.bound.refused, phase := .polling } where
  times := h.times
  idle since hs := by cases hs
  decided _ _ hd := by cases hd

theorem Watched.confirm (h : Watched span s) {since decided deadline : Instant}
    (hidle : s.bound.idleSince = some since) (hspan : since + span ≤ decided) (census : Census) :
    Watched span (s.confirm decided deadline now census) := by
  rcases confirm_cases s decided deadline now census with ⟨-, -, heq⟩ | heq | heq
  · rw [heq]
    exact h.phase fun _ _ hd => by cases hd
  · rw [heq]
    exact h.refused
  · rw [heq]
    refine h.phase fun d l hd => ?_
    cases hd
    exact ⟨since, hidle, hspan⟩

theorem observe_cases (span now : Instant) (b : OrphanBound) (vacantSince : Option Instant) (census : Option Nat) :
    ((OrphanBound.observe span b now vacantSince census).1.idleSince = none ∧
      (OrphanBound.observe span b now vacantSince census).2 = .wait) ∨
    ∃ vacant since, vacantSince = some vacant ∧ census = some 0 ∧
      (OrphanBound.observe span b now vacantSince census).1 = idleIn vacant since ∧
      (since = now ∨ b.vacancy = some vacant ∧ b.idleSince = some since) ∧
      ((OrphanBound.observe span b now vacantSince census).2 = .stop → span ≤ now - since) := by
  unfold OrphanBound.observe
  cases vacantSince with
  | none => exact .inl ⟨rfl, rfl⟩
  | some vacant =>
    dsimp only
    split
    · exact .inl ⟨rfl, rfl⟩
    · rename_i hzero
      rw [not_not] at hzero
      right
      refine ⟨vacant, (b.entered vacant).idleSince.getD now, rfl, hzero, ?_, ?_, fun hstop => ?_⟩
      · rw [OrphanBound.entered]
        split
        · rfl
        · rename_i hsame
          rw [not_not] at hsame
          rw [hsame]
          rfl
      · rw [OrphanBound.entered]
        split
        · exact .inl rfl
        · rename_i hsame
          rw [not_not] at hsame
          cases hidle : b.idleSince with
          | none => exact .inl rfl
          | some z => exact .inr ⟨hsame, rfl⟩
      · split at hstop
        · assumption
        · cases hstop

theorem Slot.loop (h : Slot s) (bound : OrphanBound) (phase : Phase)
    (readings : List (Instant × Census)) :
    Slot { s with bound := bound, phase := phase, readings := readings } :=
  { h with }

theorem sessions_zero (h : census.sessions = some 0) : census = .counted 0 := by
  cases census with
  | counted n =>
    rw [Census.sessions, some.injEq] at h
    rw [h]
  | notYet => cases h
  | unknown => cases h

theorem mem_observed {r : Instant × Census} {bound : OrphanBound}
    (hr : r ∈ (s.observed bound now census).readings) : r ∈ s.readings ∨ r = (now, census) := by
  rcases mem_snoc.mp hr with hr | hr
  · exact .inl hr
  · exact .inr hr

theorem Watched.observed_times (h : Watched span s) (bound : OrphanBound) (census : Census) :
    ∀ r ∈ (s.observed bound s.clock census).readings, r.1 ≤ s.clock := by
  intro r hr
  rcases mem_observed hr with hr | rfl
  · exact h.times r hr
  · exact Nat.le_refl _

theorem Watched.zeros (h : Watched span s) {vacant since : Instant} (hvs : vacant ≤ s.clock)
    (hsince : since = s.clock ∨ s.bound.vacancy = some vacant ∧ s.bound.idleSince = some since) :
    Zeros (s.observed (idleIn vacant since) s.clock (.counted 0))
      since vacant := by
  rcases hsince with rfl | ⟨hsame, hidle⟩
  · exact ⟨rfl, hvs, s.readings, [], rfl, fun r hr => by cases hr⟩
  · obtain ⟨v, hz⟩ := h.idle since hidle
    have hv := hz.vacancy
    rw [hsame] at hv
    cases hv
    obtain ⟨before, after, hread, hzeros⟩ := hz.read
    refine ⟨rfl, hz.after, before, after ++ [(s.clock, .counted 0)], ?_, fun r hr => ?_⟩
    · rw [State.observed, hread, append_assoc, cons_append]
    · rcases mem_snoc.mp hr with hr | hr
      · exact hzeros r hr
      · rw [hr]

theorem apart_confirm (s : State) (decided deadline now : Instant) (census : Census) :
    SameSlot s (s.confirm decided deadline now census) := by
  rcases confirm_cases s decided deadline now census with ⟨-, -, heq⟩ | heq | heq <;> rw [heq] <;>
    exact ⟨rfl, rfl, rfl, rfl, rfl, rfl⟩

theorem apart_poll (s : State) (now : Instant) (census first : Census) :
    SameSlot s (s.poll span now census first) := by
  rw [State.poll]
  split
  · exact ⟨rfl, rfl, rfl, rfl, rfl, rfl⟩
  · rename_i bound _
    have ha := apart_confirm (s.observed bound now census) now (now + freshCountWait) now first
    exact ⟨ha.clock, ha.vacantSince, ha.detaching, ha.current, ha.said, ha.moves⟩

theorem Watched.poll (h : Watched span s) (hslot : Slot s) (hphase : s.phase = .polling)
    (census first : Census) :
    Watched span (s.poll span s.clock census first) ∧
      ((s.poll span s.clock census first).phase.requested →
        TrulyIdle span (s.poll span s.clock census first)) := by
  rcases observe_cases span s.clock s.bound s.presence.vacantSince census.sessions with
    ⟨hidle, hwait⟩ | ⟨vacant, since, hvacant, hzero, hbound, hsince, hstop⟩
  · have hpoll : s.poll span s.clock census first = s.observed (OrphanBound.observe span s.bound
        s.clock s.presence.vacantSince census.sessions).1 s.clock census := by
      rw [State.poll]
      split
      · rename_i heq
        rw [heq]
      · rename_i heq
        rw [heq] at hwait
        cases hwait
    rw [hpoll]
    refine ⟨⟨h.observed_times _ census, fun z hz => ?_, fun d l hd => ?_⟩, fun hr => ?_⟩
    · have hz' : (OrphanBound.observe span s.bound s.clock s.presence.vacantSince
          census.sessions).1.idleSince = some z := hz
      rw [hidle] at hz'
      cases hz'
    · have hd' : s.phase = .confirming d l := hd
      rw [hphase] at hd'
      cases hd'
    · have hr' : s.phase.requested := hr
      rw [hphase] at hr'
      exact hr'.elim
  · obtain rfl := sessions_zero hzero
    have hz := h.zeros (hslot.since vacant hvacant).1 hsince
    have hslot' : Slot (s.observed (idleIn vacant since) s.clock
        (.counted 0)) := hslot.loop _ s.phase _
    have hwatched : Watched span (s.observed (idleIn vacant since)
        s.clock (.counted 0)) := by
      refine ⟨h.observed_times _ _, fun z hzs => ?_, fun d l hd => ?_⟩
      · cases hzs
        exact ⟨vacant, hz⟩
      · have hd' : s.phase = .confirming d l := hd
        rw [hphase] at hd'
        cases hd'
    rw [State.poll]
    split
    · rename_i bound heq
      rw [heq] at hbound
      obtain rfl : bound = _ := hbound
      refine ⟨hwatched, fun hr => ?_⟩
      have hr' : s.phase.requested := hr
      rw [hphase] at hr'
      exact hr'.elim
    · rename_i bound heq
      rw [heq] at hbound hstop
      obtain rfl : bound = _ := hbound
      have hsince' : since ≤ s.clock := by
        obtain ⟨before, after, hread, -⟩ := hz.read
        have hmem : (since, Census.counted 0) ∈ (s.observed (idleIn vacant since) s.clock (.counted 0)).readings := by
          rw [hread]
          exact mem_append_right _ mem_cons_self
        exact h.observed_times _ _ _ hmem
      have hspan := (Nat.le_sub_iff_add_le' hsince').mp (hstop rfl)
      refine ⟨hwatched.confirm rfl hspan first, fun hr => ?_⟩
      rcases confirm_cases (s.observed (idleIn vacant since) s.clock
        (.counted 0)) s.clock (s.clock + freshCountWait) s.clock first with
        ⟨-, -, heq⟩ | heq | heq
      · rw [heq]
        exact trulyIdle_done hslot' hz hspan hvacant
      · rw [heq] at hr
        exact hr.elim
      · rw [heq] at hr
        exact hr.elim

/-! ## Runs -/

structure Kept (span : Nat) (s : State) : Prop where
  slot : Slot s
  watched : Watched span s

theorem Kept.tick (h : Kept span s) (hnow : s.clock ≤ now) : Kept span (s.tick now) :=
  ⟨h.slot.tick hnow, h.watched.congr hnow rfl rfl rfl⟩

theorem Kept.apart (h : Kept span s) (ha : Apart s s') : Kept span s' :=
  ⟨ha.slot h.slot, h.watched.congr (Nat.le_of_eq ha.clock.symm) ha.bound ha.phase ha.readings⟩

theorem hello_watched (s : State) (conn atMs : Nat) (first : Census) :
    (s.hello conn atMs s.clock first).clock = s.clock ∧
      (s.hello conn atMs s.clock first).bound = s.bound ∧
      (s.hello conn atMs s.clock first).phase = s.phase ∧
      (s.hello conn atMs s.clock first).readings = s.readings := by
  rw [State.hello]
  cases s.current with
  | none =>
    have ha := apart_takeLast (s.take conn s.clock) s.clock first
    exact ⟨ha.clock, ha.bound, ha.phase, ha.readings⟩
  | some old =>
    have ha := apart_takeLast ((s.leave old .superseded atMs s.clock).take conn s.clock) s.clock
      first
    exact ⟨ha.clock, ha.bound, ha.phase, ha.readings⟩

theorem Kept.act (h : Kept span s) {e : Event} (htime : e.time s = s.clock)
    (hs : s.act span e = some s') :
    Kept span s' ∧ (Unbroken s e → ¬s.phase.requested → s'.phase.requested →
      TrulyIdle span s') := by
  have hsame : s'.phase = s.phase → (Unbroken s e → ¬s.phase.requested → s'.phase.requested →
      TrulyIdle span s') := fun hp _ hno hyes => absurd (hp ▸ hyes) hno
  cases e with
  | hello conn atMs now first =>
    obtain rfl : now = s.clock := htime
    rw [State.act] at hs
    split at hs
    · cases hs
      obtain ⟨hc, hb, hp, hr⟩ := hello_watched s conn atMs first
      exact ⟨⟨h.slot.hello conn atMs first, h.watched.congr (Nat.le_of_eq hc.symm) hb hp hr⟩,
        hsame hp⟩
    · cases hs
  | detach conn =>
    rw [State.act] at hs
    split at hs
    · split at hs
      · rename_i hc
        cases hs
        refine ⟨⟨⟨h.slot.moves, h.slot.empty, h.slot.since, ?_, fun _ => ?_⟩,
          h.watched.congr (Nat.le_refl _) rfl rfl rfl⟩, hsame rfl⟩
        · exact hc.symm
        · rw [hc]
          exact some_ne_none conn
      · cases hs
        exact ⟨h, hsame rfl⟩
    · cases hs
  | close conn atMs now =>
    obtain rfl : now = s.clock := htime
    rw [State.act] at hs
    split at hs
    · split at hs
      · rename_i hc
        cases hs
        exact ⟨⟨h.slot.close hc atMs, h.watched.congr (Nat.le_refl _) rfl rfl rfl⟩, hsame rfl⟩
      · cases hs
        exact ⟨h, hsame rfl⟩
    · cases hs
  | answer now census =>
    rw [State.act] at hs
    split at hs
    · rename_i n d deadline _
      cases hs
      have ha := apart_answer s n d deadline now census
      exact ⟨h.apart ha, hsame ha.phase⟩
    · cases hs
  | poll now census first =>
    obtain rfl : now = s.clock := htime
    rw [State.act] at hs
    split at hs
    · rename_i hphase
      cases hs
      obtain ⟨hw, hidle⟩ := h.watched.poll h.slot hphase census first
      exact ⟨⟨(apart_poll s s.clock census first).slot h.slot, hw⟩, fun _ _ hyes => hidle hyes⟩
    · cases hs
  | confirm now census =>
    obtain rfl : now = s.clock := htime
    rw [State.act] at hs
    split at hs
    · rename_i decided deadline hphase
      cases hs
      obtain ⟨since, hidle, hspan⟩ := h.watched.decided decided deadline hphase
      obtain ⟨vacant, hz⟩ := h.watched.idle since hidle
      refine ⟨⟨(apart_confirm s decided deadline s.clock census).slot h.slot,
        h.watched.confirm hidle hspan census⟩, fun hok _ hyes => ?_⟩
      rcases confirm_cases s decided deadline s.clock census with ⟨rfl, hne, heq⟩ | heq | heq
      · rw [heq]
        rcases hok with hnone | hsome
        · exact absurd hnone hne
        · exact trulyIdle_done h.slot hz hspan (hsome.trans hz.vacancy)
      · rw [heq] at hyes
        exact hyes.elim
      · rw [heq] at hyes
        exact hyes.elim
    · cases hs

theorem Kept.step (h : Kept span s) {e : Event} (hs : s.step span e = some s') :
    Kept span s' ∧ (Unbroken s e → ¬s.phase.requested → s'.phase.requested →
      TrulyIdle span s') := by
  rw [State.step] at hs
  split at hs
  · cases hs
  rename_i hnow
  have htick : Kept span (s.tick (e.time s)) := h.tick (Nat.le_of_not_lt hnow)
  have htime : e.time (s.tick (e.time s)) = (s.tick (e.time s)).clock := by
    cases e <;> rfl
  exact htick.act htime hs

theorem kept_reachable {boot : Instant} (h : (machine span boot).Reachable s) : Kept span s := by
  refine Machine.Reachable.invariant (P := Kept span) ⟨?_, ?_⟩
    (fun s e s' hk hs => (Kept.step hk hs).1) h
  · refine ⟨fun t ht => (by cases ht), ?_, fun v hv => ?_, rfl, fun hsaid => by cases hsaid⟩
    · exact ⟨fun _ hv => (by cases hv), fun _ => rfl⟩
    · cases hv
      exact ⟨Nat.le_refl boot, fun t ht => by cases ht⟩
  · exact ⟨fun r hr => (by cases hr), fun since hs => (by cases hs), fun _ _ hd => by cases hd⟩

/-! ## Records -/

/-- A departure as it was recorded is the leaving as it was. -/
def Tells (planned : Bool) (atMs : Nat) (l : Leaving) : Prop :=
  atMs = l.atMs ∧ (planned = true ↔ l.said = true ∨ l.how = .superseded)

def State.numbers (s : State) : List Nat :=
  s.handed.map Prod.fst ++ (s.answering.map Prod.fst).toList

def State.settled (s : State) : Nat :=
  match s.presence.last with
  | some _ => s.leavings.length - 1
  | none => s.leavings.length

structure Recorded (s : State) : Prop where
  once : s.numbers.Nodup
  settled : ∀ n ∈ s.numbers, n < s.settled
  last : ∀ d, s.presence.last = some d → ∃ l, s.leavings[s.leavings.length - 1]? = some l ∧
    Tells d.planned d.atMs l
  waits : ∀ n d deadline, s.answering = some (n, d, deadline) → ∃ l, s.leavings[n]? = some l ∧
    Tells d.planned d.atMs l
  handed : ∀ n r, (n, r) ∈ s.handed → ∃ l, s.leavings[n]? = some l ∧ Tells r.planned r.atMs l

theorem Recorded.congr (h : Recorded s) (hlast : s'.presence.last = s.presence.last)
    (hanswering : s'.answering = s.answering) (hleavings : s'.leavings = s.leavings)
    (hhanded : s'.handed = s.handed) : Recorded s' := by
  have hnumbers : s'.numbers = s.numbers := by
    rw [State.numbers, hhanded, hanswering, State.numbers]
  have hsettled : s'.settled = s.settled := by
    rw [State.settled, hlast, hleavings, State.settled]
  refine ⟨?_, ?_, ?_, ?_, ?_⟩
  · rw [hnumbers]
    exact h.once
  · rw [hnumbers, hsettled]
    exact h.settled
  · rw [hlast, hleavings]
    exact h.last
  · rw [hanswering, hleavings]
    exact h.waits
  · rw [hhanded, hleavings]
    exact h.handed

theorem Recorded.leave (h : Recorded s) (hslot : Slot s) {conn : Nat}
    (hc : s.current = some conn) (how : Departure) (atMs : Nat) (now : Instant) :
    Recorded (s.leave conn how atMs now) := by
  have hlater : ∀ {n : Nat} {l : Leaving}, s.leavings[n]? = some l →
      (s.leave conn how atMs now).leavings[n]? = some l := fun hl =>
    List.getElem?_append_left (List.getElem?_eq_some_iff.mp hl).1 ▸ hl
  have hsettled : (s.leave conn how atMs now).settled = s.leavings.length := by
    rw [State.settled]
    show (s.leavings ++ [_]).length - 1 = _
    rw [length_append, length_singleton, Nat.add_sub_cancel]
  refine ⟨h.once, fun n hn => ?_, fun d hd => ?_, fun n d deadline hd => ?_, fun n r hr => ?_⟩
  · rw [hsettled]
    have hlt := h.settled n hn
    rw [State.settled] at hlt
    split at hlt <;> omega
  · refine ⟨{ conn, said := s.said, how, atMs }, ?_, ?_⟩
    · show (s.leavings ++ [_])[(s.leavings ++ [_]).length - 1]? = _
      rw [length_append, length_singleton, Nat.add_sub_cancel]
      exact List.getElem?_concat_length
    · cases hd
      refine ⟨rfl, ?_⟩
      have hdetaching := hslot.detaching
      rw [hc] at hdetaching
      cases hsaid : s.said <;> simp_all
  · obtain ⟨l, hl, ht⟩ := h.waits n d deadline hd
    exact ⟨l, hlater hl, ht⟩
  · obtain ⟨l, hl, ht⟩ := h.handed n r hr
    exact ⟨l, hlater hl, ht⟩

theorem Recorded.numbered (h : Recorded s) {n : Nat} (hfresh : n ∉ s.handed.map Prod.fst)
    (hn : n < s.settled) {numbers : List Nat} (hnumbers : numbers = s.handed.map Prod.fst ++ [n]) :
    numbers.Nodup ∧ ∀ k ∈ numbers, k < s.settled := by
  subst hnumbers
  refine ⟨nodup_append.mpr ⟨(nodup_append.mp h.once).1, nodup_singleton n, ?_⟩, ?_⟩
  · intro a ha b hb
    rw [mem_singleton.mp hb]
    rintro rfl
    exact hfresh ha
  · intro k hk
    rcases mem_snoc.mp hk with hk | hk
    · exact h.settled k (mem_append_left _ hk)
    · rw [hk]
      exact hn

theorem Recorded.hand (h : Recorded s) {n : Nat} {d : Departed} {l : Leaving}
    (hfresh : n ∉ s.handed.map Prod.fst) (hn : n < s.settled) (hl : s.leavings[n]? = some l)
    (ht : Tells d.planned d.atMs l) (sessions : Option Nat) : Recorded (s.hand n d sessions) := by
  have hnumbers : (s.hand n d sessions).numbers = s.handed.map Prod.fst ++ [n] := by
    rw [State.numbers, State.hand]
    simp
  obtain ⟨honce, hsettled⟩ := h.numbered hfresh hn hnumbers
  refine ⟨honce, hsettled, h.last, fun _ _ _ hw => (by cases hw), fun k r hr => ?_⟩
  rcases mem_snoc.mp hr with hr | hr
  · exact h.handed k r hr
  · cases hr
    exact ⟨l, hl, ht⟩

theorem Recorded.answer (h : Recorded s) {n : Nat} {d : Departed} {l : Leaving}
    (hfresh : n ∉ s.handed.map Prod.fst) (hn : n < s.settled) (hl : s.leavings[n]? = some l)
    (ht : Tells d.planned d.atMs l) (deadline now : Instant) (census : Census) :
    Recorded (s.answer n d deadline now census) := by
  rw [State.answer]
  split
  · exact h.hand hfresh hn hl ht _
  · have hnumbers : ({ s with answering := some (n, d, deadline) } : State).numbers =
        s.handed.map Prod.fst ++ [n] := rfl
    obtain ⟨honce, hsettled⟩ := h.numbered hfresh hn hnumbers
    refine ⟨honce, hsettled, h.last, fun k e dl hw => ?_, h.handed⟩
    cases hw
    exact ⟨l, hl, ht⟩

theorem Recorded.takeLast (h : Recorded s) (now : Instant) (first : Census) :
    Recorded (s.takeLast now first) := by
  rw [State.takeLast]
  split
  · exact h
  · rename_i d hd
    obtain ⟨l, hl, ht⟩ := h.last d hd
    have hlength := (List.getElem?_eq_some_iff.mp hl).1
    have hold : ∀ n ∈ s.numbers, n < s.leavings.length - 1 := by
      intro n hn
      have hlt := h.settled n hn
      rwa [State.settled, hd] at hlt
    have hfresh : s.leavings.length - 1 ∉ s.handed.map Prod.fst := fun hmem =>
      Nat.lt_irrefl _ (hold _ (mem_append_left _ hmem))
    have htaken : Recorded { s with presence := s.presence.takeLast } := by
      refine ⟨h.once, fun n hn => ?_, fun _ he => (by cases he), h.waits, h.handed⟩
      show n < s.leavings.length
      have hlt := hold n hn
      omega
    dsimp only
    split
    · exact htaken.hand hfresh hlength hl ht _
    · exact htaken.answer hfresh hlength hl ht _ _ _

theorem Recorded.act (h : Recorded s) (hslot : Slot s) {e : Event} (hs : s.act span e = some s') :
    Recorded s' := by
  cases e with
  | hello conn atMs now first =>
    rw [State.act] at hs
    split at hs
    · cases hs
      rw [State.hello]
      cases hc : s.current with
      | none =>
        exact Recorded.takeLast (s := s.take conn now) (h.congr rfl rfl rfl rfl) now first
      | some old =>
        have hleft := h.leave hslot hc .superseded atMs now
        exact Recorded.takeLast (s := (s.leave old .superseded atMs now).take conn now)
          (hleft.congr rfl rfl rfl rfl) now first
    · cases hs
  | detach conn =>
    rw [State.act] at hs
    split at hs
    · split at hs
      · cases hs
        exact h.congr rfl rfl rfl rfl
      · cases hs
        exact h
    · cases hs
  | close conn atMs now =>
    rw [State.act] at hs
    split at hs
    · split at hs
      · rename_i hc
        cases hs
        exact h.leave hslot hc .closed atMs now
      · cases hs
        exact h
    · cases hs
  | answer now census =>
    rw [State.act] at hs
    split at hs
    · rename_i n d deadline hanswering
      cases hs
      obtain ⟨l, hl, ht⟩ := h.waits n d deadline hanswering
      have hmem : n ∈ s.numbers := by
        rw [State.numbers, hanswering]
        exact mem_append_right _ mem_cons_self
      have honce := h.once
      rw [State.numbers, hanswering, nodup_append] at honce
      have hfresh : n ∉ s.handed.map Prod.fst := fun hn =>
        honce.2.2 n hn n mem_cons_self rfl
      exact h.answer hfresh (h.settled n hmem) hl ht deadline now census
    · cases hs
  | poll now census first =>
    rw [State.act] at hs
    split at hs
    · cases hs
      rw [State.poll]
      split
      · exact h.congr rfl rfl rfl rfl
      · rename_i bound _
        rcases confirm_cases (s.observed bound now census) now (now + freshCountWait) now first with
          ⟨-, -, heq⟩ | heq | heq <;> rw [heq] <;> exact h.congr rfl rfl rfl rfl
    · cases hs
  | confirm now census =>
    rw [State.act] at hs
    split at hs
    · rename_i decided deadline _
      cases hs
      rcases confirm_cases s decided deadline now census with ⟨-, -, heq⟩ | heq | heq <;>
        rw [heq] <;> exact h.congr rfl rfl rfl rfl
    · cases hs

theorem recorded_reachable {boot : Instant} (h : (machine span boot).Reachable s) :
    Recorded s := by
  refine Machine.Reaches.invariant_of (P := Recorded) ?_ (fun s e s' hr hrec _ hs => ?_) h
  · refine ⟨nodup_nil, fun n hn => (by cases hn), fun _ hd => (by cases hd),
      fun _ _ _ hw => (by cases hw), fun _ _ hr => by cases hr⟩
  · have hstep : s.step span e = some s' := hs
    rw [State.step] at hstep
    split at hstep
    · cases hstep
    rename_i hnow
    have hslot := ((kept_reachable hr).tick (Nat.le_of_not_lt hnow)).slot
    exact Recorded.act (s := s.tick (e.time s)) (hrec.congr rfl rfl rfl rfl) hslot hstep

/-! ## The floor stops itself only when idle -/

end VibeField.Native.Orphan
