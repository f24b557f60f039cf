import VibeField.Tp.Lineage

/-!
# A pump's seed slot

A seed takes one of its connection's slots before its frame is rendered.  The slot is a
local of the full frame and its transfer: it is dropped where they return early, and
otherwise it moves into the call that sends the seed's end.

A `Slotted` is a pump beside its feed, with the slot it holds.  `Fits` says that it
holds one just while its seed is inside the full frame or the transfer.
-/

namespace VibeField.Tp

open Option

def Envelope.seed (u : Envelope) : Option String :=
  match u.body with
  | .transferBegin _ _ t => if t.kind = .seed then some t.transferId else none
  | _ => none

def Envelope.finishes (u : Envelope) : Option String :=
  match u.body with
  | .transferEnd transferId => some transferId
  | _ => none

namespace ScenePump

def Point.transferring : Point → Bool
  | .render | .forced | .sending _ => true
  | _ => false

/-- A pump beside its feed, and whether it holds a seed slot. -/
structure Slotted where
  feed : Feed
  pump : Pump
  slot : Bool

namespace Slotted

def spawn (start : PumpStart) : Slotted where
  feed := { published := [], taken := 0, route := [], closed := false }
  pump := .new start
  slot := false

def answers (free : Nat) (closed : Bool) : Pump.Step → Bool
  | .slot .acquired => 0 < free
  | .send _ _ written => written == !closed
  | .read _ _ written => written == !closed
  | _ => true

/-- What a step of the pump leaves: the pump, the free slots, and the unit it put on the
channel with whether the slot went along. -/
structure Outcome where
  pump : Slotted
  free : Nat
  posted : Option (Envelope × Bool)

def settle (q : Slotted) (free : Nat) (acquired : Bool) (pump : Pump) (emitted : Option Emitted) :
    Outcome :=
  let held := q.slot || acquired
  let moved := held && (emitted.bind fun e => e.unit.finishes).isSome
  let kept := held && !moved && pump.point.transferring
  let dropped := held && !moved && !pump.point.transferring
  { pump := { q with pump := pump, slot := kept }
    free := free - acquired.toNat + dropped.toNat
    posted := emitted.map fun e => (e.unit, moved) }

def step (q : Slotted) (free : Nat) (closed : Bool) (step : Pump.Step) : Option Outcome :=
  if answers free closed step then
    (q.pump.next q.feed step).map fun r =>
      q.settle free (decide (step = .slot .acquired)) r.1 r.2
  else none

end Slotted
end ScenePump

/-! ## What a step of the pump does to its seed -/

namespace ScenePump

variable {p q : Pump} {f : Feed} {o : Option Emitted}

/-- The unit that waits is the unit of the transfer's stage. -/
def Pump.Carries (p : Pump) (t : Transfer) : Prop :=
  match t.stage with
  | .start => t.unit.seed = (if p.firstSeed then some t.transferId else none) ∧
      t.unit.finishes = none
  | .chunk _ => t.unit.seed = none ∧ t.unit.finishes = none
  | .finish => t.unit.seed = none ∧ t.unit.finishes = some t.transferId

namespace Pump.Carries

variable {t : Transfer}

theorem finishes (h : p.Carries t) (hstage : t.stage ≠ .finish) : t.unit.finishes = none := by
  unfold Pump.Carries at h
  cases hs : t.stage with
  | finish => exact absurd hs hstage
  | _ => simp only [hs] at h; exact h.2

theorem finishes_finish (h : p.Carries t) (hstage : t.stage = .finish) :
    t.unit.finishes = some t.transferId := by
  unfold Pump.Carries at h
  simp only [hstage] at h
  exact h.2

theorem seed_start (h : p.Carries t) (hfirst : p.firstSeed = true) (hstage : t.stage = .start) :
    t.unit.seed = some t.transferId := by
  unfold Pump.Carries at h
  simp only [hstage, hfirst] at h
  exact h.1

theorem seed_none (h : p.Carries t) (hnot : t.stage ≠ .start ∨ p.firstSeed = false) :
    t.unit.seed = none := by
  unfold Pump.Carries at h
  cases hs : t.stage with
  | start =>
    have hfirst : p.firstSeed = false := hnot.resolve_left fun hne => hne hs
    simp only [hs, hfirst] at h
    exact h.1
  | _ => simp only [hs] at h; exact h.1

end Pump.Carries

/-- One step of a pump, as far as its seed goes.  The flag says that the step took a
slot. -/
inductive Moves (p : Pump) : Bool → Pump → Option Emitted → Prop
  /-- the pump waits on, or leaves what it was doing -/
  | rests (q : Pump) (hseed : q.firstSeed = p.firstSeed)
      (hneeds : p.needsFull = true → q.needsFull = true)
      (hpoint : q.point.transferring = false)
      (hslot : q.point = .slot → q.firstSeed = true)
      (hlisten : q.point = .listening → p.point = .listening ∨ q.needsFull = false)
      (hends : (∃ t, p.point = .sending t) ∨ p.point = .ended → q.point = .ended) :
      Moves p false q none
  | stays (hpoint : p.point.transferring = true) : Moves p false p none
  | tells (q : Pump) (e : Emitted) (hp : p.point = .listening) (hq : q.point = .head)
      (hseed : q.firstSeed = p.firstSeed) (hneeds : p.needsFull = true → q.needsFull = true)
      (hnone : e.unit.seed = none) (hends : e.unit.finishes = none) : Moves p false q (some e)
  | takes (hp : p.point = .slot) : Moves p true { p with point := .render } none
  | readies (q : Pump) (hp : p.point = .credit ∧ p.firstSeed = false ∨
        p.point = .render ∨ p.point = .forced)
      (hq : q.point = .render ∨ q.point = .forced) (hseed : q.firstSeed = p.firstSeed)
      (hneeds : p.needsFull = true → q.needsFull = true) : Moves p false q none
  | begins (q : Pump) (t : Transfer) (hp : p.point = .forced ∨ p.point = .listening)
      (hq : q.point = .sending t) (hstage : t.stage = .start) (hcarries : q.Carries t)
      (hseed : q.firstSeed = p.firstSeed) (hneeds : p.needsFull = true → q.needsFull = true) :
      Moves p false q none
  | sends (q : Pump) (t u : Transfer) (e : Emitted) (hp : p.point = .sending t)
      (hstage : t.stage ≠ .finish) (he : e.unit = t.unit) (hq : q.point = .sending u)
      (hnext : u.stage ≠ .start) (hid : u.transferId = t.transferId) (hcarries : q.Carries u)
      (hseed : q.firstSeed = p.firstSeed) (hneeds : p.needsFull = true → q.needsFull = true) :
      Moves p false q (some e)
  | ends (q : Pump) (t : Transfer) (e : Emitted) (hp : p.point = .sending t)
      (hstage : t.stage = .finish) (he : e.unit = t.unit) (hq : q.point = .head)
      (hseed : q.firstSeed = false) : Moves p false q (some e)

theorem Moves.leaves (hseed : q.firstSeed = p.firstSeed)
    (hneeds : p.needsFull = true → q.needsFull = true)
    (hq : q.point = .head ∨ q.point = .ended)
    (hends : (∃ t, p.point = .sending t) ∨ p.point = .ended → q.point = .ended) :
    Moves p false q none := by
  rcases hq with hq | hq <;>
    exact .rests q hseed hneeds (by rw [hq]; rfl) (by simp [hq]) (by simp [hq]) hends

theorem turn_spec (p : Pump) (routed : Nat) (stop : Bool) (generation : Option Generation) :
    (p.turn routed stop generation).firstSeed = p.firstSeed ∧
      (p.needsFull = true → (p.turn routed stop generation).needsFull = true) ∧
      ((p.turn routed stop generation).point = .ended ∨
        (p.turn routed stop generation).point = .parked ∨
        (p.turn routed stop generation).point = .credit ∨
        (p.turn routed stop generation).point = .listening ∧
          (p.turn routed stop generation).needsFull = false) := by
  unfold Pump.turn
  cases stop with
  | true => exact ⟨rfl, id, .inl rfl⟩
  | false =>
    by_cases h : generation = p.lastSceneGeneration
    · cases generation <;> cases hfull : p.needsFull <;> simp [← h, hfull]
    · cases generation <;> simp [h]

theorem moves_turn (stop : Bool) (generation : Option Generation) (routed : Nat)
    (hp : p.point = .head) : Moves p false (p.turn routed stop generation) none := by
  obtain ⟨hseed, hneeds, hpoint⟩ := turn_spec p routed stop generation
  have hends : (∃ t, p.point = .sending t) ∨ p.point = .ended →
      (p.turn routed stop generation).point = .ended := by simp [hp]
  refine .rests _ hseed hneeds ?_ ?_ ?_ hends
  · rcases hpoint with h | h | h | h <;> simp [h, Point.transferring]
  · rcases hpoint with h | h | h | h <;> simp [h]
  · rcases hpoint with h | h | h | h <;> simp [h]

theorem moves_transfer (index : Nat) (packet : Packet) (header : Trf1Header) (asked : Bool)
    (hp : p.point = .forced ∨ p.point = .listening) {q : Pump} (hq : q.firstSeed = p.firstSeed)
    (hneeds : p.needsFull = true → q.needsFull = true) :
    Moves p false (q.transfer index packet header asked) none := by
  refine .begins _ _ hp rfl rfl ?_ ?_ ?_
  · refine ⟨?_, rfl⟩
    simp only [Pump.transfer, Pump.stageUnit, Pump.envelope, Envelope.seed]
    cases q.firstSeed <;> rfl
  · exact hq
  · exact hneeds

theorem carries_enter (t : Transfer) {stage : Stage} (h : stage ≠ .start) (u : Transfer)
    (hu : (p.enter t stage).point = .sending u) :
    u.stage = stage ∧ u.transferId = t.transferId ∧ (p.enter t stage).Carries u := by
  cases stage with
  | start => exact absurd rfl h
  | chunk index =>
    simp only [Pump.enter, Point.sending.injEq] at hu
    subst hu
    exact ⟨rfl, rfl, rfl, rfl⟩
  | finish =>
    simp only [Pump.enter, Point.sending.injEq] at hu
    subst hu
    exact ⟨rfl, rfl, rfl, rfl⟩

theorem moves_enter (t : Transfer) (e : Emitted) {stage : Stage} (hp : p.point = .sending t)
    (hstage : t.stage ≠ .finish) (he : e.unit = t.unit) (h : stage ≠ .start) :
    Moves p false (p.enter t stage) (some e) := by
  obtain ⟨u, hu⟩ : ∃ u, (p.enter t stage).point = .sending u := ⟨_, rfl⟩
  obtain ⟨hs, hid, hcarries⟩ := carries_enter t h u hu
  refine .sends _ t u e hp hstage he hu (hs ▸ h) hid hcarries ?_ ?_
  · cases stage <;> rfl
  · cases stage <;> exact id

theorem chunkOrEnd_ne (t : Transfer) (index : Nat) : p.chunkOrEnd t index ≠ .start := by
  unfold Pump.chunkOrEnd
  split <;> simp

theorem moves_advance (t : Transfer) (hp : p.point = .sending t) :
    Moves p false (p.advance t) (some ⟨t.index, t.unit⟩) := by
  unfold Pump.advance
  cases hstage : t.stage with
  | start => exact moves_enter t _ hp (by simp [hstage]) rfl (chunkOrEnd_ne t 0)
  | chunk index => exact moves_enter t _ hp (by simp [hstage]) rfl (chunkOrEnd_ne t (index + 1))
  | finish => exact .ends _ t _ hp hstage rfl rfl rfl

theorem delta_spec (p : Pump) (packet : Packet) (header : Trf1Header) (answer : Admission)
    (written : Bool) :
    (p.delta packet header answer written).1.firstSeed = p.firstSeed ∧
      (p.delta packet header answer written).1.needsFull = p.needsFull ∧
      ∀ u, (p.delta packet header answer written).2 = .sent u →
        u.seed = none ∧ u.finishes = none := by
  unfold Pump.delta
  split
  · exact ⟨rfl, rfl, by simp⟩
  · cases answer with
    | admitted =>
      cases written with
      | true =>
        refine ⟨rfl, rfl, ?_⟩
        rintro u ⟨⟩
        exact ⟨rfl, rfl⟩
      | false => exact ⟨rfl, rfl, by simp⟩
    | starved => exact ⟨rfl, rfl, by simp⟩
    | gone => exact ⟨rfl, rfl, by simp⟩

theorem moves_heard {r : Pump} (index : Nat) (packet : Packet) (generation : Option Generation)
    (answer : Admission) (written : Bool) (hp : p.point = .listening)
    (hr : r.firstSeed = p.firstSeed) (hneeds : p.needsFull = true → r.needsFull = true) :
    Moves p false (r.heard index packet generation answer written).1
      (r.heard index packet generation answer written).2 := by
  have hends : ∀ {x : Point}, (∃ t, p.point = .sending t) ∨ p.point = .ended → x = .ended := by
    simp [hp]
  unfold Pump.heard
  split
  · exact .leaves hr (fun _ => rfl) (.inl rfl) hends
  · cases hparse : Trf1Header.parse packet with
    | none => exact .leaves hr hneeds (.inl rfl) hends
    | some header =>
      dsimp only
      split
      · exact moves_transfer index packet header false (.inr hp) hr hneeds
      · obtain ⟨hfirst, hfull, hunit⟩ := delta_spec r packet header answer written
        split
        · next d u hd =>
          rw [hd] at hfirst hfull hunit
          obtain ⟨hseed, hfinishes⟩ := hunit u rfl
          exact .tells _ _ hp rfl (hfirst.trans hr) (fun h => hfull.trans (hneeds h)) hseed
            hfinishes
        · next d hd =>
          rw [hd] at hfirst
          exact .leaves (hfirst.trans hr) (fun _ => rfl) (.inl rfl) hends
        · next d hd =>
          rw [hd] at hfirst hfull
          exact .leaves (hfirst.trans hr) (fun h => hfull.trans (hneeds h)) (.inr rfl) hends

theorem moves_awaited {r : Pump} (index : Nat) (packet : Packet) (hp : p.point = .forced)
    (hpoint : r.point = .forced) (hr : r.firstSeed = p.firstSeed)
    (hneeds : p.needsFull = true → r.needsFull = true) :
    Moves p false (r.awaited index packet) none := by
  have hstays : Moves p false r none := .readies r (.inr (.inr hp)) (.inr hpoint) hr hneeds
  unfold Pump.awaited
  split
  · exact hstays
  · next header hparse =>
    split
    · exact moves_transfer index packet header true (.inl hp) hr hneeds
    · exact hstays

/-- One step of the pump moves its seed. -/
theorem moves_of_next {step : Pump.Step} (hfirst : p.point = .slot → p.firstSeed = true)
    (hstep : p.next f step = some (q, o)) :
    Moves p (decide (step = .slot .acquired)) q o := by
  cases step with
  | turn stop generation =>
    simp only [Pump.next] at hstep
    split at hstep <;> cases hstep
    exact moves_turn stop generation _ ‹_›
  | wake =>
    simp only [Pump.next] at hstep
    split at hstep <;> cases hstep
    all_goals
      next hp => exact .leaves rfl id (.inl rfl) (by simp [hp])
  | ask answer stop =>
    simp only [Pump.next] at hstep
    split at hstep <;> cases hstep
    · next hp =>
      by_cases hfirst : p.firstSeed = true
      · rw [if_pos hfirst]
        exact .rests _ rfl id rfl (fun _ => hfirst) (by simp) (by simp [hp])
      · rw [if_neg hfirst]
        exact .readies _ (.inl ⟨hp, by simpa using hfirst⟩) (.inl rfl) rfl id
    · next hp =>
      cases stop with
      | true => exact .leaves rfl id (.inr rfl) (by simp [hp])
      | false =>
        exact .rests _ rfl id (by simp [hp, Point.transferring]) (by simp [hp]) (by simp [hp])
          (by simp [hp])
    · next hp => exact .leaves rfl id (.inr rfl) (by simp [hp])
  | slot answer =>
    simp only [Pump.next] at hstep
    split at hstep <;> cases hstep
    · next hp => exact .takes hp
    · next hp => exact .leaves rfl id (.inr rfl) (by simp [hp])
    · next stop live hp =>
      cases stop with
      | true => exact .leaves rfl id (.inr rfl) (by simp [hp])
      | false =>
        cases live with
        | true =>
          exact .rests _ rfl id (by simp [hp, Point.transferring]) (fun _ => hfirst hp)
            (by simp [hp]) (by simp [hp])
        | false => exact .leaves rfl id (.inl rfl) (by simp [hp])
  | refresh ok =>
    simp only [Pump.next] at hstep
    split at hstep <;> cases hstep
    next hp =>
    cases ok with
    | true => exact .readies _ (.inr (.inl hp)) (.inr rfl) rfl id
    | false => exact .leaves rfl id (.inr rfl) (by simp [hp])
  | timeout =>
    simp only [Pump.next] at hstep
    split at hstep <;> cases hstep
    next hp => exact .leaves rfl id (.inl rfl) (by simp [hp])
  | read generation answer written =>
    simp only [Pump.next] at hstep
    split at hstep
    · next position hp _ =>
      have hends : ∀ {x : Point}, (∃ t, p.point = .sending t) ∨ p.point = .ended →
          x = .ended := by simp [hp]
      split at hstep
      · next index packet next hread =>
        have hmoves := moves_heard (r := { p with subscription := some next }) index packet
          generation answer written hp rfl id
        rwa [some.inj hstep] at hmoves
      · cases hstep
        exact .leaves rfl (fun _ => rfl) (.inl rfl) hends
      · cases hstep
        exact .leaves rfl id (.inr rfl) hends
      · cases hstep
    · next position hp _ =>
      split at hstep
      · next index packet next hread =>
        obtain ⟨rfl, rfl⟩ := Prod.mk.inj (some.inj hstep)
        exact moves_awaited index packet hp hp rfl id
      · cases hstep
        exact .readies _ (.inr (.inr hp)) (.inr hp) rfl id
      · cases hstep
        exact .leaves rfl id (.inr rfl) (by simp [hp])
      · cases hstep
    · cases hstep
  | send answer stop written =>
    simp only [Pump.next] at hstep
    split at hstep
    · next t hp =>
      cases written with
      | true =>
        obtain ⟨rfl, rfl⟩ := Prod.mk.inj (some.inj hstep)
        exact moves_advance t hp
      | false =>
        obtain ⟨rfl, rfl⟩ := Prod.mk.inj (some.inj hstep)
        exact .leaves rfl id (.inr rfl) (fun _ => rfl)
    · next t hp =>
      cases stop with
      | true =>
        cases hstep
        exact .leaves rfl id (.inr rfl) (fun _ => rfl)
      | false =>
        cases hstep
        exact .stays (by simp [hp, Point.transferring])
    · next t hp =>
      cases hstep
      exact .leaves rfl id (.inr rfl) (fun _ => rfl)
    · cases hstep

/-! ## A pump's seed and its slot -/

def seedsOf (ps : List (Envelope × Bool)) : List String := ps.filterMap fun u => u.1.seed

/-- How far a pump's one seed has come on the channel. -/
inductive Seeded (p : Pump) (ps : List (Envelope × Bool)) : Prop
  | fresh (hfirst : p.firstSeed = true) (hnone : seedsOf ps = [])
      (hstage : ∀ t, p.point = .sending t → t.stage = .start)
  | underWay (hfirst : p.firstSeed = true) (t : Transfer) (hp : p.point = .sending t)
      (hstage : t.stage ≠ .start) (hseed : seedsOf ps = [t.transferId])
  | givenUp (hfirst : p.firstSeed = true) (hp : p.point = .ended) (x : String)
      (hseed : seedsOf ps = [x])
  | sent (hfirst : p.firstSeed = false) (x : String) (hseed : seedsOf ps = [x]) (u : Envelope)
      (hu : (u, true) ∈ ps) (hends : u.finishes = some x)

/-- The slot is held just while a seed is inside its full frame or transfer, and its
pump has begun no other seed. -/
structure Fits (q : Slotted) (ps : List (Envelope × Bool)) : Prop where
  slot : q.slot = (q.pump.firstSeed && q.pump.point.transferring)
  needs : q.pump.firstSeed = true → q.pump.needsFull = true
  awaits : q.pump.point = .slot → q.pump.firstSeed = true
  listens : q.pump.point = .listening → q.pump.firstSeed = false
  carries : ∀ t, q.pump.point = .sending t → q.pump.Carries t
  seeded : Seeded q.pump ps

variable {ps : List (Envelope × Bool)}

theorem seedsOf_append (ps : List (Envelope × Bool)) (u : Envelope) (slot : Bool) :
    seedsOf (ps ++ [(u, slot)]) = seedsOf ps ++ u.seed.toList := by
  cases h : u.seed <;> simp [seedsOf, h]

theorem Seeded.stays_sent (h : Seeded p ps) (hp : p.firstSeed = false)
    (hq : q.firstSeed = false) {us : List (Envelope × Bool)} (hus : seedsOf us = []) :
    Seeded q (ps ++ us) := by
  cases h with
  | sent hfirst x hseed u hu hends =>
    refine .sent hq x ?_ u (List.mem_append_left _ hu) hends
    rw [seedsOf, List.filterMap_append, ← seedsOf, ← seedsOf, hseed, hus]
    rfl
  | fresh hfirst => simp [hp] at hfirst
  | underWay hfirst => simp [hp] at hfirst
  | givenUp hfirst => simp [hp] at hfirst

/-- A pump that was neither sending nor ended has begun no seed that it did not end. -/
theorem Seeded.still (h : Seeded p ps) (hsend : ∀ t, p.point ≠ .sending t)
    (hend : p.point ≠ .ended) (hseed : q.firstSeed = p.firstSeed)
    (hstage : ∀ t, q.point = .sending t → t.stage = .start) : Seeded q ps := by
  cases h with
  | fresh hfirst hnone => exact .fresh (hseed.trans hfirst) hnone hstage
  | underWay _ t hp => exact absurd hp (hsend t)
  | givenUp _ hp => exact absurd hp hend
  | sent hfirst x hone u hu hfin => exact .sent (hseed.trans hfirst) x hone u hu hfin

namespace Slotted

variable {s : Slotted} {free : Nat} {acquired : Bool}

theorem settle_free (hfree : acquired = true → 0 < free ∧ s.slot = false) (q : Pump)
    (o : Option Emitted) :
    (s.settle free acquired q o).free + (s.settle free acquired q o).pump.slot.toNat +
        ((s.settle free acquired q o).posted.map Prod.snd).toList.count true =
      free + s.slot.toNat := by
  have hposted : ((s.settle free acquired q o).posted.map Prod.snd).toList.count true =
      ((s.slot || acquired) && (o.bind fun e => e.unit.finishes).isSome).toNat := by
    cases o with
    | none => simp [settle]
    | some e =>
      simp only [settle, map_some, bind_some, toList_some]
      cases (s.slot || acquired) && e.unit.finishes.isSome <;> rfl
  rw [hposted]
  simp only [settle]
  cases hacq : acquired with
  | false =>
    cases s.slot <;> cases (o.bind fun e => e.unit.finishes).isSome <;>
      cases q.point.transferring <;> rfl
  | true =>
    obtain ⟨hpos, hslot⟩ := hfree hacq
    rw [hslot]
    cases (o.bind fun e => e.unit.finishes).isSome <;> cases q.point.transferring <;>
      simp <;> omega

theorem fits_quiet {q : Pump} (hslot : ((s.slot || acquired) && q.point.transferring) =
      (q.firstSeed && q.point.transferring))
    (hneeds : q.firstSeed = true → q.needsFull = true)
    (hawaits : q.point = .slot → q.firstSeed = true)
    (hlistens : q.point = .listening → q.firstSeed = false)
    (hcarries : ∀ t, q.point = .sending t → q.Carries t) (hseeded : Seeded q ps) :
    Fits (s.settle free acquired q none).pump
      (ps ++ (s.settle free acquired q none).posted.toList) := by
  refine ⟨?_, hneeds, hawaits, hlistens, hcarries, ?_⟩
  · simpa [settle] using hslot
  · simpa [settle] using hseeded

theorem fits_posted {q : Pump} {e : Emitted} (moved : Bool)
    (hmoved : (s.slot && e.unit.finishes.isSome) = moved)
    (hslot : (s.slot && !moved && q.point.transferring) = (q.firstSeed && q.point.transferring))
    (hneeds : q.firstSeed = true → q.needsFull = true)
    (hawaits : q.point = .slot → q.firstSeed = true)
    (hlistens : q.point = .listening → q.firstSeed = false)
    (hcarries : ∀ t, q.point = .sending t → q.Carries t)
    (hseeded : Seeded q (ps ++ [(e.unit, moved)])) :
    Fits (s.settle free false q (some e)).pump
      (ps ++ (s.settle free false q (some e)).posted.toList) := by
  refine ⟨?_, hneeds, hawaits, hlistens, hcarries, ?_⟩
  · simpa [settle, hmoved] using hslot
  · simpa [settle, hmoved] using hseeded

/-- One step of a pump keeps its slot with its seed. -/
theorem fits_settle (h : Fits s ps) {q : Pump} {o : Option Emitted}
    (hm : Moves s.pump acquired q o) :
    Fits (s.settle free acquired q o).pump (ps ++ (s.settle free acquired q o).posted.toList) := by
  cases hm with
  | rests q hseed hneeds hpoint hslot hlisten hends =>
    have hlistens : q.point = .listening → q.firstSeed = false := by
      intro hq
      rcases hlisten hq with hp | hfull
      · exact hseed.trans (h.listens hp)
      · by_contra hfirst
        have := hneeds (h.needs (hseed ▸ by simpa using hfirst))
        simp [hfull] at this
    have hnot : ∀ t, q.point ≠ .sending t := by
      intro t hq
      simp [hq, Point.transferring] at hpoint
    refine fits_quiet (by simp [hpoint]) (fun hq => hneeds (h.needs (hseed ▸ hq))) hslot hlistens
      (fun t hq => absurd hq (hnot t)) ?_
    cases h.seeded with
    | fresh hfirst hnone hstage =>
      exact .fresh (hseed.trans hfirst) hnone fun t hq => absurd hq (hnot t)
    | underWay hfirst t hp hstage hone =>
      exact .givenUp (hseed.trans hfirst) (hends (.inl ⟨t, hp⟩)) t.transferId hone
    | givenUp hfirst hp x hone => exact .givenUp (hseed.trans hfirst) (hends (.inr hp)) x hone
    | sent hfirst x hone u hu hfin => exact .sent (hseed.trans hfirst) x hone u hu hfin
  | stays hpoint =>
    refine fits_quiet ?_ h.needs h.awaits h.listens h.carries h.seeded
    simp [h.slot]
  | tells q e hp hq hseed hneeds hnone hends =>
    have hfirst := h.listens hp
    have hslot : s.slot = false := by simp [h.slot, hfirst]
    refine fits_posted false (by simp [hslot]) (by simp [hslot, hseed, hfirst])
      (by simp [hseed, hfirst]) (by simp [hq]) (by simp [hq]) (by simp [hq]) ?_
    exact h.seeded.stays_sent hfirst (hseed.trans hfirst) (by simp [seedsOf, hnone])
  | takes hp =>
    have hfirst := h.awaits hp
    exact fits_quiet (by simp [hfirst]) h.needs (by simp) (by simp) (by simp)
      (h.seeded.still (by simp [hp]) (by simp [hp]) rfl (by simp))
  | readies q hp hq hseed hneeds =>
    have hslot : s.slot = s.pump.firstSeed := by
      rw [h.slot]
      rcases hp with ⟨hp, hfirst⟩ | hp | hp
      · simp [hfirst]
      · simp [hp, Point.transferring]
      · simp [hp, Point.transferring]
    have hnot : (∀ t, s.pump.point ≠ .sending t) ∧ s.pump.point ≠ .ended := by
      rcases hp with ⟨hp, -⟩ | hp | hp <;> simp [hp]
    have hlast : q.point ≠ .slot ∧ q.point ≠ .listening ∧ ∀ t, q.point ≠ .sending t := by
      rcases hq with hq | hq <;> simp [hq]
    exact fits_quiet (by simp [hslot, hseed]) (fun hq => hneeds (h.needs (hseed ▸ hq)))
      (fun hq => absurd hq hlast.1) (fun hq => absurd hq hlast.2.1)
      (fun t hq => absurd hq (hlast.2.2 t))
      (h.seeded.still hnot.1 hnot.2 hseed fun t hq => absurd hq (hlast.2.2 t))
  | begins q t hp hq hstage hcarries hseed hneeds =>
    have hslot : (s.slot && q.point.transferring) = (q.firstSeed && q.point.transferring) := by
      rcases hp with hp | hp
      · simp [h.slot, hp, hseed, Point.transferring]
      · simp [h.slot, h.listens hp, hseed]
    have hnot : (∀ t, s.pump.point ≠ .sending t) ∧ s.pump.point ≠ .ended := by
      rcases hp with hp | hp <;> simp [hp]
    refine fits_quiet (by simpa using hslot) (fun hq => hneeds (h.needs (hseed ▸ hq)))
      (by simp [hq]) (by simp [hq]) ?_ ?_
    · intro u hu
      obtain rfl : t = u := Point.sending.inj (hq.symm.trans hu)
      exact hcarries
    · refine h.seeded.still hnot.1 hnot.2 hseed fun u hu => ?_
      obtain rfl : t = u := Point.sending.inj (hq.symm.trans hu)
      exact hstage
  | sends q t u e hp hstage he hq hnext hid hcarries hseed hneeds =>
    have hslot : s.slot = s.pump.firstSeed := by simp [h.slot, hp, Point.transferring]
    have hfinishes : e.unit.finishes = none := he ▸ (h.carries t hp).finishes hstage
    have hq' : q.point.transferring = true := by rw [hq]; rfl
    refine fits_posted false (by simp [hfinishes]) (by simp [hslot, hseed])
      (fun hfirst => hneeds (h.needs (hseed ▸ hfirst))) (by simp [hq]) (by simp [hq]) ?_ ?_
    · intro v hv
      obtain rfl : u = v := Point.sending.inj (hq.symm.trans hv)
      exact hcarries
    cases h.seeded with
    | fresh hfirst hnone hstart =>
      have hunit : e.unit.seed = some t.transferId :=
        he ▸ (h.carries t hp).seed_start hfirst (hstart t hp)
      refine .underWay (hseed.trans hfirst) u hq hnext ?_
      rw [seedsOf_append, hnone, hunit, hid]
      rfl
    | underWay hfirst v hv hstart hone =>
      obtain rfl : t = v := Point.sending.inj (hp.symm.trans hv)
      have hunit : e.unit.seed = none := he ▸ (h.carries t hp).seed_none (.inl hstart)
      refine .underWay (hseed.trans hfirst) u hq hnext ?_
      rw [seedsOf_append, hone, hunit, hid]
      rfl
    | givenUp _ hv => simp [hp] at hv
    | sent hfirst x hone v hv hfin =>
      have hunit : e.unit.seed = none := he ▸ (h.carries t hp).seed_none (.inr hfirst)
      exact h.seeded.stays_sent hfirst (hseed.trans hfirst) (by simp [seedsOf, hunit])
  | ends q t e hp hstage he hq hseed =>
    have hslot : s.slot = s.pump.firstSeed := by simp [h.slot, hp, Point.transferring]
    have hfinishes : e.unit.finishes = some t.transferId :=
      he ▸ (h.carries t hp).finishes_finish hstage
    have hunit : e.unit.seed = none := he ▸ (h.carries t hp).seed_none (.inl (by simp [hstage]))
    refine fits_posted s.slot (by simp [hfinishes]) (by simp [hseed]) (by simp [hseed])
      (by simp [hq]) (by simp [hq]) (by simp [hq]) ?_
    cases h.seeded with
    | fresh hfirst hnone hstart => simp [hstart t hp] at hstage
    | underWay hfirst v hv hstart hone =>
      obtain rfl : t = v := Point.sending.inj (hp.symm.trans hv)
      refine .sent hseed t.transferId ?_ e.unit ?_ hfinishes
      · rw [seedsOf_append, hone, hunit]
        rfl
      · simp [hslot, hfirst]
    | givenUp _ hv => simp [hp] at hv
    | sent hfirst x hone v hv hfin =>
      exact h.seeded.stays_sent hfirst hseed (by simp [seedsOf, hunit])

end Slotted
theorem next_ended (hp : p.point = .ended) (step : Pump.Step) : p.next f step = none := by
  cases step <;> simp [Pump.next, hp]

theorem heard_quiet (p : Pump) (index : Nat) (packet : Packet) (generation : Option Generation)
    (answer : Admission) : (p.heard index packet generation answer false).2 = none := by
  unfold Pump.heard
  split
  · rfl
  · cases hparse : Trf1Header.parse packet with
    | none => rfl
    | some header =>
      dsimp only
      split
      · rfl
      · split
        · next d u hd =>
          unfold Pump.delta at hd
          split at hd
          · cases hd
          · cases answer <;> cases hd
        · rfl
        · rfl

theorem quiet_of_unwritten {free : Nat} {step : Pump.Step}
    (hans : Slotted.answers free true step = true) (hstep : p.next f step = some (q, o)) :
    o = none := by
  cases step with
  | read generation answer written =>
    obtain rfl : written = false := by simpa [Slotted.answers] using hans
    simp only [Pump.next] at hstep
    split at hstep
    · split at hstep
      · next index packet next hread =>
        have ho := heard_quiet { p with subscription := some next } index packet generation answer
        rwa [some.inj hstep] at ho
      all_goals cases hstep
      all_goals rfl
    · split at hstep <;> cases hstep
      all_goals rfl
    · cases hstep
  | send answer stop written =>
    obtain rfl : written = false := by simpa [Slotted.answers] using hans
    simp only [Pump.next] at hstep
    split at hstep <;> cases hstep
    all_goals rfl
  | _ =>
    simp only [Pump.next] at hstep
    split at hstep <;> cases hstep
    all_goals rfl

end ScenePump

end VibeField.Tp
