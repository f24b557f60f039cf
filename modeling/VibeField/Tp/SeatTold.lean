import VibeField.Tp.Fanout

/-!
# The seat every leg was told

A `SeatRun` is the table with the last seat each connection was told of each session.
While no attach loses a seat's release, every activation on a `geometry-events` leg was
told its session's seat as it stands, after every operation.
-/

namespace VibeField.Tp

open Option ActivationTable

def seatLegs (es : List Effect) : List LegRef :=
  es.filterMap fun e =>
    match e with
    | .send leg (.geometryState _) => some leg
    | _ => none

structure SeatRun where
  table : ActivationTable
  told : ConnectionId → SessionId → Option Seat
  /-- every leg that was ever told a seat -/
  wrote : List LegRef

namespace SeatRun

def perform (s : SeatRun) (m : Moment) (op : Op) : SeatRun :=
  let r := s.table.apply m op
  { table := r.1
    told := fun c session => (seatTold c session r.2).or (s.told c session)
    wrote := s.wrote ++ seatLegs r.2 }

def machine (cellBootId : String) (legs : ConnectionId → LegRef) :
    Machine SeatRun (Moment × Op) where
  start := { table := .new cellBootId, told := fun _ _ => none, wrote := [] }
  next s e := if e.2.onLegs legs then some (s.perform e.1 e.2) else none

/-- Who should know the seat does, and nobody else was told. -/
structure SeatKnown (s : SeatRun) : Prop where
  current : ∀ x a, s.table.get x = some a → a.control.geometryEvents = true →
    ∀ seat, s.table.seat a.sessionId = some seat →
      s.told a.control.connectionId a.sessionId = some seat
  negotiated : ∀ leg ∈ s.wrote, leg.geometryEvents = true

variable {s : SeatRun} {cellBootId : String} {legs : ConnectionId → LegRef}

structure Kept (legs : ConnectionId → LegRef) (s : SeatRun) : Prop where
  indexed : s.table.WellIndexed
  onLegs : s.table.OnLegs legs
  known : s.SeatKnown

theorem onLegs_apply {t : ActivationTable} {m : Moment} {op : Op} (h : t.WellIndexed)
    (hlegs : t.OnLegs legs) (hop : op.onLegs legs = true) : (t.apply m op).1.OnLegs legs := by
  intro x b hb
  by_cases hattach : ∃ i, op = .attachControl i
  · obtain ⟨i, rfl⟩ := hattach
    have hleg : i.leg = legs i.leg.connectionId := beq_iff_eq.mp hop
    have htouch := touch_apply h m (.attachControl i) x
    rw [hb] at htouch
    generalize driven x (t.apply m (.attachControl i)).2 = es at htouch
    cases ha : t.get x with
    | none =>
      rw [ha] at htouch
      cases htouch with
      | opened _ _ _ => exact hleg
    | some a =>
      rw [ha] at htouch
      cases htouch with
      | kept => exact hlegs x b ha
      | reattached _ _ _ _ _ _ _ =>
        unfold Activation.reattached
        split <;> exact hleg
  · obtain ⟨a, ha, hcontrol, -⟩ := sameLegs_apply (m := m) h
      (fun i hi => hattach ⟨i, hi⟩) x b hb
    rw [← hcontrol]
    exact hlegs x a ha

theorem seatLegs_negotiated {es : List Effect} (h : Negotiated es) :
    ∀ leg ∈ seatLegs es, leg.geometryEvents = true := by
  intro leg hleg
  obtain ⟨e, he, hsome⟩ := List.mem_filterMap.mp hleg
  split at hsome
  · next leg' g =>
    obtain rfl := some.inj hsome
    exact h _ g he
  · cases hsome

theorem Kept.perform (h : s.Kept legs) {m : Moment} {op : Op} (hop : op.onLegs legs = true)
    (hseat : op.losesSeat s.table = false) : (s.perform m op).Kept legs := by
  have hfanned := fanned_apply (m := m) h.indexed h.onLegs hop hseat
  refine ⟨h.indexed.apply m op, onLegs_apply h.indexed h.onLegs hop, ?_, ?_⟩
  · intro x b hb hnegotiated seat hs
    simp only [SeatRun.perform] at hb hs ⊢
    rcases hfanned.told x b hb hnegotiated seat hs with
      htold | ⟨hsilent, ht, a, ha, hc, hsession, hneg⟩
    · rw [htold, some_or]
    · rw [hsilent, none_or, ← hc, ← hsession]
      exact h.known.current x a ha hneg seat (hsession ▸ ht)
  · intro leg hleg
    rcases List.mem_append.mp hleg with hleg | hleg
    · exact h.known.negotiated leg hleg
    · exact seatLegs_negotiated hfanned.negotiated leg hleg

theorem Kept.start (cellBootId : String) (legs : ConnectionId → LegRef) :
    (machine cellBootId legs).start.Kept legs :=
  ⟨.new cellBootId, fun x a ha => (by cases ha),
    ⟨fun x a ha => (by cases ha), fun leg hleg => (by cases hleg)⟩⟩

/-- In every run without an attach that loses a seat's release, the seat is known. -/
theorem seatKnown_of_orderly
    (h : (machine cellBootId legs).Reaches (fun s e => e.2.losesSeat s.table = false) s) :
    s.SeatKnown := by
  have hkept : s.Kept legs := by
    refine h.invariant (P := Kept legs) (Kept.start cellBootId legs) ?_
    intro s e s' hs hseat hnext
    simp only [machine] at hnext
    split at hnext
    · next hop => exact Option.some.inj hnext ▸ hs.perform hop hseat
    · cases hnext
  exact hkept.known

namespace Sample

def eventLegs (c : ConnectionId) : LegRef := { Tp.Sample.leg c with geometryEvents := true }

def attach (clientId : ClientId) (c : ConnectionId) (session : SessionId) (x : ActivationId)
    (replaces : Option ActivationId) : Moment × Op :=
  (Tp.Sample.moment, .attachControl { Tp.Sample.attach c session x replaces with
    set := { Tp.Sample.set with clientId := clientId }
    leg := eventLegs c
    claims := { Tp.Sample.claims session with clientId := clientId } })

def claimed : List (Moment × Op) :=
  [attach "win:1" 1 "s1" "a" none, attach "win:2" 3 "s1" "c" none,
    (Tp.Sample.moment, .viewAttached "a" "a" 1),
    (Tp.Sample.moment, .geometryFinalize (eventLegs 1)
      { callerActivationId := "a"
        sessionId := "s1"
        clientId := "win:1"
        ghostteaViewId := "a"
        attachmentEpoch := 1
        baseRevision := 0
        claimantViewId := "pane"
        op := .claim 80 24 }
      (.claimed 1 80 24))]

end Sample

/-- The second client was told who holds the seat. -/
theorem seatKnown_claimed :
    ∃ s : SeatRun, ((s.told 3 "s1").any fun seat => seat.holder.isSome) = true ∧ s.SeatKnown := by
  obtain ⟨s, hreach, hp⟩ := Machine.exists_of_orderly_run (M := machine "boot" Sample.eventLegs)
    (fun s e => e.2.losesSeat s.table = false)
    (fun s => (s.told 3 "s1").any fun seat => seat.holder.isSome) Sample.claimed (by decide)
  exact ⟨s, hp, seatKnown_of_orderly hreach⟩

/-- The first client then attaches under an id that another of its sessions has, in
place of the holder: the seat empties and the second client still hears of the holder. -/
theorem release_unheard :
    ¬ ∀ s, (machine "boot" Sample.eventLegs).Reachable s → ∀ x a, s.table.get x = some a →
      a.control.geometryEvents = true → ∀ seat, s.table.seat a.sessionId = some seat →
        s.told a.control.connectionId a.sessionId = some seat := by
  intro hall
  obtain ⟨s, hreach, hp⟩ := Machine.exists_of_run (M := machine "boot" Sample.eventLegs)
    (fun s => (s.table.get "c").any fun a => a.control.geometryEvents &&
      (s.table.seat a.sessionId).any fun seat =>
        s.told a.control.connectionId a.sessionId != some seat)
    (Sample.claimed ++ [Sample.attach "win:1" 1 "s2" "b" none,
      Sample.attach "win:1" 1 "s1" "b" (some "a")]) (by decide)
  obtain ⟨a, ha, hp⟩ := (Option.any_eq_true _ _).mp hp
  rw [Bool.and_eq_true] at hp
  obtain ⟨seat, hseat, hold⟩ := (Option.any_eq_true _ _).mp hp.2
  exact (bne_iff_ne.mp hold) (hall s hreach "c" a ha hp.1 seat hseat)

end SeatRun
end VibeField.Tp
