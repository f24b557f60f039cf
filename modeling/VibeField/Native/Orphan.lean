import VibeField.Base.Machine
import Mathlib.Data.List.Nodup

/-!
# The floor's orphan bound

A floor whose management slot has been empty for a span, with no session counted, stops itself.
The slot has one holder; its going is recorded, with whether it left on purpose, and the next
hello is handed the record.  The bound polls the slot and the census, decides, and asks for a count
from after its decision before it stops the floor.

What runs between two awaits is one step.  A census and the clock are what a step is given.
-/

namespace VibeField.Native.Orphan

abbrev Instant := Nat

/-- The floor's own session count. -/
inductive Census where
  | counted (sessions : Nat)
  | notYet
  | unknown
  deriving DecidableEq

def Census.sessions : Census → Option Nat
  | .counted n => some n
  | .notYet | .unknown => none

inductive Departure where
  | closed
  | superseded
  deriving DecidableEq

structure Departed where
  planned : Bool
  atMs : Nat
  leftAt : Instant
  deriving DecidableEq

/-- What a hello is handed: `HelloAck.lastManager`. -/
structure NativeLastManager where
  planned : Bool
  atMs : Nat
  sessions : Option Nat
  deriving DecidableEq

def Departed.record (d : Departed) (sessions : Option Nat) : NativeLastManager :=
  { planned := d.planned, atMs := d.atMs, sessions }

/-! ## Presence -/

/-- `ManagerPresence`. -/
structure Presence where
  detaching : Option Nat
  vacantSince : Option Instant
  last : Option Departed

def Presence.new (now : Instant) : Presence :=
  { detaching := none, vacantSince := some now, last := none }

def Presence.held (p : Presence) : Presence := { p with vacantSince := none }

def Presence.detach (p : Presence) (conn : Nat) : Presence := { p with detaching := some conn }

def Presence.left (p : Presence) (conn : Nat) (how : Departure) (atMs : Nat) (now : Instant) :
    Presence :=
  let said := decide (p.detaching = some conn)
  { detaching := if said then none else p.detaching
    vacantSince := if how = .closed then some now else p.vacantSince
    last := some { planned := said || decide (how = .superseded), atMs, leftAt := now } }

def Presence.takeLast (p : Presence) : Presence := { p with last := none }

def freshCount (deadline now : Instant) : Census → Option (Option Nat)
  | .counted n => some (some n)
  | .unknown => some none
  | .notYet => if now ≥ deadline then some none else none

def freshCountWait : Nat := 2000

/-! ## The bound's policy -/

inductive Verdict where
  | wait
  | stop
  deriving DecidableEq

structure OrphanBound where
  /-- The vacancy this span belongs to. -/
  vacancy : Option Instant
  idleSince : Option Instant

def OrphanBound.new : OrphanBound := { vacancy := none, idleSince := none }

def OrphanBound.entered (b : OrphanBound) (vacant : Instant) : OrphanBound :=
  if b.vacancy ≠ some vacant then { vacancy := some vacant, idleSince := none } else b

def OrphanBound.observe (span : Nat) (b : OrphanBound) (now : Instant)
    (vacantSince : Option Instant) (census : Option Nat) : OrphanBound × Verdict :=
  match vacantSince with
  | none => ({ vacancy := none, idleSince := none }, .wait)
  | some vacant =>
    let b := b.entered vacant
    if census ≠ some 0 then ({ b with idleSince := none }, .wait)
    else
      let since := b.idleSince.getD now
      ({ b with idleSince := some since }, if now - since ≥ span then .stop else .wait)

def OrphanBound.refused (b : OrphanBound) : OrphanBound := { b with idleSince := none }

/-! ## The floor -/

/-- Where the bound's loop is. -/
inductive Phase where
  | polling
  | confirming (decided deadline : Instant)
  /-- The shutdown was requested: on which decision, and which count from after it. -/
  | done (decided : Instant) (count : Option Nat)
  deriving DecidableEq

/-- How a client left, as it was. -/
structure Leaving where
  conn : Nat
  /-- It had said that it would. -/
  said : Bool
  how : Departure
  atMs : Nat
  deriving DecidableEq

structure State where
  clock : Instant
  presence : Presence
  /-- `current_client`. -/
  current : Option Nat
  /-- The hello that waits for its record's count, the slot's lock in its hand: which leaving, how
  it was, and until when it waits. -/
  answering : Option (Nat × Departed × Instant)
  bound : OrphanBound
  phase : Phase
  /-- The holder has said detach since it took the slot. -/
  said : Bool
  /-- When the slot changed hands. -/
  moves : List Instant
  /-- What the loop's polls read. -/
  readings : List (Instant × Census)
  leavings : List Leaving
  /-- The records that hellos were handed, with which leaving each is of. -/
  handed : List (Nat × NativeLastManager)

def State.boot (now : Instant) : State :=
  { clock := now, presence := .new now, current := none, answering := none, bound := .new
    phase := .polling, said := false, moves := [], readings := [], leavings := [], handed := [] }

inductive Event where
  /-- A hello that was verified; `first` is the count as it is first read, where it is asked for. -/
  | hello (conn atMs : Nat) (now : Instant) (first : Census)
  | detach (conn : Nat)
  /-- A connection ends. -/
  | close (conn atMs : Nat) (now : Instant)
  /-- The count a hello waits for is read. -/
  | answer (now : Instant) (census : Census)
  | poll (now : Instant) (census first : Census)
  /-- The count from after the bound's decision is read. -/
  | confirm (now : Instant) (census : Census)

def State.leave (s : State) (conn : Nat) (how : Departure) (atMs : Nat) (now : Instant) : State :=
  { s with
    presence := s.presence.left conn how atMs now
    current := none
    said := false
    moves := s.moves ++ [now]
    leavings := s.leavings ++ [{ conn, said := s.said, how, atMs }] }

def State.hand (s : State) (n : Nat) (d : Departed) (sessions : Option Nat) : State :=
  { s with answering := none, handed := s.handed ++ [(n, d.record sessions)] }

def State.answer (s : State) (n : Nat) (d : Departed) (deadline now : Instant) (census : Census) :
    State :=
  match freshCount deadline now census with
  | some sessions => s.hand n d sessions
  | none => { s with answering := some (n, d, deadline) }

def State.takeLast (s : State) (now : Instant) (first : Census) : State :=
  match s.presence.last with
  | none => s
  | some d =>
    let s' := { s with presence := s.presence.takeLast }
    if d.planned then s'.hand (s.leavings.length - 1) d first.sessions
    else s'.answer (s.leavings.length - 1) d (now + freshCountWait) now first

def State.take (s : State) (conn : Nat) (now : Instant) : State :=
  { s with
    current := some conn
    presence := s.presence.held
    moves := s.moves ++ [now] }

def State.hello (s : State) (conn atMs : Nat) (now : Instant) (first : Census) : State :=
  let s :=
    match s.current with
    | some old => s.leave old .superseded atMs now
    | none => s
  (s.take conn now).takeLast now first

def State.confirmed (s : State) (decided : Instant) (census : Option Nat) : State :=
  if s.presence.vacantSince = none ∨ census ≠ some 0 then
    { s with bound := s.bound.refused, phase := .polling }
  else { s with phase := .done decided census }

def State.confirm (s : State) (decided deadline now : Instant) (census : Census) : State :=
  match freshCount deadline now census with
  | some count => s.confirmed decided count
  | none => { s with phase := .confirming decided deadline }

def State.observed (s : State) (bound : OrphanBound) (now : Instant) (census : Census) : State :=
  { s with bound, readings := s.readings ++ [(now, census)] }

def State.poll (span : Nat) (s : State) (now : Instant) (census first : Census) : State :=
  match OrphanBound.observe span s.bound now s.presence.vacantSince census.sessions with
  | (bound, .wait) => s.observed bound now census
  | (bound, .stop) => (s.observed bound now census).confirm now (now + freshCountWait) now first

def Event.time (s : State) : Event → Instant
  | .hello _ _ now _ | .close _ _ now | .answer now _ | .poll now _ _ | .confirm now _ => now
  | .detach _ => s.clock

def State.tick (s : State) (now : Instant) : State := { s with clock := now }

/-- What an event does at its time.  The slot's lock keeps a hello that waits alone with the slot. -/
def State.act (span : Nat) (s : State) : Event → Option State
  | .hello conn atMs now first =>
    if s.answering = none then some (s.hello conn atMs now first) else none
  | .detach conn =>
    if s.answering = none then
      -- a request of a connection that does not hold the slot is refused
      if s.current = some conn then
        some { s with presence := s.presence.detach conn, said := true }
      else some s
    else none
  | .close conn atMs now =>
    if s.answering = none then
      if s.current = some conn then some (s.leave conn .closed atMs now) else some s
    else none
  | .answer now census =>
    match s.answering with
    | some (n, d, deadline) => some (s.answer n d deadline now census)
    | none => none
  | .poll now census first =>
    if s.phase = .polling then some (s.poll span now census first) else none
  | .confirm now census =>
    match s.phase with
    | .confirming decided deadline => some (s.confirm decided deadline now census)
    | _ => none

def State.step (span : Nat) (s : State) (e : Event) : Option State :=
  if e.time s < s.clock then none else (s.tick (e.time s)).act span e

def machine (span : Nat) (boot : Instant) : Machine State Event where
  start := .boot boot
  next := State.step span

/-! ## What is claimed -/

def Phase.requested : Phase → Prop
  | .done _ _ => True
  | _ => False

/-- The floor is idle where its shutdown was just requested: since its first zero no client has
taken the slot or left it, every census read is a counted zero, the decision came a whole span
later, and the count from after the decision is zero. -/
structure TrulyIdle (span : Nat) (s : State) : Prop where
  empty : s.current = none
  idle : ∃ decided since before after, s.phase = .done decided (some 0) ∧
    s.readings = before ++ (since, .counted 0) :: after ∧ (∀ r ∈ after, r.2 = .counted 0) ∧
    since + span ≤ decided ∧ ∀ t ∈ s.moves, t ≤ since

/-- Each leaving's record is handed once at most, and says whether it was planned. -/
structure Handed (s : State) : Prop where
  once : (s.handed.map Prod.fst).Nodup
  planned : ∀ n r, (n, r) ∈ s.handed → ∃ l, s.leavings[n]? = some l ∧
    r.atMs = l.atMs ∧ (r.planned = true ↔ l.said = true ∨ l.how = .superseded)

def Unbroken (s : State) : Event → Prop
  | .confirm _ (.counted 0) =>
    s.presence.vacantSince = none ∨ s.presence.vacantSince = s.bound.vacancy
  | _ => True

end VibeField.Native.Orphan
