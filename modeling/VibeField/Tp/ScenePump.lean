import VibeField.Base.Broadcast
import VibeField.Base.Machine
import VibeField.Tp.Trf1
import VibeField.Tp.Wire

/-!
# The presentation pump

One activation's pump: its session's frames become units on the frames leg.  The pump
is a loop that waits at a point of its code, and everything it asks for (the demand,
the credit, a seed slot, a rendered frame, the writer) answers as it likes.

A `PumpRun` is the pump beside the feed it reads, with the units it emitted.
-/

namespace VibeField.Tp

/-! ## A session's frames -/

def routeCapacity : Nat := 32

/-- A packet the engine published, under its number, or a loss nobody can attribute. -/
inductive Routed where
  | frame (index : Nat) (packet : Packet)
  | gap
  deriving DecidableEq, Repr

def Routed.number : Routed → Option Nat
  | frame index _ => some index
  | gap => none

/-- What a session's engine published, how far the router has come on the hub, and the
session's route. -/
structure Feed where
  published : List Packet
  taken : Nat
  route : List Routed
  closed : Bool
  deriving DecidableEq, Repr

namespace Feed

inductive Event where
  | publish (packet : Packet)
  | route
  /-- the router fell behind the hub, and lost so many packets of this session -/
  | lag (lost : Nat)
  | close
  deriving DecidableEq, Repr

def next (f : Feed) : Event → Option Feed
  | .publish packet => some { f with published := f.published ++ [packet] }
  | .route =>
    match f.published[f.taken]? with
    | none => none
    | some packet =>
      if f.closed then none
      else some { f with taken := f.taken + 1, route := f.route ++ [.frame f.taken packet] }
  | .lag lost =>
    if f.closed ∨ f.published.length < f.taken + lost then none
    else some { f with taken := f.taken + lost, route := f.route ++ [.gap] }
  | .close => some { f with closed := true }

/-- What a read of the session's frames gives. -/
inductive Received where
  | packet (index : Nat) (packet : Packet) (position : Nat)
  | lost (position : Nat)
  | closed
  | waiting
  deriving DecidableEq, Repr

def recv (f : Feed) (position : Nat) : Received :=
  match Broadcast.recv routeCapacity f.route f.closed position with
  | .item (.frame index packet) position => .packet index packet position
  | .item .gap position => .lost position
  | .lagged position => .lost position
  | .closed => .closed
  | .waiting => .waiting

end Feed

/-! ## Units -/

inductive TransferKind where
  | seed
  | catchup
  deriving DecidableEq, Repr

structure TransferBegin where
  transferId : String
  kind : TransferKind
  totalBytes : Nat
  chunkCount : Nat
  cols : Nat
  rows : Nat
  scrollbackRows : Nat
  checksum : UInt32
  deriving DecidableEq, Repr

inductive UnitBody where
  | trf1Frame (base : Option SceneContentStamp) (result : SceneContentStamp)
  | transferBegin (base : Option SceneContentStamp) (result : SceneContentStamp)
      (transfer : TransferBegin)
  | transferChunk (transferId : String) (chunkIndex byteOffset : Nat)
  | transferEnd (transferId : String)
  deriving DecidableEq, Repr

structure Envelope where
  creditEpoch : Nat
  activationSequence : Nat
  sessionId : SessionId
  activationId : ActivationId
  leaseEpoch : Nat
  body : UnitBody
  payload : Packet
  deriving DecidableEq, Repr

/-- A unit that went to the writer, and the frame it is of. -/
structure Emitted where
  frame : Nat
  unit : Envelope
  deriving DecidableEq, Repr

namespace ScenePump

inductive Admission where
  | admitted
  | starved
  | gone
  deriving DecidableEq, Repr

structure PumpStart where
  activationId : ActivationId
  sessionId : SessionId
  leaseEpoch : Nat
  creditEpoch : Nat
  sceneEpoch : SceneEpoch
  maxChunkBytes : Nat
  maxUrgentUnitBytes : Nat

abbrev Generation := Nat × Nat

inductive Stage where
  | start
  | chunk (index : Nat)
  | finish
  deriving DecidableEq, Repr

/-- A transfer under way: its frame, and the unit that waits for credit. -/
structure Transfer where
  index : Nat
  packet : Packet
  header : Trf1Header
  transferId : String
  /-- it answers a full frame the pump asked for -/
  asked : Bool
  stage : Stage
  unit : Envelope

/-- Where the pump waits. -/
inductive Point where
  /-- the head of the loop -/
  | head
  /-- no demand -/
  | parked
  /-- before a full frame: for credit, for a seed slot, to have it rendered, to read it -/
  | credit
  | slot
  | render
  | forced
  | sending (transfer : Transfer)
  | listening
  | ended

structure Pump where
  start : PumpStart
  activationSequence : Nat
  lastSent : Option Nat
  firstSeed : Bool
  transferCounter : Nat
  needsFull : Bool
  lastSceneGeneration : Option Generation
  /-- the position of the reader, while the pump holds a subscription -/
  subscription : Option Nat
  point : Point

namespace Pump

def new (start : PumpStart) : Pump where
  start := start
  activationSequence := 0
  lastSent := none
  firstSeed := true
  transferCounter := 0
  needsFull := true
  lastSceneGeneration := none
  subscription := none
  point := .head

def stamp (p : Pump) (revision : Nat) : SceneContentStamp where
  sceneEpoch := p.start.sceneEpoch
  sceneRevision := revision

def envelope (p : Pump) (body : UnitBody) (payload : Packet) : Pump × Envelope :=
  let sequence := p.activationSequence + 1
  ({ p with activationSequence := sequence },
    { creditEpoch := p.start.creditEpoch
      activationSequence := sequence
      sessionId := p.start.sessionId
      activationId := p.start.activationId
      leaseEpoch := p.start.leaseEpoch
      body := body
      payload := payload })

def turn (p : Pump) (routed : Nat) (stop : Bool) (generation : Option Generation) : Pump :=
  if stop then { p with point := .ended }
  else
    let p :=
      if generation ≠ p.lastSceneGeneration then
        { p with needsFull := true, lastSceneGeneration := generation }
      else p
    if generation.isNone then { p with needsFull := true, subscription := none, point := .parked }
    else
      { p with
        subscription := some (p.subscription.getD routed)
        point := if p.needsFull then .credit else .listening }

/-! ### Deltas -/

/-- What an ordinary unit came to: sent, starved, or the activation is gone. -/
inductive Delta where
  | sent (unit : Envelope)
  | dropped
  | gone

def delta (p : Pump) (packet : Packet) (header : Trf1Header) (answer : Admission)
    (written : Bool) : Pump × Delta :=
  if packet.length > p.start.maxUrgentUnitBytes then (p, .dropped)
  else
    let (p, unit) :=
      p.envelope (.trf1Frame (p.lastSent.map p.stamp) (p.stamp header.revision)) packet
    match answer with
    | .admitted =>
      if written then ({ p with lastSent := some header.revision }, .sent unit) else (p, .gone)
    | .starved => (p, .dropped)
    | .gone => (p, .gone)

/-! ### Transfers -/

def chunkBytes (p : Pump) : Nat := max p.start.maxChunkBytes 1

/-- The unit of a stage of a transfer, under the next sequence. -/
def stageUnit (p : Pump) (packet : Packet) (header : Trf1Header) (transferId : String) :
    Stage → Pump × Envelope
  | .start =>
    let kind := if p.firstSeed then TransferKind.seed else .catchup
    p.envelope
      (.transferBegin (if p.firstSeed then none else p.lastSent.map p.stamp)
        (p.stamp header.revision)
        { transferId := transferId
          kind := kind
          totalBytes := packet.length
          chunkCount := max ((packet.length + p.chunkBytes - 1) / p.chunkBytes) 1
          cols := header.cols
          rows := header.rows
          scrollbackRows := (Trf1Header.scrollbackRows packet).getD 0
          checksum := crc32c packet }) []
  | .chunk index =>
    p.envelope (.transferChunk transferId index (index * p.chunkBytes))
      ((packet.drop (index * p.chunkBytes)).take p.chunkBytes)
  | .finish => p.envelope (.transferEnd transferId) []

def enter (p : Pump) (t : Transfer) (stage : Stage) : Pump :=
  let (p, unit) := p.stageUnit t.packet t.header t.transferId stage
  { p with point := .sending { t with stage := stage, unit := unit } }

/-- A self-contained frame is sent as a transfer. -/
def transfer (p : Pump) (index : Nat) (packet : Packet) (header : Trf1Header) (asked : Bool) :
    Pump :=
  let counter := p.transferCounter + 1
  let transferId := p.start.activationId ++ "-" ++ toString counter
  let (p, unit) := { p with transferCounter := counter }.stageUnit packet header transferId .start
  { p with
    point := .sending
      { index := index
        packet := packet
        header := header
        transferId := transferId
        asked := asked
        stage := .start
        unit := unit } }

def chunkOrEnd (p : Pump) (t : Transfer) (index : Nat) : Stage :=
  if index * p.chunkBytes < t.packet.length then .chunk index else .finish

def advance (p : Pump) (t : Transfer) : Pump :=
  match t.stage with
  | .start => p.enter t (p.chunkOrEnd t 0)
  | .chunk index => p.enter t (p.chunkOrEnd t (index + 1))
  | .finish =>
    { p with
      lastSent := some t.header.revision
      firstSeed := false
      needsFull := if t.asked then false else p.needsFull
      point := .head }

/-! ### Steps -/

/-- How the wait for a seed slot was answered. -/
inductive SlotAnswer where
  | acquired
  | closed
  | woken (stop live : Bool)
  deriving DecidableEq, Repr

inductive Step where
  | turn (stop : Bool) (generation : Option Generation)
  | wake
  | ask (answer : Admission) (stop : Bool)
  | slot (answer : SlotAnswer)
  | refresh (ok : Bool)
  | timeout
  /-- a read of the session's frames, with what the host answers about the frame -/
  | read (generation : Option Generation) (answer : Admission) (written : Bool)
  | send (answer : Admission) (stop written : Bool)
  deriving DecidableEq, Repr

/-- A packet while the pump listens. -/
def heard (p : Pump) (index : Nat) (packet : Packet) (generation : Option Generation)
    (answer : Admission) (written : Bool) : Pump × Option Emitted :=
  if generation.isNone ∨ generation ≠ p.lastSceneGeneration then
    ({ p with needsFull := true, point := .head }, none)
  else
    match Trf1Header.parse packet with
    | none => ({ p with point := .head }, none)
    | some header =>
      if packet.length > p.start.maxUrgentUnitBytes ∧ header.whole then
        (p.transfer index packet header false, none)
      else
        match p.delta packet header answer written with
        | (p, .sent unit) => ({ p with point := .head }, some ⟨index, unit⟩)
        | (p, .dropped) => ({ p with needsFull := true, point := .head }, none)
        | (p, .gone) => ({ p with point := .ended }, none)

def awaited (p : Pump) (index : Nat) (packet : Packet) : Pump :=
  match Trf1Header.parse packet with
  | none => p
  | some header => if header.whole then p.transfer index packet header true else p

def next (p : Pump) (f : Feed) : Step → Option (Pump × Option Emitted)
  | .turn stop generation =>
    match p.point with
    | .head => some (p.turn f.route.length stop generation, none)
    | _ => none
  | .wake =>
    match p.point with
    | .parked | .listening => some ({ p with point := .head }, none)
    | _ => none
  | .ask answer stop =>
    match p.point, answer with
    | .credit, .admitted => some ({ p with point := if p.firstSeed then .slot else .render }, none)
    | .credit, .starved => some (if stop then { p with point := .ended } else p, none)
    | .credit, .gone => some ({ p with point := .ended }, none)
    | _, _ => none
  | .slot answer =>
    match p.point, answer with
    | .slot, .acquired => some ({ p with point := .render }, none)
    | .slot, .closed => some ({ p with point := .ended }, none)
    | .slot, .woken stop live =>
      some (if stop then { p with point := .ended }
        else if live then p
        else { p with point := .head }, none)
    | _, _ => none
  | .refresh ok =>
    match p.point with
    | .render => some ({ p with point := if ok then .forced else .ended }, none)
    | _ => none
  | .timeout =>
    match p.point with
    | .forced => some ({ p with point := .head }, none)
    | _ => none
  | .read generation answer written =>
    match p.point, p.subscription with
    | .listening, some position =>
      match f.recv position with
      | .packet index packet position =>
        some ({ p with subscription := some position }.heard index packet generation answer written)
      | .lost position =>
        some ({ p with subscription := some position, needsFull := true, point := .head }, none)
      | .closed => some ({ p with point := .ended }, none)
      | .waiting => none
    | .forced, some position =>
      match f.recv position with
      | .packet index packet position =>
        some ({ p with subscription := some position }.awaited index packet, none)
      | .lost position => some ({ p with subscription := some position }, none)
      | .closed => some ({ p with point := .ended }, none)
      | .waiting => none
    | _, _ => none
  | .send answer stop written =>
    match p.point, answer with
    | .sending t, .admitted =>
      some (if written then (p.advance t, some ⟨t.index, t.unit⟩)
        else ({ p with point := .ended }, none))
    | .sending _, .starved => some (if stop then { p with point := .ended } else p, none)
    | .sending _, .gone => some ({ p with point := .ended }, none)
    | _, _ => none

end Pump

/-! ## A pump beside its feed -/

structure PumpRun where
  feed : Feed
  pump : Pump
  units : List Emitted

namespace PumpRun

inductive Event where
  | feed (event : Feed.Event)
  | pump (step : Pump.Step)
  deriving DecidableEq, Repr

def next (s : PumpRun) : Event → Option PumpRun
  | .feed event => (s.feed.next event).map fun feed => { s with feed := feed }
  | .pump step =>
    (s.pump.next s.feed step).map fun r =>
      { s with pump := r.1, units := s.units ++ r.2.toList }

def machine (start : PumpStart) : Machine PumpRun Event where
  start :=
    { feed := { published := [], taken := 0, route := [], closed := false }
      pump := .new start
      units := [] }
  next := next

end PumpRun
end ScenePump
end VibeField.Tp
