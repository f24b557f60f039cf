import VibeField.Base.Dict
import VibeField.Freeway.Frame

/-!
# The writer of a link

Which frame goes next.  LINK messages and the urgent class drain first.  The other
classes share what the in-flight cap leaves by deficit round-robin.  Each stream is
one queue (its OPEN, its messages fragment by fragment, its CLOSE) and frames are
reordered across streams only.
-/

namespace VibeField.Freeway

/-- The traffic classes, in drain order. -/
inductive Class where
  | urgent
  | live
  | sync
  | bulk
  deriving DecidableEq, Repr

def Class.shared : Fin 3 → Class
  | 0 => live
  | 1 => sync
  | 2 => bulk

def weights : Fin 3 → Nat
  | 0 => 8
  | 1 => 2
  | 2 => 1

/-- A whole control frame, or a message written out fragment by fragment. -/
structure Queued where
  kind : FrameType
  payload : Bytes
  sent : Nat
  deriving DecidableEq, Repr

def Queued.last (q : Queued) : Bool := q.kind = .close || q.kind = .openRefused

namespace Writer

structure Stream where
  cls : Class
  /-- Bytes the peer has granted, where the stream is windowed. -/
  window : Option Int
  queue : List Queued
  deriving DecidableEq, Repr

def Stream.mayWrite (s : Stream) : Bool := s.window.all fun w => 0 < w

end Writer

structure Writer where
  streams : Dict StreamId Writer.Stream
  rings : Class → List StreamId
  link : List Bytes
  deficits : Fin 3 → Nat
  turn : Fin 3
  fragmentBytes : Nat
  cap : Nat
  written : Nat
  acknowledged : Nat

namespace Writer

def new : Writer where
  streams := ∅
  rings := fun _ => []
  link := []
  deficits := fun _ => 0
  turn := 0
  fragmentBytes := Freeway.fragmentBytes
  cap := watermarkBytes
  written := 0
  acknowledged := 0

def setRing (w : Writer) (cls : Class) (ring : List StreamId) : Writer :=
  { w with rings := Function.update w.rings cls ring }

def setStream (w : Writer) (stream : StreamId) (state : Stream) : Writer :=
  { w with streams := w.streams.insert stream state }

def openStream (w : Writer) (stream : StreamId) (cls : Class) (windowed : Bool) : Writer :=
  w.setStream stream
    { cls := cls
      window := if windowed then some streamWindowBytes else none
      queue := [] }

def queue (w : Writer) (stream : StreamId) (kind : FrameType) (payload : Bytes) : Writer :=
  match w.streams.lookup stream with
  | none => w
  | some state =>
    let w' := w.setStream stream
      { state with queue := state.queue ++ [{ kind := kind, payload := payload, sent := 0 }] }
    if state.queue.isEmpty then w'.setRing state.cls (w.rings state.cls ++ [stream]) else w'

def queueLink (w : Writer) (frame : Bytes) : Writer := { w with link := w.link ++ [frame] }

def reclass (w : Writer) (stream : StreamId) (cls : Class) : Writer :=
  match w.streams.lookup stream with
  | none => w
  | some state =>
    if state.cls = cls then w
    else
      let w' := w.setStream stream { state with cls := cls }
      if stream ∈ w.rings state.cls then
        (w'.setRing state.cls ((w.rings state.cls).erase stream)).setRing cls
          (w.rings cls ++ [stream])
      else w'

def saturatingAdd (a b : Int) : Int := min (a + b) (2 ^ 63 - 1)

def grant (w : Writer) (stream : StreamId) (bytes : Nat) : Writer :=
  match w.streams.lookup stream with
  | none => w
  | some state =>
    match state.window with
    | none => w
    | some window =>
      w.setStream stream
        { state with window := some (saturatingAdd window (min (bytes : Int) (2 ^ 63 - 1))) }

def forget (w : Writer) (stream : StreamId) : Writer :=
  match w.streams.lookup stream with
  | none => w
  | some state =>
    { w with streams := w.streams.erase stream }.setRing state.cls
      ((w.rings state.cls).filter fun id => id ≠ stream)

def setCap (w : Writer) (bytes : Nat) : Writer := { w with cap := max bytes watermarkBytes }

def setFragmentBytes (w : Writer) (bytes : Nat) : Writer :=
  { w with fragmentBytes := max minFragmentBytes (min bytes Freeway.fragmentBytes) }

def acked (w : Writer) (delivered : Nat) : Writer :=
  { w with acknowledged := max w.acknowledged (min delivered w.written) }

def inFlight (w : Writer) : Nat := w.written - w.acknowledged

/-! ## The next frame -/

def cut (w : Writer) (stream : StreamId) (head : Queued) : Frame × Queued × Nat :=
  if head.kind = .text ∨ head.kind = .binary then
    let stop := min (head.sent + w.fragmentBytes) head.payload.length
    let chunk := (head.payload.take stop).drop head.sent
    ({ kind := head.kind
       fragment := decide (stop < head.payload.length)
       stream := stream
       payload := chunk }, { head with sent := stop }, chunk.length)
  else
    ({ kind := head.kind, fragment := false, stream := stream, payload := head.payload },
      { head with sent := head.payload.length }, 0)

def leftover (w : Writer) (stream : StreamId) (head : Queued) (behind : List Queued) :
    List Queued :=
  let head' := (w.cut stream head).2.1
  if head'.sent ≥ head'.payload.length then behind else head' :: behind

def serve (w : Writer) (cls : Class) (stream : StreamId) (state : Stream) (head : Queued)
    (behind : List Queued) : Writer :=
  let charged := (w.cut stream head).2.2
  let queue := w.leftover stream head behind
  if head.last then { w with streams := w.streams.erase stream }
  else
    let w' := w.setStream stream
      { state with window := state.window.map fun window => window - charged, queue := queue }
    if queue.isEmpty then w' else w'.setRing cls (w.rings cls ++ [stream])

/-- One frame from the first stream of the class that may write.  The loop looks at
`tries` streams. -/
def nextFromLoop (cls : Class) : Nat → Writer → Writer × Option Bytes
  | 0, w => (w, none)
  | tries + 1, w =>
    match w.rings cls with
    | [] => (w, none)
    | stream :: rest =>
      let popped := w.setRing cls rest
      match w.streams.lookup stream with
      | none => (popped, none)
      | some state =>
        if !state.mayWrite then nextFromLoop cls tries (w.setRing cls (rest ++ [stream]))
        else
          match state.queue with
          | [] => (popped, none)
          | head :: behind =>
            let served := popped.serve cls stream state head behind
            match encode (popped.cut stream head).1 with
            | .ok bytes => (served, some bytes)
            | .error _ => nextFromLoop cls tries served

def nextFrom (w : Writer) (cls : Class) : Writer × Option Bytes :=
  nextFromLoop cls (w.rings cls).length w

def headCostLoop (cls : Class) : Nat → Writer → Writer × Option Nat
  | 0, w => (w, none)
  | tries + 1, w =>
    match w.rings cls with
    | [] => (w, none)
    | stream :: rest =>
      match w.streams.lookup stream with
      | none => (w, none)
      | some state =>
        if state.mayWrite then
          match state.queue with
          | [] => (w, none)
          | head :: _ =>
            (w, some (min (head.payload.length - head.sent) w.fragmentBytes + 11))
        else headCostLoop cls tries (w.setRing cls (rest ++ [stream]))

def headCost (w : Writer) (cls : Class) : Writer × Option Nat :=
  headCostLoop cls (w.rings cls).length w

/-- Deficit round-robin: a class's deficit grows by its quantum when its turn comes
with too little to send its head frame, and resets when it has nothing to send. -/
def nextSharedLoop (quantum : Nat) : Nat → Writer → Writer × Option Bytes
  | 0, w => (w, none)
  | tries + 1, w =>
    let cls := Class.shared w.turn
    match w.headCost cls with
    | (w, none) =>
      nextSharedLoop quantum tries
        { w with deficits := Function.update w.deficits w.turn 0, turn := w.turn + 1 }
    | (w, some cost) =>
      let deficit := w.deficits w.turn
      if cost ≤ deficit then
        { w with deficits := Function.update w.deficits w.turn (deficit - cost) }.nextFrom cls
      else
        nextSharedLoop quantum tries
          { w with
            deficits := Function.update w.deficits w.turn (deficit + weights w.turn * quantum)
            turn := w.turn + 1 }

def nextShared (w : Writer) : Writer × Option Bytes :=
  nextSharedLoop (w.fragmentBytes * 2) 6 w

def pick (w : Writer) : Writer × Option Bytes :=
  match w.link with
  | frame :: rest => ({ w with link := rest }, some frame)
  | [] =>
    match w.nextFrom .urgent with
    | (w, some frame) => (w, some frame)
    | (w, none) => if w.inFlight ≥ w.cap then (w, none) else w.nextShared

def nextFrame (w : Writer) : Writer × Option Bytes :=
  match w.pick with
  | (w, some frame) => ({ w with written := w.written + frame.length }, some frame)
  | (w, none) => (w, none)

end Writer
end VibeField.Freeway
