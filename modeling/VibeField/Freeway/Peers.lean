import VibeField.Base.Machine
import VibeField.Freeway.Enqueue
import VibeField.Freeway.Mux

/-!
# Two ends of a link

One end opens streams, queues on them, moves them between classes and closes them.
Its writer's frames reach the other end's mux in the order they are written.  The
other end answers, closes or refuses the streams it was opened, and its own frames
come back in any order, since its writer reorders across streams too.  The first
error that closes the link is kept.

An end is orderly when every stream it opens or moves leaves the queued OPENs in an
order its writer keeps, and when it counts a stream it has dropped for as long as
the CLOSE of that stream is still queued.
-/

namespace VibeField.Freeway

structure Peers where
  mux : Mux
  writer : Writer
  /-- Frames written and not yet received, in order. -/
  wire : List Bytes
  peer : Mux
  /-- Frames of the peer not yet received. -/
  back : List Bytes
  fault : Option MuxError

inductive PeersEvent where
  | openStream (spec : StreamSpec) (cls : Class) (payload : Bytes)
  | queue (stream : StreamId) (text : Bool) (payload : Bytes)
  | reclass (stream : StreamId) (cls : Class)
  | grant (stream : StreamId) (bytes : Nat)
  | close (stream : StreamId) (payload : Bytes)
  | link (payload : Bytes)
  | acked (delivered : Nat)
  | setCap (bytes : Nat)
  | setFragmentBytes (bytes : Nat)
  | write
  | deliver (spec : Option StreamSpec)
  | peerAnswers (stream : StreamId) (payload : Bytes)
  | peerCloses (stream : StreamId) (payload : Bytes)
  | peerRefuses (stream : StreamId) (payload : Bytes)
  | read (index : Nat)
  deriving DecidableEq, Repr

namespace Peers

def start (role : Role) : Peers where
  mux := .new role
  writer := .new
  wire := []
  peer := .new role.other
  back := []
  fault := none

def openStream (p : Peers) (spec : StreamSpec) (cls : Class) (payload : Bytes) : Peers :=
  match p.mux.openStream spec with
  | (_, .error _) => p
  | (mux, .ok stream) =>
    { p with
      mux := mux
      writer := (p.writer.openStream stream cls spec.windowed).queue stream .open payload }

def endStream (p : Peers) (stream : StreamId) (payload : Bytes) : Peers :=
  { p with
    writer := p.writer.queue stream .close payload
    mux := p.mux.close stream }

def queueLink (p : Peers) (payload : Bytes) : Peers :=
  match encode { kind := .link, fragment := false, stream := 0, payload := payload } with
  | .ok frame => { p with writer := p.writer.queueLink frame }
  | .error _ => p

def write (p : Peers) : Peers :=
  match p.writer.nextFrame with
  | (writer, some frame) => { p with writer := writer, wire := p.wire ++ [frame] }
  | (writer, none) => { p with writer := writer }

def faultAfter (fault : Option MuxError) : Except MuxError Event → Option MuxError
  | .ok _ => fault
  | .error e => if e.closesLink then fault.or (some e) else fault

def deliver (p : Peers) (spec : Option StreamSpec) : Option Peers :=
  match p.wire with
  | [] => none
  | frame :: rest =>
    let received := p.peer.receive frame fun _ => spec
    some { p with peer := received.1, wire := rest, fault := faultAfter p.fault received.2 }

def send (p : Peers) (kind : FrameType) (stream : StreamId) (payload : Bytes) : Peers :=
  match encode { kind := kind, fragment := false, stream := stream, payload := payload } with
  | .ok frame => { p with back := frame :: p.back }
  | .error _ => p

def read (p : Peers) (index : Nat) : Option Peers :=
  match p.back[index]? with
  | none => none
  | some frame =>
    some
      { p with
        mux := (p.mux.receive frame fun _ => none).1
        back := p.back.eraseIdx index }

def next (p : Peers) : PeersEvent → Option Peers
  -- the id counter must not overflow
  | .openStream spec cls payload =>
    if p.mux.nextOurs + 2 < 2 ^ 64 then some (p.openStream spec cls payload) else none
  | .queue stream text payload =>
    some { p with writer := p.writer.queue stream (if text then .text else .binary) payload }
  | .reclass stream cls => some { p with writer := p.writer.reclass stream cls }
  | .grant stream bytes => some { p with writer := p.writer.grant stream bytes }
  | .close stream payload => some (p.endStream stream payload)
  | .link payload => some (p.queueLink payload)
  | .acked delivered => some { p with writer := p.writer.acked delivered }
  | .setCap bytes => some { p with writer := p.writer.setCap bytes }
  | .setFragmentBytes bytes => some { p with writer := p.writer.setFragmentBytes bytes }
  | .write => some p.write
  | .deliver spec => p.deliver spec
  | .peerAnswers stream payload =>
    if (p.peer.streams.lookup stream).isSome then some (p.send .opened stream payload) else none
  | .peerCloses stream payload =>
    if (p.peer.streams.lookup stream).isSome then
      some ({ p with peer := p.peer.close stream }.send .close stream payload)
    else none
  | .peerRefuses stream payload =>
    if p.peer.ours stream = false ∧ stream ≤ p.peer.peerHigh then
      some ({ p with peer := p.peer.forget stream }.send .openRefused stream payload)
    else none
  | .read index => p.read index

def machine (role : Role) : Machine Peers PeersEvent where
  start := start role
  next := next

/-! ## The condition -/

def lingering (p : Peers) : List StreamId :=
  p.writer.streams.keys.filter fun s =>
    (p.writer.streams.lookup s).any Writer.Stream.closing && (p.mux.streams.lookup s).isNone

def drainsFirst (first second : Class) : Bool :=
  (first == .urgent && second != .urgent) || first == second

def unopened (p : Peers) : List (StreamId × Class) :=
  p.writer.streams.keys.filterMap fun s =>
    match p.writer.streams.lookup s with
    | some state => if state.unopened then some (s, state.cls) else none
    | none => none

def orderly (p : Peers) : PeersEvent → Bool
  | .openStream _ cls _ =>
    p.mux.streams.len ≥ maxStreams ||
      ((p.unopened.all fun t => drainsFirst t.2 cls) &&
        p.mux.streams.len + p.lingering.length < maxStreams)
  | .reclass stream cls =>
    p.unopened.all fun s => s.1 ≠ stream || s.2 == cls ||
      p.unopened.all fun t =>
        if t.1 < stream then drainsFirst t.2 cls
        else t.1 = stream || (cls == .urgent && t.2 != .urgent)
  | _ => true

def Orderly (p : Peers) (e : PeersEvent) : Prop := p.orderly e = true

variable {cls : Class} {p : Peers} {payload : Bytes} {spec : StreamSpec}

theorem mem_unopened {s : StreamId} :
    (s, cls) ∈ p.unopened ↔
      ∃ state, p.writer.streams.lookup s = some state ∧ state.unopened = true ∧
        state.cls = cls := by
  unfold unopened
  rw [List.mem_filterMap]
  constructor
  · rintro ⟨s', -, hs'⟩
    split at hs'
    · next state hstate =>
      split at hs'
      · next hu =>
        obtain ⟨rfl, rfl⟩ := Prod.mk.inj (Option.some.inj hs')
        exact ⟨state, hstate, hu, rfl⟩
      · cases hs'
    · cases hs'
  · rintro ⟨state, hs, hu, rfl⟩
    exact ⟨s, Dict.mem_keys.mpr ⟨state, hs⟩, by simp [hs, hu]⟩

theorem mem_lingering {s : StreamId} :
    s ∈ p.lingering ↔
      (∃ state, p.writer.streams.lookup s = some state ∧ state.closing = true) ∧
        p.mux.streams.lookup s = none := by
  unfold lingering
  rw [List.mem_filter, Dict.mem_keys]
  cases hs : p.writer.streams.lookup s with
  | none => simp
  | some state => simp

/-! ## The operations, spelt out -/

theorem openStream_of_full (h : p.mux.streams.len ≥ maxStreams) :
    p.openStream spec cls payload = p := by
  unfold openStream Mux.openStream
  rw [if_pos h]

theorem openStream_of_room (h : ¬ p.mux.streams.len ≥ maxStreams) :
    p.openStream spec cls payload =
      { p with
        mux :=
          { p.mux with
            nextOurs := p.mux.nextOurs + 2
            streams := p.mux.streams.insert p.mux.nextOurs (.new true spec) }
        writer := (p.writer.openStream p.mux.nextOurs cls spec.windowed).queue p.mux.nextOurs
          .open payload } := by
  unfold openStream Mux.openStream
  rw [if_neg h]

theorem orderly_openStream (hroom : ¬ p.mux.streams.len ≥ maxStreams)
    (hok : p.orderly (.openStream spec cls payload) = true) :
    (∀ t ∈ p.unopened, drainsFirst t.2 cls = true) ∧
      p.mux.streams.len + p.lingering.length < maxStreams := by
  simpa only [orderly, hroom, decide_false, Bool.false_or, Bool.and_eq_true, decide_eq_true_eq,
    List.all_eq_true] using hok

theorem write_of_none {w : Writer} (h : p.writer.nextFrame = (w, none)) :
    p.write = { p with writer := w } := by
  unfold write
  rw [h]

theorem write_of_some {w : Writer} {m : Bytes} (h : p.writer.nextFrame = (w, some m)) :
    p.write = { p with writer := w, wire := p.wire ++ [m] } := by
  unfold write
  rw [h]

theorem of_deliver {p p' : Peers} {spec : Option StreamSpec} (h : p.deliver spec = some p') :
    ∃ frame rest, p.wire = frame :: rest ∧
      p' =
        { p with
          peer := (p.peer.receive frame fun _ => spec).1
          wire := rest
          fault := faultAfter p.fault (p.peer.receive frame fun _ => spec).2 } := by
  unfold deliver at h
  cases hwire : p.wire with
  | nil =>
    rw [hwire] at h
    cases h
  | cons frame rest =>
    rw [hwire] at h
    exact ⟨frame, rest, rfl, (Option.some.inj h).symm⟩

end Peers
end VibeField.Freeway
