import VibeField.Base.Dict
import VibeField.Freeway.Frame

/-!
# The streams of a link

Which end may open which id, and what each frame means for its stream.  The dialer
opens odd ids and the acceptor even ones.  A peer's OPEN names a new id of its
parity above every one it has named.  A frame of an id that was never opened is an
error, and one of a stream that is gone came too late and is dropped.
-/

namespace VibeField.Freeway

inductive Role where
  | dialer
  | acceptor
  deriving DecidableEq, Repr

def Role.other : Role → Role
  | dialer => acceptor
  | acceptor => dialer

def Role.opens (r : Role) (stream : StreamId) : Bool := (stream % 2 == 1) == (r == .dialer)

theorem Role.opens_other (r : Role) (stream : StreamId) :
    r.other.opens stream = !r.opens stream := by
  cases r <;> cases h : (stream % 2 == 1) <;> simp [opens, other, h]

/-- What a stream's kind makes of it. -/
structure StreamSpec where
  windowed : Bool
  messageBound : Nat
  deriving DecidableEq, Repr

/-- What one frame meant. -/
inductive Event where
  | link (payload : Bytes)
  | opened (stream : StreamId) (payload : Bytes) (spec : StreamSpec)
  | notServed (stream : StreamId) (payload : Bytes)
  | answered (stream : StreamId) (answer : Bytes)
  | refused (stream : StreamId) (refusal : Bytes)
  | message (stream : StreamId) (message : Message)
  | pending (stream : StreamId)
  | closed (stream : StreamId) (close : Bytes) (answerOwed : Bool)
  | window (stream : StreamId) (bytes : Nat)
  | late (stream : StreamId)
  deriving DecidableEq

inductive MuxError where
  | frame (error : FrameError)
  | badOpen (stream : StreamId)
  | neverOpened (stream : StreamId)
  | beforeAnswer (stream : StreamId)
  | afterClose (stream : StreamId)
  | tooManyStreams
  | message (stream : StreamId) (error : ReassemblyError)
  deriving DecidableEq, Repr

def MuxError.closesLink : MuxError → Bool
  | message _ _ => false
  | _ => true

namespace Mux

structure Stream where
  ours : Bool
  answered : Bool
  windowed : Bool
  peerClosed : Bool
  weClosed : Bool
  reassembly : Reassembly
  deliveredSinceGrant : Nat
  deriving DecidableEq, Repr

def Stream.new (ours : Bool) (spec : StreamSpec) : Stream where
  ours := ours
  answered := !ours
  windowed := spec.windowed
  peerClosed := false
  weClosed := false
  reassembly := .new spec.messageBound
  deliveredSinceGrant := 0

end Mux

structure Mux where
  role : Role
  nextOurs : Nat
  peerHigh : Nat
  streams : Dict StreamId Mux.Stream

namespace Mux

def new (role : Role) : Mux where
  role := role
  nextOurs :=
    match role with
    | .dialer => 1
    | .acceptor => 2
  peerHigh := 0
  streams := ∅

def ours (m : Mux) (stream : StreamId) : Bool := m.role.opens stream

def openStream (m : Mux) (spec : StreamSpec) : Mux × Except MuxError StreamId :=
  if m.streams.len ≥ maxStreams then (m, .error .tooManyStreams)
  else
    ({ m with
        nextOurs := m.nextOurs + 2
        streams := m.streams.insert m.nextOurs (.new true spec) }, .ok m.nextOurs)

def close (m : Mux) (stream : StreamId) : Mux :=
  match m.streams.lookup stream with
  | none => m
  | some state =>
    if state.peerClosed then { m with streams := m.streams.erase stream }
    else { m with streams := m.streams.insert stream { state with weClosed := true } }

def forget (m : Mux) (stream : StreamId) : Mux :=
  { m with streams := m.streams.erase stream }

def delivered (m : Mux) (stream : StreamId) (bytes : Nat) : Mux × Option Bytes :=
  match m.streams.lookup stream with
  | none => (m, none)
  | some state =>
    if !state.windowed then (m, none)
    else
      let since := state.deliveredSinceGrant + bytes
      if since < streamWindowBytes / 2 then
        ({ m with
            streams := m.streams.insert stream { state with deliveredSinceGrant := since } }, none)
      else
        ({ m with streams := m.streams.insert stream { state with deliveredSinceGrant := 0 } },
          (Freeway.window stream since).toOption)

def peerOpen (m : Mux) (frame : Frame) (spec : Option StreamSpec) :
    Mux × Except MuxError Event :=
  if m.ours frame.stream || frame.stream ≤ m.peerHigh then (m, .error (.badOpen frame.stream))
  else
    let m := { m with peerHigh := frame.stream }
    match spec with
    | none => (m, .ok (.notServed frame.stream frame.payload))
    | some accepted =>
      if m.streams.len ≥ maxStreams then (m, .error .tooManyStreams)
      else
        ({ m with streams := m.streams.insert frame.stream (.new false accepted) },
          .ok (.opened frame.stream frame.payload accepted))

def named (m : Mux) (stream : StreamId) : Bool :=
  if m.ours stream then stream < m.nextOurs else stream ≤ m.peerHigh

def setStream (m : Mux) (stream : StreamId) (state : Stream) : Mux :=
  { m with streams := m.streams.insert stream state }

/-- A frame on a stream that is still here. -/
def onOpenStream (m : Mux) (state : Stream) (frame : Frame) : Mux × Except MuxError Event :=
  let stream := frame.stream
  if state.peerClosed then (m, .error (.afterClose stream))
  else
    match frame.kind with
    | .opened =>
      if !state.ours || state.answered then (m, .error (.badOpen stream))
      else
        (m.setStream stream { state with answered := true }, .ok (.answered stream frame.payload))
    | .openRefused =>
      if !state.ours || state.answered then (m, .error (.badOpen stream))
      else (m.forget stream, .ok (.refused stream frame.payload))
    | .text | .binary =>
      if state.ours && !state.answered then (m, .error (.beforeAnswer stream))
      else
        let (reassembly, result) := state.reassembly.push frame
        let m := m.setStream stream { state with reassembly := reassembly }
        match result with
        | .ok (some message) => (m, .ok (.message stream message))
        | .ok none => (m, .ok (.pending stream))
        | .error e => (m, .error (.message stream e))
    | .close =>
      if state.weClosed then (m.forget stream, .ok (.closed stream frame.payload false))
      else
        (m.setStream stream { state with peerClosed := true },
          .ok (.closed stream frame.payload true))
    | .window =>
      match windowGrant frame with
      | .ok bytes => (m, .ok (.window stream bytes))
      | .error e => (m, .error (.frame e))
    -- `receive` routes these elsewhere
    | .link | .open => (m, .ok (.late stream))

def onStream (m : Mux) (frame : Frame) : Mux × Except MuxError Event :=
  match m.streams.lookup frame.stream with
  | none =>
    if m.named frame.stream then (m, .ok (.late frame.stream))
    else (m, .error (.neverOpened frame.stream))
  | some state => m.onOpenStream state frame

def receive (m : Mux) (message : Bytes) (spec : Bytes → Option StreamSpec) :
    Mux × Except MuxError Event :=
  match decode message with
  | .error e => (m, .error (.frame e))
  | .ok frame =>
    match frame.kind with
    | .link => (m, .ok (.link frame.payload))
    | .open => m.peerOpen frame (spec frame.payload)
    | _ => m.onStream frame

/-! ## Frames of a stream -/

variable {frame : Frame} {m : Mux}

theorem receive_of_stream {message : Bytes}
    (hd : decode message = .ok frame) (hlink : frame.kind ≠ .link) (hopen : frame.kind ≠ .open)
    (spec : Bytes → Option StreamSpec) : m.receive message spec = m.onStream frame := by
  unfold receive
  simp only [hd]

theorem onOpenStream_fragment {state : Stream}
    (hk : frame.kind.fragments = true) (hopen : state.peerClosed = false)
    (hours : state.ours = false) :
    ∃ reassembly,
      (m.onOpenStream state frame).1 =
        m.setStream frame.stream { state with reassembly := reassembly } ∧
      ∀ e, (m.onOpenStream state frame).2 = .error e → e.closesLink = false := by
  refine ⟨(state.reassembly.push frame).1, ?_⟩
  rcases FrameType.fragments_iff.mp hk with hkind | hkind <;>
    simp only [onOpenStream, hkind, hopen, hours, Bool.false_and, Bool.false_eq_true, if_false]
  all_goals
    obtain e | message := (state.reassembly.push frame).2
    · exact ⟨rfl, fun e' he => by cases he; rfl⟩
    · cases message <;> exact ⟨rfl, nofun⟩

theorem onOpenStream_close {state : Stream}
    (hk : frame.kind = .close) (hopen : state.peerClosed = false) :
    m.onOpenStream state frame =
      (if state.weClosed then m.forget frame.stream
        else m.setStream frame.stream { state with peerClosed := true },
        .ok (.closed frame.stream frame.payload !state.weClosed)) := by
  simp only [onOpenStream, hk, hopen, Bool.false_eq_true, if_false]
  cases state.weClosed <;> rfl

/-! ## What stays -/

/-- The same end with other streams. -/
structure Same (m m' : Mux) : Prop where
  role : m'.role = m.role
  nextOurs : m'.nextOurs = m.nextOurs
  peerHigh : m'.peerHigh = m.peerHigh

theorem Same.refl (m : Mux) : Same m m := ⟨rfl, rfl, rfl⟩

theorem same_close (m : Mux) (stream : StreamId) : Same m (m.close stream) := by
  unfold close
  split
  · exact .refl m
  · split <;> exact ⟨rfl, rfl, rfl⟩

theorem same_forget (m : Mux) (stream : StreamId) : Same m (m.forget stream) := ⟨rfl, rfl, rfl⟩

theorem same_onOpenStream (m : Mux) (state : Stream) (frame : Frame) :
    Same m (m.onOpenStream state frame).1 := by
  unfold onOpenStream
  dsimp only
  split
  · exact .refl m
  · cases frame.kind with
    | opened => dsimp only; split <;> exact ⟨rfl, rfl, rfl⟩
    | openRefused => dsimp only; split <;> exact ⟨rfl, rfl, rfl⟩
    | close => dsimp only; split <;> exact ⟨rfl, rfl, rfl⟩
    | window => dsimp only; split <;> exact .refl m
    | link => exact .refl m
    | «open» => exact .refl m
    | text => dsimp only; split; exacts [.refl m, by split <;> exact ⟨rfl, rfl, rfl⟩]
    | binary => dsimp only; split; exacts [.refl m, by split <;> exact ⟨rfl, rfl, rfl⟩]

theorem same_onStream (m : Mux) (frame : Frame) : Same m (m.onStream frame).1 := by
  unfold onStream
  split
  · split <;> exact .refl m
  · exact same_onOpenStream m _ frame

theorem same_receive {message : Bytes} (hd : decode message = .ok frame)
    (hk : frame.kind ≠ .open) (spec : Bytes → Option StreamSpec) :
    Same m (m.receive message spec).1 := by
  unfold receive
  simp only [hd]
  split
  · exact .refl m
  · next ho => exact absurd ho hk
  · exact same_onStream m frame

theorem peerOpen_named (hours : m.ours frame.stream = false)
    (habove : m.peerHigh < frame.stream) (spec : Option StreamSpec) :
    (m.peerOpen frame spec).1.role = m.role ∧
      (m.peerOpen frame spec).1.nextOurs = m.nextOurs ∧
      (m.peerOpen frame spec).1.peerHigh = frame.stream := by
  have hnot : ¬ frame.stream ≤ m.peerHigh := Nat.not_le.mpr habove
  simp only [peerOpen, hours, hnot, decide_false, Bool.or_self, Bool.false_eq_true, if_false]
  cases spec with
  | none => exact ⟨rfl, rfl, rfl⟩
  | some accepted => dsimp only; split <;> exact ⟨rfl, rfl, rfl⟩

end Mux
end VibeField.Freeway
