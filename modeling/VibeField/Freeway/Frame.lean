import VibeField.Base.Leb128

/-!
# Frames of a link

One message of the link is one frame: a type byte, the stream's id in LEB128, and
the payload.  LINK is the only frame of stream 0, TEXT and BINARY alone may be
fragments, and a WINDOW's payload is one count.  The writer holds a frame to the
rules a reader holds it to.  A stream's fragments are gathered into one message,
up to a bound.
-/

namespace VibeField.Freeway

abbrev StreamId := Nat
abbrev Bytes := List UInt8

/-! ## The registry's numbers -/

def watermarkBytes : Nat := 65536
def minFragmentBytes : Nat := 4096
def fragmentBytes : Nat := 65536
def streamWindowBytes : Nat := 1048576
def maxStreams : Nat := 64
def fragmentBit : UInt8 := 128

inductive FrameType where
  | link
  | open
  | opened
  | text
  | binary
  | close
  | window
  | openRefused
  deriving DecidableEq, Repr

namespace FrameType

def byte : FrameType → UInt8
  | link => 0
  | .open => 1
  | opened => 2
  | text => 3
  | binary => 4
  | close => 5
  | window => 6
  | openRefused => 7

def fromByte (byte : UInt8) : Option FrameType :=
  if byte = 0 then some link
  else if byte = 1 then some .open
  else if byte = 2 then some opened
  else if byte = 3 then some text
  else if byte = 4 then some binary
  else if byte = 5 then some close
  else if byte = 6 then some window
  else if byte = 7 then some openRefused
  else none

def fragments : FrameType → Bool
  | text | binary => true
  | _ => false

theorem fragments_iff {kind : FrameType} :
    kind.fragments = true ↔ kind = text ∨ kind = binary := by
  cases kind <;> simp [fragments]

end FrameType

structure Frame where
  kind : FrameType
  /-- More fragments of the message follow. -/
  fragment : Bool
  stream : StreamId
  payload : Bytes
  deriving DecidableEq, Repr

inductive FrameError where
  | empty
  | unknownType (byte : UInt8)
  | fragmentOn (kind : FrameType)
  | linkOffStreamZero (stream : StreamId)
  | streamOnZero (kind : FrameType)
  | truncatedStreamId
  | streamIdOverflow
  | window
  deriving DecidableEq, Repr

def FrameError.ofLeb128 : Leb128.Error → FrameError
  | .truncated => truncatedStreamId
  | .overflow => streamIdOverflow

def windowGrant (frame : Frame) : Except FrameError Nat :=
  if frame.kind ≠ .window then .error .window
  else
    match Leb128.read frame.payload with
    | .error _ => .error .window
    | .ok (bytes, used) => if used ≠ frame.payload.length then .error .window else .ok bytes

def check (frame : Frame) : Except FrameError Unit :=
  if frame.fragment && !frame.kind.fragments then .error (.fragmentOn frame.kind)
  else if frame.kind = .link ∧ frame.stream ≠ 0 then .error (.linkOffStreamZero frame.stream)
  else if frame.kind ≠ .link ∧ frame.stream = 0 then .error (.streamOnZero frame.kind)
  else if frame.kind = .window then
    match windowGrant frame with
    | .error e => .error e
    | .ok _ => .ok ()
  else .ok ()

/-- Read one frame. -/
def decode (message : Bytes) : Except FrameError Frame :=
  match message with
  | [] => .error .empty
  | first :: rest =>
    match FrameType.fromByte (first &&& ~~~fragmentBit) with
    | none => .error (.unknownType first)
    | some kind =>
      match Leb128.read rest with
      | .error e => .error (.ofLeb128 e)
      | .ok (stream, used) =>
        let frame : Frame :=
          { kind := kind
            fragment := first &&& fragmentBit != 0
            stream := stream
            payload := rest.drop used }
        match check frame with
        | .error e => .error e
        | .ok () => .ok frame

def encode (frame : Frame) : Except FrameError Bytes :=
  match check frame with
  | .error e => .error e
  | .ok () =>
    .ok ((frame.kind.byte ||| if frame.fragment then fragmentBit else 0) ::
      (Leb128.write frame.stream ++ frame.payload))

def window (stream : StreamId) (bytes : Nat) : Except FrameError Bytes :=
  encode { kind := .window, fragment := false, stream := stream, payload := Leb128.write bytes }

/-! ## Reading back what was written -/

theorem fromByte_typeByte (kind : FrameType) (fragment : Bool) :
    FrameType.fromByte ((kind.byte ||| if fragment then fragmentBit else 0) &&& ~~~fragmentBit) =
      some kind := by
  cases kind <;> cases fragment <;> decide

theorem fragment_typeByte (kind : FrameType) (fragment : Bool) :
    ((kind.byte ||| if fragment then fragmentBit else 0) &&& fragmentBit != 0) = fragment := by
  cases kind <;> cases fragment <;> decide

theorem decode_encode {frame : Frame} {message : Bytes} (hstream : frame.stream < 2 ^ 64)
    (h : encode frame = .ok message) : decode message = .ok frame := by
  unfold encode at h
  split at h
  · cases h
  · next hcheck =>
    injection h with h
    subst h
    simp only [decode, fromByte_typeByte, Leb128.read_write hstream, fragment_typeByte,
      List.drop_left, hcheck]

theorem check_ok {frame : Frame} (hstream : frame.stream ≠ 0) (hlink : frame.kind ≠ .link)
    (hwindow : frame.kind ≠ .window) (hfragment : frame.fragment = true → frame.kind.fragments) :
    check frame = .ok () := by
  have hfrag : (frame.fragment && !frame.kind.fragments) = false := by
    cases hf : frame.fragment with
    | false => rfl
    | true => simp [hfragment hf]
  simp [check, hfrag, hlink, hstream, hwindow]

theorem encode_ok {frame : Frame} (h : check frame = .ok ()) :
    ∃ message, encode frame = .ok message := by
  unfold encode
  rw [h]
  exact ⟨_, rfl⟩

/-! ## Messages from fragments -/

inductive Message where
  | text (text : String)
  | binary (bytes : Bytes)
  deriving DecidableEq

inductive ReassemblyError where
  | interleaved (first next : FrameType)
  | tooLarge (bound : Nat)
  | notUtf8
  | notAMessage (kind : FrameType)
  deriving DecidableEq, Repr

/-- One stream's message being rebuilt. -/
structure Reassembly where
  bound : Nat
  kind : Option FrameType
  bytes : Bytes
  deriving DecidableEq, Repr

namespace Reassembly

def new (bound : Nat) : Reassembly where
  bound := bound
  kind := none
  bytes := []

/-- A frame of the stream: `some` when it completes a message. -/
def push (r : Reassembly) (frame : Frame) :
    Reassembly × Except ReassemblyError (Option Message) :=
  if !frame.kind.fragments then (r, .error (.notAMessage frame.kind))
  else if r.kind.any fun first => first ≠ frame.kind then
    (r, .error (.interleaved (r.kind.getD frame.kind) frame.kind))
  else if r.bytes.length + frame.payload.length > r.bound then (r, .error (.tooLarge r.bound))
  else
    let bytes := r.bytes ++ frame.payload
    if frame.fragment then
      ({ r with bytes := bytes, kind := some frame.kind }, .ok none)
    else
      let r := { r with bytes := [], kind := none }
      match frame.kind with
      | .text =>
        match String.fromUTF8? (ByteArray.mk bytes.toArray) with
        | some text => (r, .ok (some (.text text)))
        | none => (r, .error .notUtf8)
      | _ => (r, .ok (some (.binary bytes)))

end Reassembly
end VibeField.Freeway
