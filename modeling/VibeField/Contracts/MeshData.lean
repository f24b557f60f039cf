import Mathlib.Algebra.GroupWithZero.Nat
import Mathlib.Data.List.Induction
import VibeField.Base.Framer

/-!
# MeshData frames

A frame is a length, a kind, a lane's id and a payload, the numbers big-endian.  The TypeScript
codec and the Rust one write the same frames; a JavaScript number holds fewer lane ids than a word.
-/

namespace VibeField.Contracts.MeshData

open List

abbrev Bytes := List UInt8

def headerBytes : Nat := 13

def lengthPrefixBytes : Nat := 4

def minBodyBytes : Nat := 1 + 8

def maxFrameBytes : Nat := 8 * 1024 * 1024

def maxSafeInteger : Nat := 2 ^ 53 - 1

structure Frame where
  kind : UInt8
  laneId : Nat
  payload : Bytes
  deriving DecidableEq, Repr

/-! ## Big-endian numbers -/

def bigEndian (bytes : Bytes) : Nat := bytes.foldl (fun n b => n * 256 + b.toNat) 0

def beBytes : Nat → Nat → Bytes
  | 0, _ => []
  | count + 1, n => beBytes count (n / 256) ++ [UInt8.ofNat n]

@[simp]
theorem length_beBytes (count n : Nat) : (beBytes count n).length = count := by
  induction count generalizing n with
  | zero => rfl
  | succ count ih => rw [beBytes, length_append, ih, length_singleton]

theorem bigEndian_snoc (l : Bytes) (b : UInt8) :
    bigEndian (l ++ [b]) = bigEndian l * 256 + b.toNat := by
  rw [bigEndian, foldl_append]
  rfl

theorem bigEndian_beBytes {count n : Nat} (h : n < 256 ^ count) :
    bigEndian (beBytes count n) = n := by
  induction count generalizing n with
  | zero =>
    rw [Nat.pow_zero] at h
    obtain rfl : n = 0 := by omega
    rfl
  | succ count ih =>
    have hhigh : n / 256 < 256 ^ count := by
      rw [Nat.pow_succ, Nat.mul_comm] at h
      exact Nat.div_lt_of_lt_mul h
    rw [beBytes, bigEndian_snoc, ih hhigh, UInt8.toNat_ofNat']
    omega

theorem beBytes_bigEndian (l : Bytes) : beBytes l.length (bigEndian l) = l := by
  induction l using List.reverseRecOn with
  | nil => rfl
  | append_singleton l b ih =>
    have hb := b.toNat_lt
    have hhigh : (bigEndian l * 256 + b.toNat) / 256 = bigEndian l := by omega
    have hlow : UInt8.ofNat (bigEndian l * 256 + b.toNat) = b := by
      rw [← UInt8.toNat_inj, UInt8.toNat_ofNat']
      omega
    rw [length_append, length_singleton, beBytes, bigEndian_snoc, hhigh, ih, hlow]

theorem bigEndian_lt (l : Bytes) : bigEndian l < 256 ^ l.length := by
  induction l using List.reverseRecOn with
  | nil => decide
  | append_singleton l b ih =>
    have hb := b.toNat_lt
    rw [bigEndian_snoc, length_append, length_singleton, Nat.pow_succ]
    omega

/-! ## The TypeScript codec -/

/-- An argument of type `number`. -/
inductive Num where
  | int (n : Int)
  /-- NaN, an infinity, or a number with a fraction. -/
  | other

def encodeMeshDataFrame (kind laneId : Num) (payload : Bytes) : Except String Bytes :=
  match kind with
  | .other => .error "meshdata frame kind out of u8 range"
  | .int kind =>
    if kind < 0 ∨ 0xff < kind then .error s!"meshdata frame kind out of u8 range: {kind}"
    else
      match laneId with
      | .other => .error "lane id must be a non-negative safe integer"
      | .int laneId =>
        if laneId < 0 ∨ (maxSafeInteger : Int) < laneId then
          .error s!"lane id must be a non-negative safe integer: {laneId}"
        else
          let body := 1 + 8 + payload.length
          if maxFrameBytes < body + lengthPrefixBytes then
            .error s!"meshdata frame exceeds {maxFrameBytes} bytes: {body}"
          else
            .ok (beBytes 4 body ++ UInt8.ofNat kind.toNat :: beBytes 8 laneId.toNat ++ payload)

def decodeMeshDataFrame (data : Bytes) : Except String Frame :=
  if data.length < headerBytes then
    .error s!"meshdata frame shorter than header: {data.length} bytes"
  else
    let body := bigEndian (data.take 4)
    if body < minBodyBytes then
      .error s!"meshdata frame declares {body} bytes, shorter than its own header"
    else if data.length < body + lengthPrefixBytes then
      .error s!"meshdata frame truncated: declared {body}, have {data.length - 4}"
    else
      let laneId := bigEndian ((data.drop 5).take 8)
      if maxSafeInteger < laneId then
        .error s!"lane id past Number.MAX_SAFE_INTEGER: {laneId}"
      else
        .ok
          { kind := data.getD 4 0
            laneId
            payload := (data.take (lengthPrefixBytes + body)).drop headerBytes }

/-- One turn of the loop of `MeshDataFrameReader.push`. -/
def readTs (buffer : Bytes) : Taken UInt8 Frame String :=
  if buffer.length < lengthPrefixBytes then .more
  else
    let body := bigEndian (buffer.take 4)
    if maxFrameBytes < body + lengthPrefixBytes then
      .bad s!"meshdata frame declares {body} bytes, past the ceiling"
    else if body < minBodyBytes then
      .bad s!"meshdata frame declares {body} bytes, shorter than its own header"
    else
      let total := lengthPrefixBytes + body
      if buffer.length < total then .more
      else
        match decodeMeshDataFrame (buffer.take total) with
        | .error e => .bad e
        | .ok frame => .item frame (buffer.drop total)

/-! ## The Rust codec -/

def encodeFrame (kind : UInt8) (laneId : UInt64) (payload : Bytes) : Except String Bytes :=
  let body := 1 + 8 + payload.length
  if body + lengthPrefixBytes ≤ maxFrameBytes then
    .ok (beBytes 4 body ++ kind :: beBytes 8 laneId.toNat ++ payload)
  else .error s!"meshdata frame exceeds {maxFrameBytes} bytes: {body}"

/-- One turn of the loop of `FrameReader::push`. -/
def readRust (buffer : Bytes) : Taken UInt8 Frame String :=
  if buffer.length < lengthPrefixBytes then .more
  else
    let body := bigEndian (buffer.take 4)
    if maxFrameBytes < body + lengthPrefixBytes then
      .bad s!"meshdata frame declares {body} bytes, past the ceiling"
    else if body < minBodyBytes then
      .bad s!"meshdata frame declares {body} bytes, shorter than its own header"
    else
      let total := lengthPrefixBytes + body
      if buffer.length < total then .more
      else
        .item
          { kind := buffer.getD 4 0
            laneId := bigEndian ((buffer.drop 5).take 8)
            payload := (buffer.drop headerBytes).take (total - headerBytes) }
          (buffer.drop total)

/-! ## What is claimed -/

structure WellFormed (lanes : Nat) (frame : Frame) : Prop where
  laneId : frame.laneId ≤ lanes
  size : headerBytes + frame.payload.length ≤ maxFrameBytes

def wire (frame : Frame) : Bytes :=
  beBytes 4 (1 + 8 + frame.payload.length) ++ frame.kind :: beBytes 8 frame.laneId ++ frame.payload

/-- What begins as no well-formed frame does: the length it declares is out of bounds, or it is
whole and names a lane past the last. -/
def Malformed (lanes : Nat) (s : Bytes) : Prop :=
  lengthPrefixBytes ≤ s.length ∧
    (bigEndian (s.take 4) < minBodyBytes ∨
      maxFrameBytes < bigEndian (s.take 4) + lengthPrefixBytes ∨
      lengthPrefixBytes + bigEndian (s.take 4) ≤ s.length ∧ lanes < bigEndian ((s.drop 5).take 8))

/-- A stream is its well-formed frames up to `tail`, which begins with none. -/
structure Cut (lanes : Nat) (stream : Bytes) (frames : List Frame) (tail : Bytes) : Prop where
  stream : stream = frames.flatMap wire ++ tail
  wellFormed : ∀ frame ∈ frames, WellFormed lanes frame
  last : ∀ frame, WellFormed lanes frame → ¬wire frame <+: tail

end VibeField.Contracts.MeshData
