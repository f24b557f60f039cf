import VibeField.Base.Slices
import VibeField.Contracts.MeshData

/-!
# Lossy lanes

A message of a lossy lane is cut into datagrams, each with its place in the message, and put
together again by the lane's receiver, which holds one incomplete message at most, the newest.  The
lane's last message is also sent over a reliable stream when the lane closes.

`none` stands for a panic: a read out of range, or an overflow.
-/

namespace VibeField.Native.LossyLane

open Contracts.MeshData (Bytes bigEndian beBytes)

def LOSSY_MAX_PAYLOAD_BYTES : Nat := 1150

def LOSSY_MAX_LOGICAL_BYTES : Nat := 64 * 1024

def MAGIC : Bytes := [86, 80]

def VERSION : UInt8 := 1

def DATAGRAM_HEADER_BYTES : Nat := 20

def DATAGRAM_BODY_BYTES : Nat := LOSSY_MAX_PAYLOAD_BYTES - DATAGRAM_HEADER_BYTES

structure Datagram where
  originLaneId : UInt32
  sequence : UInt32
  chunkIndex : Nat
  chunkCount : Nat
  totalLen : Nat
  payload : Bytes
  deriving DecidableEq

/-! ## Datagrams -/

def divCeil (n d : Nat) : Nat := if n % d = 0 then n / d else n / d + 1

def countOf (length : Nat) : Nat := max (divCeil length DATAGRAM_BODY_BYTES) 1

def packet (originLaneId sequence : UInt32) (payload : Bytes) (chunkCount chunkIndex : Nat) :
    Bytes :=
  let start := chunkIndex * DATAGRAM_BODY_BYTES
  let stop := min (start + DATAGRAM_BODY_BYTES) payload.length
  MAGIC ++ [VERSION] ++ [0] ++ beBytes 4 originLaneId.toNat ++ beBytes 4 sequence.toNat ++
    beBytes 2 chunkIndex ++ beBytes 2 chunkCount ++ beBytes 4 payload.length ++
    (payload.drop start).take (stop - start)

def encodeDatagrams (originLaneId sequence : UInt32) (payload : Bytes) :
    Except String (List Bytes) :=
  if payload.length ≤ LOSSY_MAX_LOGICAL_BYTES then
    let chunkCount := max (divCeil payload.length DATAGRAM_BODY_BYTES) 1
    if chunkCount ≤ 65535 then
      .ok ((List.range chunkCount).map (packet originLaneId sequence payload chunkCount))
    else .error "too many lossy fragments"
  else .error s!"lossy logical payload {payload.length} exceeds {LOSSY_MAX_LOGICAL_BYTES}"

abbrev Fallible := ExceptT String Option

def ensure (ok : Bool) (message : String) : Fallible Unit :=
  if ok then pure () else throw message

def panics {α : Type} : Fallible α := ExceptT.mk none

def range (packet : Bytes) (start stop : Nat) : Fallible Bytes :=
  if start ≤ stop ∧ stop ≤ packet.length then pure ((packet.drop start).take (stop - start))
  else panics

def byte (packet : Bytes) (i : Nat) : Fallible UInt8 :=
  match packet[i]? with
  | some b => pure b
  | none => panics

def sub (a b : Nat) : Fallible Nat := if b ≤ a then pure (a - b) else panics

def expectedBody (totalLen expectedCount chunkIndex : Nat) : Fallible Nat :=
  if chunkIndex + 1 = expectedCount then do
    return totalLen - (← sub expectedCount 1) * DATAGRAM_BODY_BYTES
  else pure DATAGRAM_BODY_BYTES

def decodeDatagram (packet : Bytes) : Fallible Datagram := do
  ensure (DATAGRAM_HEADER_BYTES ≤ packet.length && packet.length ≤ LOSSY_MAX_PAYLOAD_BYTES)
    s!"lossy datagram has invalid length {packet.length}"
  ensure ((← range packet 0 2) = MAGIC) "lossy datagram has bad magic"
  ensure ((← byte packet 2) = VERSION) "unknown lossy datagram version"
  ensure ((← byte packet 3) = 0) "unknown lossy datagram flags"
  let originLaneId := UInt32.ofNat (bigEndian (← range packet 4 8))
  let sequence := UInt32.ofNat (bigEndian (← range packet 8 12))
  let chunkIndex := bigEndian (← range packet 12 14)
  let chunkCount := bigEndian (← range packet 14 16)
  let totalLen := bigEndian (← range packet 16 20)
  ensure (totalLen ≤ LOSSY_MAX_LOGICAL_BYTES) "lossy datagram declares oversized logical message"
  let expectedCount := max (divCeil totalLen DATAGRAM_BODY_BYTES) 1
  ensure (chunkCount = expectedCount) "lossy datagram has inconsistent chunk count"
  ensure (chunkIndex < chunkCount) "lossy datagram chunk rank is out of range"
  let body ← expectedBody totalLen expectedCount chunkIndex
  ensure ((← sub packet.length DATAGRAM_HEADER_BYTES) = body)
    "lossy datagram chunk has inconsistent length"
  let payload ← range packet DATAGRAM_HEADER_BYTES packet.length
  return { originLaneId, sequence, chunkIndex, chunkCount, totalLen, payload }

/-! ## Reassembly -/

structure Pending where
  sequence : UInt32
  totalLen : Nat
  chunks : List (Option Bytes)
  received : Nat

structure Reassembler where
  completed : Option UInt32
  pending : Option Pending

def Reassembler.default : Reassembler where
  completed := none
  pending := none

def sequenceIsNewer (candidate current : UInt32) : Bool :=
  let distance := candidate - current
  distance != 0 && distance.toNat < 2 ^ 31

namespace Reassembler

def late (r : Reassembler) (sequence : UInt32) : Bool :=
  match r.completed with
  | some completed => sequence == completed || !sequenceIsNewer sequence completed
  | none => false

def fresh (d : Datagram) : Pending where
  sequence := d.sequence
  totalLen := d.totalLen
  chunks := List.replicate d.chunkCount none
  received := 0

def target (r : Reassembler) (d : Datagram) : Option Pending :=
  match r.pending with
  | none => some (fresh d)
  | some pending =>
    if pending.sequence = d.sequence then
      if pending.totalLen ≠ d.totalLen ∨ pending.chunks.length ≠ d.chunkCount then none
      else some pending
    else if sequenceIsNewer d.sequence pending.sequence then some (fresh d)
    else none

def fill (pending : Pending) (d : Datagram) : Option Pending :=
  match pending.chunks[d.chunkIndex]? with
  | none => none
  | some (some _) => some pending
  | some none =>
    some { pending with
      chunks := pending.chunks.set d.chunkIndex (some d.payload)
      received := pending.received + 1 }

def finish (r : Reassembler) (pending : Pending) : Reassembler × Option (UInt32 × Bytes) :=
  if pending.received ≠ pending.chunks.length then ({ r with pending := some pending }, none)
  else
    match assemble pending.chunks with
    | none => ({ r with pending := none }, none)
    | some payload =>
      if payload.length ≠ pending.totalLen then ({ r with pending := none }, none)
      else
        ({ completed := some pending.sequence, pending := none }, some (pending.sequence, payload))

def ingest (r : Reassembler) (d : Datagram) :
    Option (Reassembler × Option (UInt32 × Bytes)) :=
  if r.late d.sequence then some (r, none)
  else
    match r.target d with
    | none => some (r, none)
    | some pending => (fill pending d).map r.finish

def ingestFinal (r : Reassembler) (sequence : UInt32) (payload : Bytes) :
    Reassembler × Option Bytes :=
  if LOSSY_MAX_LOGICAL_BYTES < payload.length then (r, none)
  else if r.late sequence then (r, none)
  else if r.pending.any fun pending => sequenceIsNewer pending.sequence sequence then (r, none)
  else ({ completed := some sequence, pending := none }, some payload)

end Reassembler

end VibeField.Native.LossyLane
