import VibeField.Tp.Solvent

/-!
# The units of a transfer

A full frame goes out as one transfer: a begin, the frame's bytes in chunks, an end,
each an envelope admitted as bulk.  The chunk is cut to half of either window, with a
floor, and the ledger keeps its reserve out of bulk's reach.  A unit the ledger does
not admit with nothing in flight is never admitted.
-/

namespace VibeField.Tp

open List CreditLedger

def envelopeMagic : List UInt8 := [0x54, 0x50, 1, 0]

def beBytes (n : Nat) : List UInt8 :=
  [UInt8.ofNat (n / 2 ^ 24), UInt8.ofNat (n / 2 ^ 16), UInt8.ofNat (n / 2 ^ 8), UInt8.ofNat n]

def encodeEnvelope (header payload : List UInt8) : List UInt8 :=
  envelopeMagic ++ beBytes header.length ++ header ++ payload

theorem length_encodeEnvelope (header payload : List UInt8) :
    (encodeEnvelope header payload).length = 8 + header.length + payload.length := by
  simp only [encodeEnvelope, envelopeMagic, beBytes, length_append, length_cons,
    length_nil]

def chunks (bytes : List UInt8) (chunk : Nat) : List (List UInt8) :=
  (List.range ((bytes.length + chunk - 1) / chunk)).map fun i =>
    (bytes.drop (i * chunk)).take chunk

/-- The headers of a transfer as their text is rendered, the chunks' by index. -/
structure TransferHeaders where
  transferBegin : List UInt8
  transferChunk : Nat → List UInt8
  transferEnd : List UInt8

def transferUnits (headers : TransferHeaders) (packet : List UInt8) (chunk : Nat) :
    List (List UInt8) :=
  encodeEnvelope headers.transferBegin [] ::
    (chunks packet chunk).mapIdx (fun i slice => encodeEnvelope (headers.transferChunk i) slice) ++
    [encodeEnvelope headers.transferEnd []]

/-- No header is longer than `bound`. -/
def TransferHeaders.Within (h : TransferHeaders) (bound : Nat) : Prop :=
  h.transferBegin.length ≤ bound ∧ (∀ i, (h.transferChunk i).length ≤ bound) ∧
    h.transferEnd.length ≤ bound

/-! ## The windows -/

def ReceiverCapacities.minWith (a b : ReceiverCapacities) : ReceiverCapacities where
  connectionCreditBytes := min a.connectionCreditBytes b.connectionCreditBytes
  perActivationCreditBytes := min a.perActivationCreditBytes b.perActivationCreditBytes
  maxConcurrentSeeds := min a.maxConcurrentSeeds b.maxConcurrentSeeds

def cellCaps : ReceiverCapacities where
  connectionCreditBytes := 16777216
  perActivationCreditBytes := 4194304
  maxConcurrentSeeds := 4

structure ProtocolLimits where
  maxPresentationChunkBytes : Nat
  urgentReserveBytes : Nat

def protocolLimits : ProtocolLimits where
  maxPresentationChunkBytes := 1048576
  urgentReserveBytes := 2097152

def maxChunkBytes (limits : ProtocolLimits) (l : CreditLedger) : Nat :=
  max
    (min (min limits.maxPresentationChunkBytes (max l.perActivationLimit 1 / 2))
      (max l.connection.limit 1 / 2))
    4096

def bulkRoom (limits : ProtocolLimits) (windows : ReceiverCapacities) : Nat :=
  min windows.perActivationCreditBytes
    (windows.connectionCreditBytes -
      min limits.urgentReserveBytes (windows.connectionCreditBytes / 2))

def chunkFor (limits : ProtocolLimits) (windows : ReceiverCapacities) : Nat :=
  max
    (min (min limits.maxPresentationChunkBytes (windows.perActivationCreditBytes / 2))
      (windows.connectionCreditBytes / 2))
    4096

theorem max_one_half (n : Nat) : max n 1 / 2 = n / 2 := by
  rcases n with - | n
  · rfl
  · rw [Nat.max_eq_left (Nat.succ_le_succ (Nat.zero_le n))]

/-! ## Sizes -/

theorem length_of_mem_chunks {bytes slice : List UInt8} {chunk : Nat}
    (h : slice ∈ chunks bytes chunk) : slice.length ≤ chunk := by
  obtain ⟨i, -, rfl⟩ := mem_map.mp h
  exact length_take_le _ _

theorem length_of_mem_transferUnits {headers : TransferHeaders} {packet unit : List UInt8}
    {chunk bound : Nat} (hheaders : headers.Within bound)
    (h : unit ∈ transferUnits headers packet chunk) : unit.length ≤ chunk + 8 + bound := by
  obtain ⟨hbegin, hchunk, hend⟩ := hheaders
  simp only [transferUnits, cons_append, mem_cons, mem_append, not_mem_nil,
    or_false] at h
  rcases h with rfl | h | rfl
  · rw [length_encodeEnvelope, length_nil]
    omega
  · obtain ⟨i, hi, rfl⟩ := mem_mapIdx.mp h
    have hslice := length_of_mem_chunks (getElem_mem hi)
    have hheader := hchunk i
    rw [length_encodeEnvelope]
    omega
  · rw [length_encodeEnvelope, length_nil]
    omega

theorem full_slice_mem {packet : List UInt8} (headers : TransferHeaders) (hpos : packet ≠ []) :
    encodeEnvelope (headers.transferChunk 0) packet ∈
      transferUnits headers packet packet.length := by
  have hlen : 0 < packet.length := length_pos_of_ne_nil hpos
  have hone : chunks packet packet.length = [packet] := by
    have hdiv : (packet.length + packet.length - 1) / packet.length = 1 :=
      Nat.div_eq_of_lt_le (by omega) (by omega)
    rw [chunks, hdiv]
    simp
  simp [transferUnits, hone]

namespace CreditRun

variable {windows : ReceiverCapacities} {limits : ProtocolLimits} {s : CreditRun}
  {x : ActivationId}

/-- Nothing of the connection or the activation is in flight. -/
def Idle (s : CreditRun) (x : ActivationId) : Prop :=
  s.ledger.connection.inFlight = 0 ∧
    ∃ a, s.ledger.accounts.lookup x = some a ∧ a.draining = false ∧ a.window.inFlight = 0

theorem Solvent.limit_bulk (h : Solvent windows limits.urgentReserveBytes s) :
    s.ledger.connectionLimitFor .bulk =
      windows.connectionCreditBytes -
        min limits.urgentReserveBytes (windows.connectionCreditBytes / 2) := by
  rw [connectionLimitFor, h.limit, h.reserve]

theorem Solvent.maxChunkBytes (h : Solvent windows limits.urgentReserveBytes s) :
    maxChunkBytes limits s.ledger = chunkFor limits windows := by
  rw [Tp.maxChunkBytes, h.perActivation, h.limit, max_one_half, max_one_half]
  rfl

theorem Solvent.tryAdmit_idle (h : Solvent windows limits.urgentReserveBytes s) (hidle : s.Idle x)
    (bytes : Nat) :
    (s.ledger.tryAdmit x bytes .bulk).2 = true ↔ bytes ≤ bulkRoom limits windows := by
  obtain ⟨hconn, a, ha, hlive, hin⟩ := hidle
  have hlimit := (h.account x a ha).1
  have hasked : (s.ledger.canAdmit x bytes .bulk).2 =
      some (decide (bytes ≤ bulkRoom limits windows)) := by
    simp only [CreditLedger.canAdmit, ha, hlive, Bool.false_eq_true, if_false,
      Window.canAdmitWithin, Window.canAdmit, hconn, hin, hlimit, Nat.zero_add, h.limit_bulk,
      bulkRoom, Nat.le_min, Bool.decide_and, Bool.and_comm]
  by_cases hfits : bytes ≤ bulkRoom limits windows
  · rw [decide_eq_true hfits] at hasked
    rw [tryAdmit_of_admitted hasked]
    exact iff_of_true rfl hfits
  · rw [decide_eq_false hfits] at hasked
    rw [tryAdmit_of_refused (by rw [hasked]; exact fun h => by cases h)]
    exact iff_of_false Bool.false_ne_true hfits

theorem reachable_idle (creditEpoch : Nat) (windows : ReceiverCapacities) (urgentReserve : Nat)
    (x : ActivationId) :
    ∃ s, (machine creditEpoch windows urgentReserve).Reachable s ∧ s.Idle x := by
  refine ⟨_, Machine.Reachable.next (e := .openAccount x) .start rfl, rfl, ?_⟩
  refine ⟨_, Dict.lookup_insert _ _ _ _ |>.trans (if_pos rfl), rfl, rfl⟩

end CreditRun

namespace CreditRun

/-- Every unit of every transfer whose headers are at most `headerBytes` long is
admitted in every ledger of the windows with nothing in flight. -/
def Proceeds (limits : ProtocolLimits) (windows : ReceiverCapacities) (headerBytes : Nat) : Prop :=
  ∀ creditEpoch s x headers packet unit,
    (machine creditEpoch windows limits.urgentReserveBytes).Reachable s → s.Idle x →
      headers.Within headerBytes →
        unit ∈ transferUnits headers packet (maxChunkBytes limits s.ledger) →
          (s.ledger.tryAdmit x unit.length .bulk).2 = true

theorem fits_of_proceeds {headerBytes : Nat} (h : Proceeds limits windows headerBytes) :
    chunkFor limits windows + 8 + headerBytes ≤ bulkRoom limits windows := by
  obtain ⟨s, hreach, hidle⟩ := reachable_idle 1 windows limits.urgentReserveBytes "a"
  have hs := solvent_of_reachable hreach
  have hlen : (List.replicate (chunkFor limits windows) (0 : UInt8)).length =
      chunkFor limits windows := length_replicate
  have hpos : List.replicate (chunkFor limits windows) (0 : UInt8) ≠ [] := fun hnil => by
    rw [hnil, length_nil] at hlen
    have hfloor : 4096 ≤ chunkFor limits windows := Nat.le_max_right _ _
    omega
  have hunit := full_slice_mem
    { transferBegin := []
      transferChunk := fun _ => List.replicate headerBytes 0
      transferEnd := [] } hpos
  rw [hlen, ← hs.maxChunkBytes] at hunit
  have hadmitted := h 1 s "a" _ _ _ hreach hidle
    ⟨Nat.zero_le _, fun _ => Nat.le_of_eq length_replicate, Nat.zero_le _⟩ hunit
  rw [hs.tryAdmit_idle hidle, length_encodeEnvelope, hs.maxChunkBytes, length_replicate,
    length_replicate] at hadmitted
  omega

/-- The windows of a client that declares the cell's own caps leave a header room. -/
example : chunkFor protocolLimits cellCaps + 8 + 4096 ≤ bulkRoom protocolLimits cellCaps := by
  decide

end CreditRun
end VibeField.Tp
