import VibeField.Base.Machine
import VibeField.Native.LossyLane

/-!
# What a lossy lane delivers

A sender has its messages in the order it sends them, each under the next sequence.  Their datagrams
arrive in any order, any number of times or never, and the reliable replay of the last message comes
at any time, or not at all.
-/

namespace VibeField.Native.LossyLane

open Contracts.MeshData (Bytes)

structure Sender where
  originLaneId : UInt32
  /-- The sequence of the first message. -/
  first : UInt32
  message : Nat → Bytes
  /-- The last message that is sent. -/
  last : Nat
  bound : ∀ n, (message n).length ≤ LOSSY_MAX_LOGICAL_BYTES

namespace Sender

def sequence (c : Sender) (n : Nat) : UInt32 := c.first + UInt32.ofNat n

def count (c : Sender) (n : Nat) : Nat := countOf (c.message n).length

end Sender

inductive Event where
  /-- Datagram `i` of message `n`. -/
  | arrives (n i : Nat)
  /-- The reliable replay of the last message. -/
  | replay
  deriving DecidableEq

structure Delivery where
  /-- The message whose datagram or replay had it delivered. -/
  index : Nat
  sequence : UInt32
  payload : Bytes

structure State where
  lane : Reassembler
  delivered : List Delivery
  seen : List Event

def State.start : State where
  lane := .default
  delivered := []
  seen := []

section

variable (c : Sender)

def Event.index : Event → Nat
  | .arrives n _ => n
  | .replay => c.last

def State.after (s : State) (e : Event) (lane : Reassembler) (told : Option (UInt32 × Bytes)) :
    State where
  lane := lane
  delivered := s.delivered ++
    (told.map fun t => { index := e.index c, sequence := t.1, payload := t.2 }).toList
  seen := s.seen ++ [e]

def receive (lane : Reassembler) (packet : Bytes) :
    Option (Reassembler × Option (UInt32 × Bytes)) :=
  match (decodeDatagram packet).run with
  | none => none
  | some (.error _) => some (lane, none)
  | some (.ok d) => lane.ingest d

def State.step (s : State) (e : Event) : Option State :=
  match e with
  | .arrives n i =>
    match encodeDatagrams c.originLaneId (c.sequence n) (c.message n) with
    | .error _ => none
    | .ok packets =>
      (packets[i]?.bind (receive s.lane)).map fun r => s.after c e r.1 r.2
  | .replay =>
    let r := s.lane.ingestFinal (c.sequence c.last) (c.message c.last)
    some (s.after c e r.1 (r.2.map fun payload => (c.sequence c.last, payload)))

def machine : Machine State Event where
  start := .start
  next := State.step c

/-- Less than `2 ^ 31` apart. -/
def Apart (m n : Nat) : Prop := m < n + 2 ^ 31 ∧ n < m + 2 ^ 31

/-- A datagram or the replay of a message that was sent, less than `2 ^ 31` apart from the message
delivered last and from the newest that has begun. -/
structure Arrives (s : State) (e : Event) : Prop where
  sent : ∀ n i, e = .arrives n i → n ≤ c.last ∧ i < c.count n
  delivered : ∀ d, s.delivered.getLast? = some d → Apart d.index (e.index c)
  newest : ∀ e' ∈ s.seen, (∀ e'' ∈ s.seen, e''.index c ≤ e'.index c) →
    Apart (e'.index c) (e.index c)

structure Delivers (s : State) : Prop where
  sent : ∀ d ∈ s.delivered, d.index ≤ c.last ∧ d.sequence = c.sequence d.index ∧
    d.payload = c.message d.index
  /-- No message is delivered twice, or after a newer one. -/
  newer : s.delivered.Pairwise fun a b => a.index < b.index
  sequences : s.delivered.IsChain fun a b => sequenceIsNewer b.sequence a.sequence = true
  /-- A message all of whose datagrams came before a newer one began. -/
  complete : ∀ n seen, seen <+: s.seen → (∀ i < c.count n, .arrives n i ∈ seen) →
    (∀ e ∈ seen, e.index c ≤ n) → ∃ d ∈ s.delivered, d.index = n
  replayed : .replay ∈ s.seen → s.delivered.countP (fun d => d.index = c.last) = 1
  /-- What is held is not complete. -/
  held : ∀ p, s.lane.pending = some p → none ∈ p.chunks ∧
    ∃ n ≤ c.last, p.sequence = c.sequence n ∧ p.chunks.length = c.count n
  /-- Nothing panics. -/
  answers : ∀ e, Arrives c s e → ∃ s', (machine c).next s e = some s'

end

end VibeField.Native.LossyLane
