import VibeField.Base.Machine
import VibeField.Base.Sums
import VibeField.Contracts.DocSync

/-!
# Reassembly

A record too large for a frame comes as CHUNKs on a lane of its own.  The desktop that receives
them keeps a table of the transfers under way, by sender and the sender's id for it, bounded for
each sender; a transfer begins at its first slice, is given up when its timer fires, and is read
as one record once all its slices came.
-/

namespace VibeField.Fieldd

open Contracts List Option Dict

/-- The tailnet's name for a device; no NUL is in one. -/
structure Peer where
  id : List Char
  noNul : Char.ofNat 0 ∉ id
  deriving DecidableEq

def maxTransferBytes : Nat := 64 * 1024 * 1024

def maxChunksPerTransfer : Nat := sliceCount maxTransferBytes 1024

def maxTransfersPerPeerDoc : Nat := 2

def reassemblyBytesPerPeer : Nat := 256 * 1024 * 1024

abbrev TransferKey := List Char

def transferKey (peer : Peer) (transfer : String) : TransferKey :=
  peer.id ++ Char.ofNat 0 :: transfer.toList

/-- A transfer under way. -/
structure Reassembly where
  peer : Peer
  docId : String
  count : Nat
  byteLength : Nat
  parts : List (Option Bytes)
  received : Nat
  size : Nat
  timer : Nat
  parts_length : parts.length = count
  received_eq : received = partsCount parts
  size_eq : size = partsSize parts

namespace Reassembly

def fresh (peer : Peer) (docId : String) (m : DocSyncChunkMeta) (timer : Nat) : Reassembly where
  peer := peer
  docId := docId
  count := m.count
  byteLength := m.byteLength
  parts := List.replicate m.count none
  received := 0
  size := 0
  timer := timer
  parts_length := List.length_replicate
  received_eq := (partsCount_replicate m.count).symm
  size_eq := (partsSize_replicate m.count).symm

def put (held : Reassembly) (index : Nat) (payload : Bytes)
    (h : held.parts[index]? = some none) : Reassembly where
  peer := held.peer
  docId := held.docId
  count := held.count
  byteLength := held.byteLength
  parts := held.parts.set index (some payload)
  received := held.received + 1
  size := held.size + payload.length
  timer := held.timer
  parts_length := (List.length_set ..).trans held.parts_length
  received_eq := by rw [partsCount_set h, held.received_eq]
  size_eq := by rw [partsSize_set h, held.size_eq]

end Reassembly

inductive ChunkRefusal where
  | outOfBounds
  | overBudget
  | expired
  | inconsistent
  | overrun
  | short
  | nested
  deriving DecidableEq, Repr

/-- What became of a transfer: handed to `receive` as one record, or dropped. -/
inductive TransferOutcome where
  | handed (docId : String) (peer : Peer) (transfer : String) (record : Bytes)
  | refused (peer : Peer) (transfer : String) (why : ChunkRefusal)
  deriving DecidableEq

def TransferOutcome.key : TransferOutcome → TransferKey
  | .handed _ peer transfer _ => transferKey peer transfer
  | .refused peer transfer _ => transferKey peer transfer

structure TransferTimer where
  peer : Peer
  transfer : String
  due : Nat
  deriving DecidableEq

/-- A CHUNK that was read, and the document its lane is of. -/
structure HeardChunk where
  docId : String
  peer : Peer
  chunk : DocSyncChunkMeta
  payload : Bytes
  deriving DecidableEq

/-- `#transfers` with the timers that are armed; `heard` is every CHUNK that was read. -/
structure Transfers where
  clock : Nat := 0
  table : Dict TransferKey Reassembly := ∅
  timers : Dict Nat TransferTimer := ∅
  nextTimer : Nat := 0
  heard : List HeardChunk := []
  log : List TransferOutcome := []

namespace Transfers

def dropEntry (s : Transfers) (key : TransferKey) : Transfers :=
  match s.table.lookup key with
  | none => s
  | some held =>
    { s with table := s.table.erase key, timers := s.timers.erase held.timer }

def tell (s : Transfers) (o : TransferOutcome) : Transfers := { s with log := s.log ++ [o] }

def refuse (s : Transfers) (peer : Peer) (transfer : String) (why : ChunkRefusal) : Transfers :=
  (s.dropEntry (transferKey peer transfer)).tell (.refused peer transfer why)

def outOfBounds (m : DocSyncChunkMeta) : Bool :=
  m.byteLength > maxTransferBytes || m.count > maxChunksPerTransfer || m.index ≥ m.count ||
    m.count > m.byteLength

def peerBytes (s : Transfers) (peer : Peer) : Nat :=
  s.table.sum fun held => if held.peer = peer then held.byteLength else 0

def sameDoc (s : Transfers) (peer : Peer) (docId : String) : Nat :=
  s.table.sum fun held => if held.peer = peer ∧ held.docId = docId then 1 else 0

def complete (s : Transfers) (docId : String) (peer : Peer) (transfer : String)
    (held : Reassembly) : Transfers :=
  let s := s.dropEntry (transferKey peer transfer)
  if held.size ≠ held.byteLength then s.refuse peer transfer .short
  else
    match assemble held.parts with
    | none => s
    | some whole =>
      if whole.head? = some chunkKind then s.refuse peer transfer .nested
      else s.tell (.handed docId peer transfer whole)

def slot (s : Transfers) (docId : String) (peer : Peer) (m : DocSyncChunkMeta) (payload : Bytes)
    (held : Reassembly) : Transfers :=
  if held.count ≠ m.count ∨ held.byteLength ≠ m.byteLength then
    s.refuse peer m.transfer .inconsistent
  else if h : held.parts[m.index]? = some none then
    if held.size + payload.length > m.byteLength then s.refuse peer m.transfer .overrun
    else
      let held := held.put m.index payload h
      let s := { s with table := s.table.insert (transferKey peer m.transfer) held }
      if held.received < m.count then s else s.complete docId peer m.transfer held
  else s

def begin_ (s : Transfers) (ttlMs : Nat) (docId : String) (peer : Peer) (m : DocSyncChunkMeta) :
    Transfers :=
  { s with
    table := s.table.insert (transferKey peer m.transfer)
      (Reassembly.fresh peer docId m s.nextTimer)
    timers := s.timers.insert s.nextTimer
      { peer := peer, transfer := m.transfer, due := s.clock + ttlMs }
    nextTimer := s.nextTimer + 1 }

/-- `#onChunk`, of a meta the schema takes. -/
def onChunk (s : Transfers) (ttlMs : Nat) (docId : String) (peer : Peer) (m : DocSyncChunkMeta)
    (payload : Bytes) : Transfers :=
  if outOfBounds m then s.refuse peer m.transfer .outOfBounds
  else
    match s.table.lookup (transferKey peer m.transfer) with
    | some held => s.slot docId peer m payload held
    | none =>
      if m.index ≠ 0 then s
      else if s.sameDoc peer docId ≥ maxTransfersPerPeerDoc ∨
          s.peerBytes peer + m.byteLength > reassemblyBytesPerPeer then
        s.refuse peer m.transfer .overBudget
      else
        (s.begin_ ttlMs docId peer m).slot docId peer m payload
          (Reassembly.fresh peer docId m s.nextTimer)

def hear (s : Transfers) (chunk : HeardChunk) : Transfers :=
  { s with heard := s.heard ++ [chunk] }

def receive (text : ChunkText) (ttlMs : Nat) (s : Transfers) (docId : String) (peer : Peer)
    (record : Bytes) : Transfers :=
  match decodeDocSyncFrame text record with
  | some { kind := kind, chunk := some m, payload := payload } =>
    if kind = chunkKind then
      (s.hear { docId := docId, peer := peer, chunk := m, payload := payload }).onChunk ttlMs docId
        peer m payload
    else s
  | _ => s

def fire (s : Transfers) (timer : Nat) : Option Transfers :=
  (s.timers.lookup timer).bind fun t =>
    if t.due ≤ s.clock then
      let s := s.refuse t.peer t.transfer .expired
      some { s with timers := s.timers.erase timer }
    else none

end Transfers

inductive TransfersEvent where
  | record (docId : String) (peer : Peer) (record : Bytes)
  | tick (ms : Nat)
  | fire (timer : Nat)

def Transfers.next (text : ChunkText) (ttlMs : Nat) (s : Transfers) :
    TransfersEvent → Option Transfers
  | .record docId peer record => some (s.receive text ttlMs docId peer record)
  | .tick ms => some { s with clock := s.clock + ms }
  | .fire timer => s.fire timer

def transfersMachine (text : ChunkText) (ttlMs : Nat) : Machine Transfers TransfersEvent :=
  { start := {}, next := Transfers.next text ttlMs }

/-! ## Keys -/

theorem transferKey_inj {p q : Peer} {t u : String} (h : transferKey p t = transferKey q u) :
    p = q ∧ t = u := by
  have hpt : p.id = q.id ∧ t.toList = u.toList := by
    obtain ⟨p, hp⟩ := p
    obtain ⟨q, hq⟩ := q
    unfold transferKey at h
    dsimp only at h ⊢
    induction p generalizing q with
    | nil =>
      cases q with
      | nil => exact ⟨rfl, (List.cons.inj h).2⟩
      | cons d q =>
        obtain ⟨rfl, -⟩ := List.cons.inj h
        exact absurd mem_cons_self hq
    | cons c p ih =>
      cases q with
      | nil =>
        obtain ⟨rfl, -⟩ := List.cons.inj h
        exact absurd mem_cons_self hp
      | cons d q =>
        obtain ⟨rfl, hrest⟩ := List.cons.inj h
        obtain ⟨hpq, htu⟩ := ih (fun hm => hp (mem_cons_of_mem _ hm)) q
          (fun hm => hq (mem_cons_of_mem _ hm)) hrest
        exact ⟨congrArg _ hpq, htu⟩
  obtain ⟨hid, ht⟩ := hpt
  refine ⟨?_, String.toList_inj.mp ht⟩
  obtain ⟨p, _⟩ := p
  obtain ⟨q, _⟩ := q
  cases hid
  rfl

namespace Transfers

/-! ## What is held -/

/-- The slices of a record came from the peer, under one id and one declared length. -/
def Came (heard : List HeardChunk) (peer : Peer) (m : DocSyncChunkMeta) (payload : Bytes) :
    Prop :=
  ∃ c ∈ heard, c.peer = peer ∧ c.chunk = m ∧ c.payload = payload

/-- A record put together from slices that came from the peer under one id, each in its place,
the last to come on the document's lane. -/
def Reassembled (heard : List HeardChunk) (docId : String) (peer : Peer) (transfer : String)
    (record : Bytes) : Prop :=
  ∃ pieces : List Bytes, record = pieces.flatten ∧
    (∃ c ∈ heard, c.docId = docId ∧ c.peer = peer ∧ c.chunk.transfer = transfer ∧
      c.chunk.count = pieces.length ∧ c.chunk.byteLength = record.length) ∧
    ∀ i p, pieces[i]? = some p →
      Came heard peer
        { transfer := transfer
          index := i
          count := pieces.length
          byteLength := record.length } p

def Told (heard : List HeardChunk) : TransferOutcome → Prop
  | .handed docId peer transfer record =>
    Reassembled heard docId peer transfer record ∧ record.head? ≠ some chunkKind
  | .refused _ _ _ => True

structure Sound (s : Transfers) : Prop where
  timed : ∀ key held, s.table.lookup key = some held →
    ∃ t, s.timers.lookup held.timer = some t ∧ transferKey t.peer t.transfer = key
  armed : ∀ id t, s.timers.lookup id = some t →
    ∃ held, s.table.lookup (transferKey t.peer t.transfer) = some held ∧ held.timer = id
  minted : ∀ id t, s.timers.lookup id = some t → id < s.nextTimer
  held : ∀ peer transfer held, s.table.lookup (transferKey peer transfer) = some held →
    held.peer = peer ∧ ∀ i p, held.parts[i]? = some (some p) →
      Came s.heard peer
        { transfer := transfer
          index := i
          count := held.count
          byteLength := held.byteLength } p
  budget : ∀ peer, s.peerBytes peer ≤ reassemblyBytesPerPeer
  perDoc : ∀ peer docId, s.sameDoc peer docId ≤ maxTransfersPerPeerDoc
  told : ∀ o ∈ s.log, Told s.heard o

theorem Came.mono {heard heard' : List HeardChunk} {peer : Peer} {m : DocSyncChunkMeta}
    {payload : Bytes} (hsub : heard ⊆ heard') (h : Came heard peer m payload) :
    Came heard' peer m payload := by
  obtain ⟨c, hc, hrest⟩ := h
  exact ⟨c, hsub hc, hrest⟩

theorem Told.mono {heard heard' : List HeardChunk} {o : TransferOutcome} (hsub : heard ⊆ heard')
    (h : Told heard o) : Told heard' o := by
  cases o with
  | handed docId peer transfer record =>
    obtain ⟨⟨pieces, hrecord, ⟨c, hc, hlast⟩, hpieces⟩, hkind⟩ := h
    refine ⟨⟨pieces, hrecord, ⟨c, hsub hc, hlast⟩, ?_⟩, hkind⟩
    intro i p hp
    exact (hpieces i p hp).mono hsub
  | refused peer transfer why => trivial

theorem sound_start : Sound {} where
  timed := by
    intro _ _ h
    cases h
  armed := by
    intro _ _ h
    cases h
  minted := by
    intro _ _ h
    cases h
  held := by
    intro _ _ _ h
    cases h
  budget := fun _ => Nat.zero_le _
  perDoc := fun _ _ => Nat.zero_le _
  told := by
    intro _ h
    cases h

section Steps

variable {s : Transfers} {key : TransferKey} {peer : Peer} {transfer docId : String}

theorem Sound.hear (h : s.Sound) (chunk : HeardChunk) : (s.hear chunk).Sound where
  __ := h
  held := by
    intro peer transfer held hheld
    obtain ⟨hpeer, hcame⟩ := h.held peer transfer held hheld
    exact ⟨hpeer, fun i p hp => (hcame i p hp).mono (subset_append_left _ _)⟩
  told := fun o ho => (h.told o ho).mono (subset_append_left _ _)

theorem Sound.tell (h : s.Sound) {o : TransferOutcome} (ho : Told s.heard o) :
    (s.tell o).Sound where
  __ := h
  told :=
    forall_mem_append.mpr ⟨h.told, forall_mem_singleton.mpr ho⟩

theorem table_dropEntry (s : Transfers) (key key' : TransferKey) :
    (s.dropEntry key).table.lookup key' = if key' = key then none else s.table.lookup key' := by
  rw [dropEntry]
  split
  · next hnone =>
    split
    · next hk => rw [hk, hnone]
    · rfl
  · exact lookup_erase _ _ _

variable {held : Reassembly} {m : DocSyncChunkMeta} {payload : Bytes} {s' : Transfers}
  {text : ChunkText} {timer ttlMs : Nat}

theorem timers_dropEntry (h : s.table.lookup key = some held) :
    (s.dropEntry key).timers = s.timers.erase held.timer := by
  rw [dropEntry, h]

theorem dropEntry_of_none (h : s.table.lookup key = none) : s.dropEntry key = s := by
  rw [dropEntry, h]

theorem sum_dropEntry_le (s : Transfers) (key : TransferKey) (f : Reassembly → Nat) :
    (s.dropEntry key).table.sum f ≤ s.table.sum f := by
  rw [dropEntry]
  split
  · exact Nat.le_refl _
  · next held hheld =>
    have hsum := Dict.sum_erase hheld f
    show (s.table.erase key).sum f ≤ _
    omega

theorem rest_dropEntry (s : Transfers) (key : TransferKey) :
    (s.dropEntry key).heard = s.heard ∧ (s.dropEntry key).log = s.log ∧
      (s.dropEntry key).nextTimer = s.nextTimer ∧ (s.dropEntry key).clock = s.clock := by
  rw [dropEntry]
  split <;> exact ⟨rfl, rfl, rfl, rfl⟩

theorem Sound.timer_ne (h : s.Sound) {key' : TransferKey} {held held' : Reassembly}
    (hheld : s.table.lookup key = some held) (hheld' : s.table.lookup key' = some held')
    (hne : key' ≠ key) : held'.timer ≠ held.timer := by
  intro heq
  obtain ⟨t, ht, hkey⟩ := h.timed key held hheld
  obtain ⟨t', ht', hkey'⟩ := h.timed key' held' hheld'
  rw [heq, ht] at ht'
  cases ht'
  exact hne (hkey'.symm.trans hkey)

theorem Sound.dropEntry (h : s.Sound) (key : TransferKey) : (s.dropEntry key).Sound := by
  cases hk : s.table.lookup key with
  | none => rwa [dropEntry_of_none hk]
  | some held =>
    obtain ⟨hheard, hlog, hnext, -⟩ := rest_dropEntry s key
    have htable := table_dropEntry s key
    have htimers := timers_dropEntry hk
    refine ⟨?_, ?_, ?_, ?_, ?_, ?_, ?_⟩
    · intro key' held' hheld'
      rw [htable] at hheld'
      split at hheld'
      · cases hheld'
      · next hne =>
        have htimer := h.timer_ne hk hheld' hne
        rw [htimers, lookup_erase, if_neg htimer]
        exact h.timed key' held' hheld'
    · intro id t ht
      rw [htimers, lookup_erase] at ht
      split at ht
      · cases ht
      · next hid =>
        obtain ⟨held', hheld', htimer⟩ := h.armed id t ht
        refine ⟨held', ?_, htimer⟩
        rw [htable, if_neg]
        · exact hheld'
        · intro hkey
          rw [hkey, hk] at hheld'
          cases hheld'
          exact hid htimer.symm
    · intro id t ht
      rw [htimers, lookup_erase] at ht
      split at ht
      · cases ht
      · rw [hnext]
        exact h.minted id t ht
    · intro peer transfer held' hheld'
      rw [htable] at hheld'
      split at hheld'
      · cases hheld'
      · rw [hheard]
        exact h.held peer transfer held' hheld'
    · exact fun peer => Nat.le_trans (sum_dropEntry_le s key _) (h.budget peer)
    · exact fun peer docId => Nat.le_trans (sum_dropEntry_le s key _) (h.perDoc peer docId)
    · rw [hlog, hheard]
      exact h.told

theorem Sound.refuse (h : s.Sound) (peer : Peer) (transfer : String) (why : ChunkRefusal) :
    (s.refuse peer transfer why).Sound :=
  (h.dropEntry _).tell trivial

theorem Sound.begin_ (h : s.Sound)
    (hnone : s.table.lookup (transferKey peer m.transfer) = none)
    (hroom : ¬(s.sameDoc peer docId ≥ maxTransfersPerPeerDoc ∨
      s.peerBytes peer + m.byteLength > reassemblyBytesPerPeer)) :
    (s.begin_ ttlMs docId peer m).Sound := by
  have hfresh : s.timers.lookup s.nextTimer = none := by
    cases ht : s.timers.lookup s.nextTimer with
    | none => rfl
    | some t => exact absurd (h.minted _ t ht) (Nat.lt_irrefl _)
  refine ⟨?_, ?_, ?_, ?_, ?_, ?_, h.told⟩
  · intro key held hheld
    change (s.table.insert _ _).lookup key = some held at hheld
    show ∃ t, (s.timers.insert _ _).lookup held.timer = some t ∧ _
    rw [lookup_insert] at hheld
    split at hheld
    · next hkey =>
      cases hheld
      exact ⟨_, by rw [lookup_insert]; exact if_pos rfl, hkey.symm⟩
    · obtain ⟨t, ht, hkey⟩ := h.timed key held hheld
      refine ⟨t, ?_, hkey⟩
      rw [lookup_insert, if_neg]
      · exact ht
      · intro heq
        rw [heq, hfresh] at ht
        cases ht
  · intro id t ht
    change (s.timers.insert _ _).lookup id = some t at ht
    show ∃ held, (s.table.insert _ _).lookup _ = some held ∧ _
    rw [lookup_insert] at ht
    split at ht
    · next hid =>
      cases ht
      exact ⟨_, by rw [lookup_insert]; exact if_pos rfl, hid.symm⟩
    · obtain ⟨held, hheld, htimer⟩ := h.armed id t ht
      refine ⟨held, ?_, htimer⟩
      rw [lookup_insert, if_neg]
      · exact hheld
      · intro heq
        rw [heq, hnone] at hheld
        cases hheld
  · intro id t ht
    change (s.timers.insert _ _).lookup id = some t at ht
    show id < s.nextTimer + 1
    rw [lookup_insert] at ht
    split at ht
    · omega
    · exact Nat.lt_succ_of_lt (h.minted id t ht)
  · intro peer' transfer held hheld
    change (s.table.insert _ _).lookup _ = some held at hheld
    rw [lookup_insert] at hheld
    split at hheld
    · next hkey =>
      cases hheld
      refine ⟨(transferKey_inj hkey).1.symm, ?_⟩
      intro i p hp
      have hmem := mem_of_getElem? hp
      cases eq_of_mem_replicate hmem
    · exact h.held peer' transfer held hheld
  · intro peer'
    show (s.table.insert _ _).sum _ ≤ _
    rw [sum_insert_new hnone]
    have hold := h.budget peer'
    rw [peerBytes] at hold hroom
    show _ + (if peer = peer' then m.byteLength else 0) ≤ _
    split
    · next hpeer =>
      subst hpeer
      omega
    · omega
  · intro peer' docId'
    show (s.table.insert _ _).sum _ ≤ _
    rw [sum_insert_new hnone]
    have hold := h.perDoc peer' docId'
    rw [sameDoc] at hold hroom
    show _ + (if peer = peer' ∧ docId = docId' then 1 else 0) ≤ _
    split
    · next hsame =>
      obtain ⟨rfl, rfl⟩ := hsame
      omega
    · omega

theorem Sound.put (h : s.Sound) (hheld : s.table.lookup (transferKey peer m.transfer) = some held)
    (hcount : held.count = m.count) (hlength : held.byteLength = m.byteLength)
    (hcame : Came s.heard peer m payload) (hpart : held.parts[m.index]? = some none) :
    Sound { s with
      table := s.table.insert (transferKey peer m.transfer) (held.put m.index payload hpart) } := by
  refine ⟨?_, ?_, h.minted, ?_, ?_, ?_, h.told⟩
  · intro key held' hheld'
    change (s.table.insert _ _).lookup key = some held' at hheld'
    rw [lookup_insert] at hheld'
    split at hheld'
    · next hkey =>
      cases hheld'
      rw [hkey]
      exact h.timed _ held hheld
    · exact h.timed key held' hheld'
  · intro id t ht
    obtain ⟨held', hheld', htimer⟩ := h.armed id t ht
    show ∃ held, (s.table.insert _ _).lookup _ = some held ∧ _
    rw [lookup_insert]
    split
    · next hkey =>
      rw [hkey, hheld] at hheld'
      cases hheld'
      exact ⟨_, rfl, htimer⟩
    · exact ⟨held', hheld', htimer⟩
  · intro peer' transfer held' hheld'
    change (s.table.insert _ _).lookup _ = some held' at hheld'
    rw [lookup_insert] at hheld'
    split at hheld'
    · next hkey =>
      obtain ⟨rfl, rfl⟩ := transferKey_inj hkey
      cases hheld'
      obtain ⟨hpeer, hpieces⟩ := h.held _ _ held hheld
      refine ⟨hpeer, ?_⟩
      intro i p hp
      change (held.parts.set m.index (some payload))[i]? = some (some p) at hp
      by_cases hi : m.index = i
      · subst hi
        have hlt : m.index < held.parts.length := (List.getElem?_eq_some_iff.mp hpart).1
        rw [List.getElem?_set_self hlt] at hp
        cases hp
        show Came s.heard _
          { transfer := m.transfer
            index := m.index
            count := held.count
            byteLength := held.byteLength } _
        rw [hcount, hlength]
        exact hcame
      · rw [List.getElem?_set_ne hi] at hp
        exact hpieces i p hp
    · exact h.held peer' transfer held' hheld'
  · intro peer'
    show (s.table.insert _ _).sum _ ≤ _
    have hsum := sum_insert_old hheld (held.put m.index payload hpart)
      fun held => if held.peer = peer' then held.byteLength else 0
    have hold := h.budget peer'
    rw [peerBytes] at hold
    change _ + (if held.peer = peer' then held.byteLength else 0) =
      _ + (if held.peer = peer' then held.byteLength else 0) at hsum
    omega
  · intro peer' docId'
    show (s.table.insert _ _).sum _ ≤ _
    have hsum := sum_insert_old hheld (held.put m.index payload hpart)
      fun held => if held.peer = peer' ∧ held.docId = docId' then 1 else 0
    have hold := h.perDoc peer' docId'
    rw [sameDoc] at hold
    change _ + (if held.peer = peer' ∧ held.docId = docId' then 1 else 0) =
      _ + (if held.peer = peer' ∧ held.docId = docId' then 1 else 0) at hsum
    omega

theorem Sound.complete (h : s.Sound)
    (hheld : s.table.lookup (transferKey peer transfer) = some held)
    (hlast : ∃ c ∈ s.heard, c.docId = docId ∧ c.peer = peer ∧ c.chunk.transfer = transfer ∧
      c.chunk.count = held.count ∧ c.chunk.byteLength = held.byteLength) :
    (s.complete docId peer transfer held).Sound := by
  have hdrop := h.dropEntry (transferKey peer transfer)
  rw [Transfers.complete]
  split
  · exact hdrop.refuse peer transfer .short
  · next hsize =>
    cases hwhole : assemble held.parts with
    | none => exact hdrop
    | some whole =>
      dsimp only
      split
      · exact hdrop.refuse peer transfer .nested
      · next hkind =>
        obtain ⟨pieces, hparts, rfl⟩ := assemble_eq_some hwhole
        have hcount : held.count = pieces.length := by
          rw [← held.parts_length, hparts, length_map]
        have hlength : held.byteLength = pieces.flatten.length := by
          rw [← Decidable.not_not.mp hsize, held.size_eq, hparts, partsSize_map_some]
        rw [hcount, hlength] at hlast
        refine hdrop.tell ⟨⟨pieces, rfl, ?_, ?_⟩, hkind⟩
        · rw [(rest_dropEntry s _).1]
          exact hlast
        · intro i p hp
          have hpart : held.parts[i]? = some (some p) := by
            rw [hparts, List.getElem?_map, hp]
            rfl
          have hcame := (h.held peer transfer held hheld).2 i p hpart
          rw [(rest_dropEntry s _).1, ← hcount, ← hlength]
          exact hcame

theorem Sound.slot (h : s.Sound) (hheld : s.table.lookup (transferKey peer m.transfer) = some held)
    (hcame : ∃ c ∈ s.heard, c.docId = docId ∧ c.peer = peer ∧ c.chunk = m ∧ c.payload = payload) :
    (s.slot docId peer m payload held).Sound := by
  obtain ⟨c, hc, hdoc, hpeer, hchunk, hpayload⟩ := hcame
  rw [Transfers.slot]
  split
  · exact h.refuse peer m.transfer .inconsistent
  · next hsame =>
    obtain ⟨hcount, hlength⟩ : held.count = m.count ∧ held.byteLength = m.byteLength := by
      simpa using hsame
    split
    · next hpart =>
      split
      · exact h.refuse peer m.transfer .overrun
      · have hput := h.put hheld hcount hlength ⟨c, hc, hpeer, hchunk, hpayload⟩ hpart
        dsimp only
        split
        · exact hput
        · refine hput.complete ?_ ⟨c, hc, hdoc, hpeer, by rw [hchunk], ?_, ?_⟩
          · show (s.table.insert _ _).lookup _ = _
            rw [lookup_insert, if_pos rfl]
          · rw [hchunk]
            exact hcount.symm
          · rw [hchunk]
            exact hlength.symm
    · exact h

theorem Sound.onChunk (h : s.Sound)
    (hcame : ∃ c ∈ s.heard, c.docId = docId ∧ c.peer = peer ∧ c.chunk = m ∧ c.payload = payload) :
    (s.onChunk ttlMs docId peer m payload).Sound := by
  rw [Transfers.onChunk]
  split
  · exact h.refuse peer m.transfer .outOfBounds
  · cases hheld : s.table.lookup (transferKey peer m.transfer) with
    | some held => exact h.slot hheld hcame
    | none =>
      dsimp only
      split
      · exact h
      · split
        · exact h.refuse peer m.transfer .overBudget
        · next hroom =>
          refine (h.begin_ hheld hroom).slot ?_ hcame
          show (s.table.insert _ _).lookup _ = _
          rw [lookup_insert, if_pos rfl]

theorem Sound.receive (h : s.Sound) (text : ChunkText) (ttlMs : Nat) (docId : String) (peer : Peer)
    (record : Bytes) : (s.receive text ttlMs docId peer record).Sound := by
  rw [Transfers.receive]
  split
  · next kind m payload _ =>
    split
    · exact (h.hear _).onChunk ⟨_, mem_append_right _ (mem_singleton.mpr rfl), rfl, rfl,
        rfl, rfl⟩
    · exact h
  · exact h

theorem Sound.disarm (h : s.Sound) (hnone : s.timers.lookup timer = none) :
    Sound { s with timers := s.timers.erase timer } := by
  have hsame : ∀ id, (s.timers.erase timer).lookup id = s.timers.lookup id := by
    intro id
    rw [lookup_erase]
    split
    · next hid => rw [hid, hnone]
    · rfl
  refine ⟨?_, ?_, ?_, h.held, h.budget, h.perDoc, h.told⟩
  · intro key held hheld
    obtain ⟨t, ht, hkey⟩ := h.timed key held hheld
    exact ⟨t, (hsame _).trans ht, hkey⟩
  · intro id t ht
    exact h.armed id t ((hsame id).symm.trans ht)
  · intro id t ht
    exact h.minted id t ((hsame id).symm.trans ht)

theorem fire_eq_some (h : s.fire timer = some s') :
    ∃ t, s.timers.lookup timer = some t ∧ t.due ≤ s.clock ∧
      s' = { s.refuse t.peer t.transfer .expired with
        timers := (s.refuse t.peer t.transfer .expired).timers.erase timer } := by
  obtain ⟨t, ht, hfire⟩ := bind_eq_some_iff.mp h
  obtain ⟨hdue, hs'⟩ := ite_none_right_eq_some.mp hfire
  exact ⟨t, ht, hdue, (some.inj hs').symm⟩

theorem Sound.timers_fired (h : s.Sound) {t : TransferTimer} (ht : s.timers.lookup timer = some t)
    (why : ChunkRefusal) : (s.refuse t.peer t.transfer why).timers.lookup timer = none := by
  obtain ⟨held, hheld, rfl⟩ := h.armed timer t ht
  show (s.dropEntry _).timers.lookup held.timer = none
  rw [timers_dropEntry hheld, lookup_erase, if_pos rfl]

theorem Sound.fire (h : s.Sound) (hs : s.fire timer = some s') : s'.Sound := by
  obtain ⟨t, ht, -, rfl⟩ := fire_eq_some hs
  exact (h.refuse t.peer t.transfer .expired).disarm (h.timers_fired ht .expired)

theorem Sound.next (h : s.Sound) {event : TransfersEvent} (hs : s.next text ttlMs event = some s') :
    s'.Sound := by
  cases event with
  | record docId peer record =>
    cases hs
    exact h.receive text ttlMs docId peer record
  | tick ms =>
    cases hs
    exact { h with }
  | fire timer => exact h.fire hs

theorem sound_reachable (h : (transfersMachine text ttlMs).Reachable s) : s.Sound :=
  h.invariant sound_start fun _ _ _ hs hnext => hs.next hnext

/-! ## A step is about one transfer -/

/-- What a step about one transfer leaves alone; and if it says what became of the transfer,
nothing is held of it. -/
structure About (s s' : Transfers) (key : TransferKey) : Prop where
  clock : s'.clock = s.clock
  heard : s'.heard = s.heard
  table : ∀ key', key' ≠ key → s'.table.lookup key' = s.table.lookup key'
  timers : ∀ id t, s.timers.lookup id = some t → transferKey t.peer t.transfer ≠ key →
    s'.timers.lookup id = some t
  log : ∃ new : Option TransferOutcome, s'.log = s.log ++ new.toList ∧
    ∀ o ∈ new, o.key = key ∧ s'.table.lookup key = none

theorem About.refl (s : Transfers) (key : TransferKey) : About s s key where
  clock := rfl
  heard := rfl
  table := fun _ _ => rfl
  timers := fun _ _ ht _ => ht
  log := ⟨none, by simp⟩

theorem About.trans {t u : Transfers} (h : About s t key) (hlog : t.log = s.log)
    (h' : About t u key) : About s u key where
  clock := h'.clock.trans h.clock
  heard := h'.heard.trans h.heard
  table := fun key' hne => (h'.table key' hne).trans (h.table key' hne)
  timers := fun id timer ht hne => h'.timers id timer (h.timers id timer ht hne) hne
  log := by
    obtain ⟨new, hnew, hsettled⟩ := h'.log
    exact ⟨new, by rw [hnew, hlog], hsettled⟩

theorem Sound.about_dropEntry (h : s.Sound) (key : TransferKey) :
    About s (s.dropEntry key) key := by
  obtain ⟨hheard, hlog, -, hclock⟩ := rest_dropEntry s key
  refine ⟨hclock, hheard, ?_, ?_, ⟨none, by rw [hlog]; simp, by simp⟩⟩
  · intro key' hne
    rw [table_dropEntry, if_neg hne]
  · intro id t ht hne
    cases hk : s.table.lookup key with
    | none => rwa [dropEntry_of_none hk]
    | some held =>
      rw [timers_dropEntry hk, lookup_erase, if_neg]
      · exact ht
      · intro hid
        obtain ⟨t', ht', hkey⟩ := h.timed key held hk
        rw [← hid, ht] at ht'
        cases ht'
        exact hne hkey

theorem about_tell {o : TransferOutcome} (hkey : o.key = key) (hnone : s.table.lookup key = none) :
    About s (s.tell o) key where
  clock := rfl
  heard := rfl
  table := fun _ _ => rfl
  timers := fun _ _ ht _ => ht
  log := by
    refine ⟨some o, rfl, ?_⟩
    intro o' ho'
    cases ho'
    exact ⟨hkey, hnone⟩

theorem lookup_dropEntry (s : Transfers) (key : TransferKey) :
    (s.dropEntry key).table.lookup key = none := by
  rw [table_dropEntry, if_pos rfl]

theorem Sound.about_refuse (h : s.Sound) (peer : Peer) (transfer : String) (why : ChunkRefusal) :
    About s (s.refuse peer transfer why) (transferKey peer transfer) :=
  (h.about_dropEntry _).trans (rest_dropEntry s _).2.1 (about_tell rfl (lookup_dropEntry s _))

theorem Sound.about_begin (h : s.Sound) :
    About s (s.begin_ ttlMs docId peer m) (transferKey peer m.transfer) where
  clock := rfl
  heard := rfl
  table := by
    intro key' hne
    show (s.table.insert _ _).lookup key' = _
    rw [lookup_insert, if_neg hne]
  timers := by
    intro id t ht _
    show (s.timers.insert _ _).lookup id = _
    rw [lookup_insert, if_neg]
    · exact ht
    · exact Nat.ne_of_lt (h.minted id t ht)
  log := ⟨none, (append_nil _).symm, by simp⟩

theorem about_insert (s : Transfers) (key : TransferKey) (held : Reassembly) :
    About s { s with table := s.table.insert key held } key where
  clock := rfl
  heard := rfl
  table := by
    intro key' hne
    show (s.table.insert _ _).lookup key' = _
    rw [lookup_insert, if_neg hne]
  timers := fun _ _ ht _ => ht
  log := ⟨none, (append_nil _).symm, by simp⟩

theorem Sound.about_complete (h : s.Sound) (held : Reassembly) :
    About s (s.complete docId peer transfer held) (transferKey peer transfer) := by
  have hdrop := h.about_dropEntry (transferKey peer transfer)
  have hlog := (rest_dropEntry s (transferKey peer transfer)).2.1
  have hsound := h.dropEntry (transferKey peer transfer)
  rw [Transfers.complete]
  split
  · exact hdrop.trans hlog (hsound.about_refuse peer transfer .short)
  · split
    · exact hdrop
    · split
      · exact hdrop.trans hlog (hsound.about_refuse peer transfer .nested)
      · exact hdrop.trans hlog (about_tell rfl (lookup_dropEntry s _))

theorem Sound.about_slot (h : s.Sound)
    (hheld : s.table.lookup (transferKey peer m.transfer) = some held)
    (hcame : Came s.heard peer m payload) :
    About s (s.slot docId peer m payload held) (transferKey peer m.transfer) := by
  rw [Transfers.slot]
  split
  · exact h.about_refuse peer m.transfer .inconsistent
  · next hsame =>
    obtain ⟨hcount, hlength⟩ : held.count = m.count ∧ held.byteLength = m.byteLength := by
      simpa using hsame
    split
    · next hpart =>
      split
      · exact h.about_refuse peer m.transfer .overrun
      · have hput := h.put hheld hcount hlength hcame hpart
        have hinsert := about_insert s (transferKey peer m.transfer)
          (held.put m.index payload hpart)
        dsimp only
        split
        · exact hinsert
        · exact hinsert.trans rfl (hput.about_complete _)
    · exact About.refl s _

theorem Sound.about_onChunk (h : s.Sound) (hcame : Came s.heard peer m payload) :
    About s (s.onChunk ttlMs docId peer m payload) (transferKey peer m.transfer) := by
  rw [Transfers.onChunk]
  split
  · exact h.about_refuse peer m.transfer .outOfBounds
  · cases hheld : s.table.lookup (transferKey peer m.transfer) with
    | some held => exact h.about_slot hheld hcame
    | none =>
      dsimp only
      split
      · exact About.refl s _
      · split
        · exact h.about_refuse peer m.transfer .overBudget
        · next hroom =>
          have hentry : (s.begin_ ttlMs docId peer m).table.lookup (transferKey peer m.transfer) =
              some (Reassembly.fresh peer docId m s.nextTimer) := by
            show (s.table.insert _ _).lookup _ = _
            rw [lookup_insert, if_pos rfl]
          exact h.about_begin.trans rfl ((h.begin_ hheld hroom).about_slot hentry hcame)

theorem Sound.about_fire (h : s.Sound) {t : TransferTimer} (ht : s.timers.lookup timer = some t)
    (hs : s.fire timer = some s') : About s s' (transferKey t.peer t.transfer) := by
  obtain ⟨t', ht', -, rfl⟩ := fire_eq_some hs
  rw [ht] at ht'
  cases ht'
  have habout := h.about_refuse t.peer t.transfer .expired
  refine ⟨habout.clock, habout.heard, habout.table, ?_, habout.log⟩
  intro id t' ht' hne
  show (Dict.erase _ timer).lookup id = some t'
  rw [lookup_erase, if_neg]
  · exact habout.timers id t' ht' hne
  · intro hid
    rw [hid, ht] at ht'
    cases ht'
    exact hne rfl

theorem Sound.settles (h : s.Sound) {event : TransfersEvent}
    (hs : s.next text ttlMs event = some s') :
    ∃ new, s'.log = s.log ++ new ∧ ∀ o ∈ new, s'.table.lookup o.key = none ∧
      ∀ id t, s'.timers.lookup id = some t → transferKey t.peer t.transfer ≠ o.key := by
  have hsound := h.next hs
  have hsettled : ∃ new, s'.log = s.log ++ new ∧ ∀ o ∈ new, s'.table.lookup o.key = none := by
    have hof : ∀ key, About s s' key →
        ∃ new, s'.log = s.log ++ new ∧ ∀ o ∈ new, s'.table.lookup o.key = none := by
      intro key habout
      obtain ⟨new, hnew, hall⟩ := habout.log
      refine ⟨new.toList, hnew, ?_⟩
      intro o ho
      obtain ⟨hkey, hnone⟩ := hall o (mem_toList.mp ho)
      rw [hkey]
      exact hnone
    cases event with
    | record docId peer record =>
      cases hs
      rw [Transfers.receive]
      split
      · next kind m payload _ =>
        split
        · have hcame : Came (s.hear ⟨docId, peer, m, payload⟩).heard peer m payload :=
            ⟨_, mem_append_right _ (mem_singleton.mpr rfl), rfl, rfl, rfl⟩
          have habout : About _ ((s.hear ⟨docId, peer, m, payload⟩).onChunk ttlMs docId peer m
              payload) _ := (h.hear _).about_onChunk hcame
          obtain ⟨new, hnew, hall⟩ := habout.log
          refine ⟨new.toList, hnew, ?_⟩
          intro o ho
          obtain ⟨hkey, hnone⟩ := hall o (mem_toList.mp ho)
          rw [hkey]
          exact hnone
        · exact ⟨[], (append_nil _).symm, by simp⟩
      · exact ⟨[], (append_nil _).symm, by simp⟩
    | tick ms =>
      cases hs
      exact ⟨[], (append_nil _).symm, by simp⟩
    | fire timer =>
      obtain ⟨t, ht, -⟩ := fire_eq_some hs
      exact hof _ (h.about_fire ht hs)
  obtain ⟨new, hnew, hall⟩ := hsettled
  refine ⟨new, hnew, ?_⟩
  intro o ho
  refine ⟨hall o ho, ?_⟩
  intro id t ht hkey
  obtain ⟨held, hheld, -⟩ := hsound.armed id t ht
  rw [hkey, hall o ho] at hheld
  cases hheld

end Steps

end Transfers

end VibeField.Fieldd
