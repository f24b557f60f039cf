import VibeField.Fieldd.Reassembly

/-!
# What is sent in chunks arrives whole

Senders cut records into chunks and their lanes deliver each transfer in order, a slice perhaps
again, the transfers interleaved in any way.  A transfer that finds room and whose slices come in
time is read exactly once, as the record that was cut.
-/

namespace VibeField.Fieldd

open Contracts List Option

/-- A record its sender cuts into chunks: `sendChunked` takes none longer than the receiver's
ceiling, and no CHUNK. -/
structure Transfer where
  peer : Peer
  docId : String
  transfer : String
  record : Bytes
  chunkBytes : Nat
  transfer_pos : 0 < (Utf16.encode transfer.toList).length
  transfer_le : (Utf16.encode transfer.toList).length ≤ 64
  chunkBytes_ge : 1024 ≤ chunkBytes
  record_pos : 0 < record.length
  record_le : record.length ≤ maxTransferBytes
  record_kind : record.head? ≠ some chunkKind
  deriving DecidableEq

namespace Transfer

def key (t : Transfer) : TransferKey := transferKey t.peer t.transfer

def count (t : Transfer) : Nat := sliceCount t.record.length t.chunkBytes

def records (text : ChunkText) (t : Transfer) : List Bytes :=
  (chunkDocSyncRecord text t.record t.transfer t.chunkBytes).getD []

def chunk (t : Transfer) (k : Nat) : DocSyncChunkMeta where
  transfer := t.transfer
  index := k
  count := t.count
  byteLength := t.record.length

def slice (t : Transfer) (k : Nat) : Bytes := VibeField.slice t.record t.chunkBytes k

variable (t : Transfer) {k : Nat}

theorem chunkBytes_pos : 0 < t.chunkBytes := Nat.lt_of_lt_of_le (by decide) t.chunkBytes_ge

theorem count_pos : 0 < t.count := sliceCount_pos t.chunkBytes_pos t.record_pos

theorem count_le : t.count ≤ t.record.length :=
  sliceCount_le_length t.chunkBytes_pos t.record_pos

theorem count_le_max : t.count ≤ maxChunksPerTransfer :=
  sliceCount_le_of_le (by decide) t.chunkBytes_ge t.record_le

theorem valid_chunk (hk : k < t.count) : (t.chunk k).Valid where
  transfer_pos := t.transfer_pos
  transfer_le := t.transfer_le
  index_lt := hk
  count_le := t.count_le
  byteLength_le := Nat.le_trans t.record_le (by decide)

theorem inBounds (hk : k < t.count) : Transfers.outOfBounds (t.chunk k) = false := by
  have hmax := t.record_le
  have hcount := t.count_le_max
  have hle := t.count_le
  have hall : ¬(t.record.length > maxTransferBytes) ∧ ¬(t.count > maxChunksPerTransfer) ∧
      ¬(k ≥ t.count) ∧ ¬(t.count > t.record.length) := by omega
  simpa [Transfers.outOfBounds, chunk, and_assoc] using hall

theorem records_eq (text : ChunkText) :
    t.records text = (List.range t.count).map fun k =>
      encodeFrame chunkKind (text.write (t.chunk k)) (t.slice k) := by
  rw [records, chunkDocSyncRecord, if_neg (by have := t.chunkBytes_pos; omega),
    if_neg (by have := t.record_pos; omega)]
  rfl

theorem getElem?_records (text : ChunkText) {record : Bytes}
    (h : (t.records text)[k]? = some record) :
    k < t.count ∧ record = encodeFrame chunkKind (text.write (t.chunk k)) (t.slice k) := by
  rw [records_eq, List.getElem?_map] at h
  obtain ⟨i, hi, rfl⟩ := map_eq_some_iff.mp h
  obtain ⟨hlt, heq⟩ := List.getElem?_eq_some_iff.mp hi
  rw [length_range] at hlt
  rw [getElem_range] at heq
  subst heq
  exact ⟨hlt, rfl⟩

theorem flatMap_slice : (List.range t.count).flatMap t.slice = t.record :=
  slices_whole t.record t.chunkBytes_pos

def partsAt (n : Nat) : List (Option Bytes) :=
  (List.range t.count).map fun i => if i < n then some (t.slice i) else none

variable {n : Nat}

theorem getElem?_partsAt (hk : k < t.count) :
    (t.partsAt n)[k]? = some (if k < n then some (t.slice k) else none) := by
  rw [partsAt, List.getElem?_map, List.getElem?_range hk]
  rfl

theorem partsAt_zero : t.partsAt 0 = List.replicate t.count none := by
  refine eq_replicate_iff.mpr ⟨by simp [partsAt], ?_⟩
  intro p hp
  obtain ⟨i, -, rfl⟩ := List.mem_map.mp hp
  exact if_neg (Nat.not_lt_zero i)

theorem partsAt_set (hn : n < t.count) :
    (t.partsAt n).set n (some (t.slice n)) = t.partsAt (n + 1) := by
  have hlen : (t.partsAt n).length = t.count := by simp [partsAt]
  refine ext_getElem? fun k => ?_
  by_cases hk : k < t.count
  · rw [getElem?_partsAt t hk]
    by_cases hkn : n = k
    · subst hkn
      rw [List.getElem?_set_self (by omega), if_pos (by omega)]
    · rw [List.getElem?_set_ne hkn, getElem?_partsAt t hk]
      congr 2
      exact propext ⟨by omega, by omega⟩
  · rw [List.getElem?_eq_none (by rw [length_set]; omega),
      List.getElem?_eq_none (by simp [partsAt]; omega)]

theorem partsSize_partsAt (hn : n ≤ t.count) :
    partsSize (t.partsAt n) = ((List.range n).flatMap t.slice).length := by
  induction n with
  | zero =>
    rw [partsAt_zero]
    exact partsSize_replicate _
  | succ n ih =>
    have hget : (t.partsAt n)[n]? = some none := by
      rw [getElem?_partsAt t hn, if_neg (Nat.lt_irrefl n)]
    rw [← partsAt_set t hn, partsSize_set hget, ih (by omega), range_succ,
      flatMap_append, length_append]
    simp

theorem partsCount_partsAt (hn : n ≤ t.count) : partsCount (t.partsAt n) = n := by
  induction n with
  | zero =>
    rw [partsAt_zero]
    exact partsCount_replicate _
  | succ n ih =>
    have hget : (t.partsAt n)[n]? = some none := by
      rw [getElem?_partsAt t hn, if_neg (Nat.lt_irrefl n)]
    rw [← partsAt_set t hn, partsCount_set hget, ih (by omega)]

theorem partsSize_le (hn : n ≤ t.count) : partsSize (t.partsAt n) ≤ t.record.length := by
  have hflat : (List.range n).flatMap t.slice = t.record.take (n * t.chunkBytes) :=
    flatMap_slices t.record t.chunkBytes n
  rw [partsSize_partsAt t hn, hflat, length_take]
  omega

theorem partsAt_count : t.partsAt t.count = ((List.range t.count).map t.slice).map some := by
  rw [partsAt, List.map_map]
  refine map_congr_left fun i hi => ?_
  exact if_pos (mem_range.mp hi)

theorem assemble_partsAt : assemble (t.partsAt t.count) = some t.record := by
  rw [partsAt_count, assemble_map_some, ← flatMap_def, flatMap_slice]

end Transfer

structure Sending where
  sent : Transfer → Bool
  unique : ∀ t u, sent t = true → sent u = true → t.key = u.key → t = u

/-- How far each transfer came, when it began, and whether a slice came once its time was over. -/
structure Deliveries where
  transfers : Transfers := {}
  came : TransferKey → Nat := fun _ => 0
  began : TransferKey → Nat := fun _ => 0
  late : TransferKey → Bool := fun _ => false

inductive DeliveriesEvent where
  | deliver (t : Transfer) (index : Nat)
  | tick (ms : Nat)
  | fire (timer : Nat)

namespace Deliveries

section Steps

variable (sending : Sending) (text : ChunkText) (ttlMs : Nat)

def deliver (d : Deliveries) (t : Transfer) (index : Nat) : Option Deliveries :=
  if sending.sent t = true ∧ index ≤ d.came t.key ∧ (index = 0 → d.came t.key < t.count) then
    (t.records text)[index]?.map fun record =>
      let transfers := d.transfers.receive text ttlMs t.docId t.peer record
      if index = d.came t.key then
        { transfers := transfers
          came := fun key => if key = t.key then index + 1 else d.came key
          began := fun key => if key = t.key ∧ index = 0 then d.transfers.clock else d.began key
          late := fun key =>
            d.late key ||
              decide (key = t.key ∧ index ≠ 0 ∧ d.began key + ttlMs ≤ d.transfers.clock) }
      else { d with transfers := transfers }
  else none

def next (d : Deliveries) : DeliveriesEvent → Option Deliveries
  | .deliver t index => d.deliver sending text ttlMs t index
  | .tick ms => some { d with
      transfers := { d.transfers with clock := d.transfers.clock + ms } }
  | .fire timer => (d.transfers.fire timer).map fun transfers => { d with transfers := transfers }

end Steps

end Deliveries

def deliveryMachine (sending : Sending) (text : ChunkText) (ttlMs : Nat) :
    Machine Deliveries DeliveriesEvent :=
  { start := {}, next := Deliveries.next sending text ttlMs }

namespace Transfers

/-! ## The slices of one transfer -/

section Slots

variable {s : Transfers} {t : Transfer} {held : Reassembly} {n : Nat}

/-- The entry has the first `n` slices of the transfer. -/
structure Carries (t : Transfer) (held : Reassembly) (n : Nat) : Prop where
  count : held.count = t.count
  byteLength : held.byteLength = t.record.length
  parts : held.parts = t.partsAt n

theorem carries_fresh (t : Transfer) (timer : Nat) :
    Carries t (Reassembly.fresh t.peer t.docId (t.chunk 0) timer) 0 :=
  ⟨rfl, rfl, t.partsAt_zero.symm⟩

theorem Carries.put (h : Carries t held n) (hn : n < t.count)
    (hpart : held.parts[n]? = some none) : Carries t (held.put n (t.slice n) hpart) (n + 1) := by
  refine ⟨h.count, h.byteLength, ?_⟩
  show held.parts.set n (some (t.slice n)) = _
  rw [h.parts, t.partsAt_set hn]

theorem Carries.received (h : Carries t held n) (hn : n ≤ t.count) : held.received = n := by
  rw [held.received_eq, h.parts, t.partsCount_partsAt hn]

theorem slot_again (h : Carries t held n) {k : Nat} (hk : k < n) (hkc : k < t.count) :
    s.slot t.docId t.peer (t.chunk k) (t.slice k) held = s := by
  have hpart : held.parts[k]? ≠ some none := by
    rw [h.parts, t.getElem?_partsAt hkc, if_pos hk]
    exact fun heq => by cases heq
  have hsame : ¬(held.count ≠ (t.chunk k).count ∨ held.byteLength ≠ (t.chunk k).byteLength) := by
    rw [h.count, h.byteLength]
    simp [Transfer.chunk]
  rw [slot, if_neg hsame]
  exact dif_neg hpart

theorem slot_put {docId : String} {peer : Peer} {m : DocSyncChunkMeta} {payload : Bytes}
    (hcount : held.count = m.count) (hlength : held.byteLength = m.byteLength)
    (hpart : held.parts[m.index]? = some none) (hfits : held.size + payload.length ≤ m.byteLength) :
    s.slot docId peer m payload held =
      if held.received + 1 < m.count then
        { s with table := s.table.insert (transferKey peer m.transfer)
                  (held.put m.index payload hpart) }
      else complete { s with table := s.table.insert (transferKey peer m.transfer)
                              (held.put m.index payload hpart) }
        docId peer m.transfer (held.put m.index payload hpart) := by
  have hsame : ¬(held.count ≠ m.count ∨ held.byteLength ≠ m.byteLength) := by
    rw [hcount, hlength]
    simp
  rw [slot, if_neg hsame]
  refine (dif_pos hpart).trans ?_
  rw [if_neg (Nat.not_lt.mpr hfits)]
  rfl

theorem complete_whole {docId : String} {peer : Peer} {transfer : String} {whole : Bytes}
    (hsize : held.size = held.byteLength) (hwhole : assemble held.parts = some whole)
    (hkind : whole.head? ≠ some chunkKind) :
    s.complete docId peer transfer held =
      (s.dropEntry (transferKey peer transfer)).tell (.handed docId peer transfer whole) := by
  rw [complete, if_neg (by simpa using hsize), hwhole]
  exact if_neg hkind

theorem slot_next (h : Carries t held n) (hn : n < t.count) :
    ∃ held' : Reassembly, Carries t held' (n + 1) ∧ held'.timer = held.timer ∧
      s.slot t.docId t.peer (t.chunk n) (t.slice n) held =
        if n + 1 < t.count then { s with table := s.table.insert t.key held' }
        else (dropEntry { s with table := s.table.insert t.key held' } t.key).tell
          (.handed t.docId t.peer t.transfer t.record) := by
  have hpart : held.parts[(t.chunk n).index]? = some none := by
    show held.parts[n]? = _
    rw [h.parts, t.getElem?_partsAt hn, if_neg (Nat.lt_irrefl n)]
  have hput : Carries t (held.put (t.chunk n).index (t.slice n) hpart) (n + 1) := h.put hn hpart
  have hsize := (held.put (t.chunk n).index (t.slice n) hpart).size_eq
  rw [hput.parts] at hsize
  have hfits : held.size + (t.slice n).length ≤ (t.chunk n).byteLength := by
    have hle := t.partsSize_le hn
    exact hsize.trans_le hle
  refine ⟨held.put (t.chunk n).index (t.slice n) hpart, hput, rfl, ?_⟩
  rw [slot_put h.count h.byteLength hpart hfits, h.received (Nat.le_of_lt hn)]
  show (if n + 1 < t.count then _ else _) = _
  split
  · rfl
  · next hlast =>
    have hall : n + 1 = t.count := by omega
    have hparts := hput.parts
    rw [hall] at hsize hparts
    rw [t.partsSize_partsAt (Nat.le_refl _), t.flatMap_slice] at hsize
    refine complete_whole (hsize.trans h.byteLength.symm) ?_ t.record_kind
    rw [hparts, t.assemble_partsAt]

def heardOf (t : Transfer) (k : Nat) : HeardChunk where
  docId := t.docId
  peer := t.peer
  chunk := t.chunk k
  payload := t.slice k

theorem receive_slice {text : ChunkText} {ttlMs k : Nat} {record : Bytes}
    (h : (t.records text)[k]? = some record) :
    k < t.count ∧ s.receive text ttlMs t.docId t.peer record =
      (s.hear (heardOf t k)).onChunk ttlMs t.docId t.peer (t.chunk k) (t.slice k) := by
  obtain ⟨hk, rfl⟩ := t.getElem?_records text h
  refine ⟨hk, ?_⟩
  rw [receive, decode_encode_chunk text (t.valid_chunk hk)]
  exact if_pos rfl

theorem onChunk_held {ttlMs k : Nat} (hk : k < t.count)
    (h : s.table.lookup t.key = some held) :
    s.onChunk ttlMs t.docId t.peer (t.chunk k) (t.slice k) =
      s.slot t.docId t.peer (t.chunk k) (t.slice k) held := by
  have hlookup : s.table.lookup (transferKey t.peer (t.chunk k).transfer) = some held := h
  rw [onChunk, if_neg (by rw [t.inBounds hk]; exact Bool.false_ne_true), hlookup]

theorem onChunk_unstarted {ttlMs k : Nat} (hk : k < t.count) (hk0 : k ≠ 0)
    (h : s.table.lookup t.key = none) :
    s.onChunk ttlMs t.docId t.peer (t.chunk k) (t.slice k) = s := by
  have hlookup : s.table.lookup (transferKey t.peer (t.chunk k).transfer) = none := h
  rw [onChunk, if_neg (by rw [t.inBounds hk]; exact Bool.false_ne_true), hlookup]
  exact if_pos hk0

theorem onChunk_first {ttlMs : Nat} (h : s.table.lookup t.key = none) :
    s.onChunk ttlMs t.docId t.peer (t.chunk 0) (t.slice 0) =
        s.refuse t.peer t.transfer .overBudget ∨
      s.onChunk ttlMs t.docId t.peer (t.chunk 0) (t.slice 0) =
        (s.begin_ ttlMs t.docId t.peer (t.chunk 0)).slot t.docId t.peer (t.chunk 0) (t.slice 0)
          (Reassembly.fresh t.peer t.docId (t.chunk 0) s.nextTimer) := by
  have hlookup : s.table.lookup (transferKey t.peer (t.chunk 0).transfer) = none := h
  rw [onChunk, if_neg (by rw [t.inBounds t.count_pos]; exact Bool.false_ne_true), hlookup]
  dsimp only
  rw [if_neg (show ¬((t.chunk 0).index ≠ 0) by simp [Transfer.chunk])]
  split
  · exact .inl rfl
  · exact .inr rfl

end Slots

end Transfers

namespace Deliveries

/-! ## How far a transfer is -/

section Progress

variable {sending : Sending} {text : ChunkText} {ttlMs : Nat}

def outcomes (d : Deliveries) (t : Transfer) : List TransferOutcome :=
  d.transfers.log.filter fun o => o.key = t.key

inductive Progress (ttlMs : Nat) (d : Deliveries) (t : Transfer) : Prop
  | fresh : d.came t.key = 0 → d.transfers.table.lookup t.key = none → d.outcomes t = [] →
      Progress ttlMs d t
  | running (held : Reassembly) : 0 < d.came t.key → d.came t.key < t.count →
      d.transfers.table.lookup t.key = some held → Transfers.Carries t held (d.came t.key) →
      d.transfers.timers.lookup held.timer =
        some { peer := t.peer, transfer := t.transfer, due := d.began t.key + ttlMs } →
      d.outcomes t = [] → Progress ttlMs d t
  | expired : 0 < d.came t.key → d.came t.key < t.count →
      d.began t.key + ttlMs ≤ d.transfers.clock → Progress ttlMs d t
  | done : d.came t.key = t.count → d.transfers.table.lookup t.key = none →
      d.outcomes t = [.handed t.docId t.peer t.transfer t.record] → Progress ttlMs d t
  | late : d.late t.key = true → Progress ttlMs d t
  | refused : .refused t.peer t.transfer .overBudget ∈ d.transfers.log → Progress ttlMs d t

variable {d d' : Deliveries} {k : Nat} {key : TransferKey} {s : Transfers} {t : Transfer}

theorem outcomes_about (t : Transfer) (habout : Transfers.About s d'.transfers key)
    (hlog : s.log = d.transfers.log) :
    ∃ new : Option TransferOutcome,
      d'.outcomes t = d.outcomes t ++ new.toList.filter (fun o => o.key = t.key) ∧
        ∀ o ∈ new, o ∈ d'.transfers.log ∧ o.key = key ∧ d'.transfers.table.lookup key = none := by
  obtain ⟨new, hnew, hall⟩ := habout.log
  refine ⟨new, ?_, ?_⟩
  · rw [outcomes, outcomes, hnew, hlog, filter_append]
  · intro o ho
    refine ⟨?_, hall o ho⟩
    rw [hnew]
    exact mem_append_right _ (mem_toList.mpr ho)

theorem outcomes_other (habout : Transfers.About s d'.transfers key)
    (hlog : s.log = d.transfers.log) (hne : t.key ≠ key) : d'.outcomes t = d.outcomes t := by
  obtain ⟨new, houtcomes, hall⟩ := outcomes_about t habout hlog
  have hnone : new.toList.filter (fun o => o.key = t.key) = [] := by
    refine filter_eq_nil_iff.mpr fun o ho => ?_
    rw [(hall o (mem_toList.mp ho)).2.1]
    simpa using Ne.symm hne
  rw [houtcomes, hnone, append_nil]

theorem Progress.other (h : Progress ttlMs d t) (habout : Transfers.About s d'.transfers key)
    (hs : s.table = d.transfers.table ∧ s.timers = d.transfers.timers ∧
      s.log = d.transfers.log ∧ s.clock = d.transfers.clock) (hne : t.key ≠ key)
    (hcame : d'.came t.key = d.came t.key)
    (hbegan : d'.began t.key = d.began t.key) (hlate : d'.late t.key = d.late t.key) :
    Progress ttlMs d' t := by
  obtain ⟨hstable, hstimers, hslog, hsclock⟩ := hs
  obtain ⟨new, hlog, -⟩ := habout.log
  have houtcomes := outcomes_other habout hslog hne
  have htable := habout.table t.key hne
  rw [hstable] at htable
  have htimers := habout.timers
  rw [hstimers] at htimers
  cases h with
  | fresh hzero hnone hnothing =>
    exact .fresh (hcame.trans hzero) (htable.trans hnone) (houtcomes.trans hnothing)
  | running held hpos hlt hheld hcarries htimer hnothing =>
    have htimer' := htimers _ _ htimer hne
    refine .running held (by omega) (by omega) (htable.trans hheld) ?_ ?_
      (houtcomes.trans hnothing)
    · rw [hcame]
      exact hcarries
    · rw [hbegan]
      exact htimer'
  | expired hpos hlt hover =>
    refine .expired (by omega) (by omega) ?_
    rw [hbegan, habout.clock, hsclock]
    exact hover
  | done hall hnone hhanded =>
    exact .done (hcame.trans hall) (htable.trans hnone) (houtcomes.trans hhanded)
  | late h => exact .late (hlate.trans h)
  | refused h =>
    refine .refused ?_
    rw [hlog, hslog]
    exact mem_append_left _ h

/-- What a delivery does to the account kept of a transfer. -/
inductive Counts (ttlMs : Nat) (d d' : Deliveries) (t : Transfer) (k : Nat) : Prop
  | next : k = d.came t.key → d'.came t.key = k + 1 →
      d'.began t.key = (if k = 0 then d.transfers.clock else d.began t.key) →
      d'.late t.key =
        (d.late t.key || decide (k ≠ 0 ∧ d.began t.key + ttlMs ≤ d.transfers.clock)) →
      Counts ttlMs d d' t k
  | again : k < d.came t.key → d'.came t.key = d.came t.key → d'.began t.key = d.began t.key →
      d'.late t.key = d.late t.key → Counts ttlMs d d' t k

theorem deliver_eq_some (h : d.deliver sending text ttlMs t k = some d') :
    sending.sent t = true ∧ k < t.count ∧ (k = 0 → d.came t.key < t.count) ∧
      d'.transfers = (d.transfers.hear (Transfers.heardOf t k)).onChunk ttlMs t.docId t.peer
        (t.chunk k) (t.slice k) ∧
      Counts ttlMs d d' t k ∧
      ∀ key, key ≠ t.key →
        d'.came key = d.came key ∧ d'.began key = d.began key ∧ d'.late key = d.late key := by
  obtain ⟨⟨hsent, hle, hfirst⟩, h⟩ := ite_none_right_eq_some.mp h
  obtain ⟨record, hrecord, rfl⟩ := map_eq_some_iff.mp h
  obtain ⟨hk, hreceive⟩ := @Transfers.receive_slice d.transfers t text ttlMs k record hrecord
  refine ⟨hsent, hk, hfirst, ?_, ?_, ?_⟩
  · rw [← hreceive]
    dsimp only
    split <;> rfl
  · dsimp only
    split
    · next hcame =>
      refine .next hcame (if_pos rfl) ?_ ?_
      · simp only [true_and]
      · simp only [true_and]
    · next hcame => exact .again (by omega) rfl rfl rfl
  · intro key hne
    dsimp only
    split
    · refine ⟨if_neg hne, ?_, ?_⟩
      · simp [hne]
      · simp [hne]
    · exact ⟨rfl, rfl, rfl⟩

theorem outcomes_tell {o : TransferOutcome} (hkey : o.key = t.key) (hlog : s.log = d.transfers.log)
    (hnothing : d.outcomes t = []) : (s.tell o).log.filter (fun o => o.key = t.key) = [o] := by
  show (s.log ++ [o]).filter _ = [o]
  rw [hlog, filter_append, show d.transfers.log.filter (fun o => o.key = t.key) = [] from
    hnothing, nil_append, filter_cons_of_pos (by simpa using hkey), filter_nil]

theorem Progress.slot {held : Reassembly} (hcarries : Transfers.Carries t held k) (hk : k < t.count)
    (hs : d'.transfers = s.slot t.docId t.peer (t.chunk k) (t.slice k) held)
    (hlog : s.log = d.transfers.log) (hnothing : d.outcomes t = [])
    (htimer : s.timers.lookup held.timer =
      some { peer := t.peer, transfer := t.transfer, due := d'.began t.key + ttlMs })
    (hcame : d'.came t.key = k + 1) : Progress ttlMs d' t := by
  obtain ⟨held', hcarries', htimer', hslot⟩ := Transfers.slot_next (s := s) hcarries hk
  rw [hslot] at hs
  split at hs
  · next hmore =>
    refine .running held' (by omega) (by omega) ?_ ?_ ?_ ?_
    · rw [hs]
      show (s.table.insert _ _).lookup _ = _
      rw [Dict.lookup_insert, if_pos rfl]
    · rw [hcame]
      exact hcarries'
    · rw [hs, htimer']
      exact htimer
    · rw [outcomes, hs]
      show s.log.filter _ = []
      rw [hlog]
      exact hnothing
  · refine .done (by omega) ?_ ?_
    · rw [hs]
      exact Transfers.lookup_dropEntry _ _
    · rw [outcomes, hs]
      refine outcomes_tell rfl ?_ hnothing
      exact (Transfers.rest_dropEntry _ _).2.1.trans hlog

theorem Progress.deliver (h : Progress ttlMs d t)
    (hk : k < t.count) (hfirst : k = 0 → d.came t.key < t.count)
    (hd : d'.transfers = (d.transfers.hear (Transfers.heardOf t k)).onChunk ttlMs t.docId t.peer
      (t.chunk k) (t.slice k))
    (habout : Transfers.About (d.transfers.hear (Transfers.heardOf t k)) d'.transfers t.key)
    (hcounts : Counts ttlMs d d' t k) : Progress ttlMs d' t := by
  have hclock := habout.clock
  obtain ⟨new, hlog, -⟩ := habout.log
  cases h with
  | fresh hzero hnone hnothing =>
    cases hcounts with
    | again hlt _ _ _ => omega
    | next hnext hcame hbegan _ =>
      obtain rfl : k = 0 := by omega
      rw [if_pos rfl] at hbegan
      have hnone' : (d.transfers.hear (Transfers.heardOf t 0)).table.lookup t.key = none := hnone
      rcases @Transfers.onChunk_first _ t ttlMs hnone' with hrefused | hbegun
      · refine .refused ?_
        rw [hd, hrefused]
        exact mem_append_right _ (mem_singleton.mpr rfl)
      · rw [hbegun] at hd
        refine Progress.slot (Transfers.carries_fresh t _) hk hd rfl hnothing ?_ hcame
        rw [hbegan]
        show (d.transfers.timers.insert _ _).lookup _ = _
        rw [Dict.lookup_insert]
        exact if_pos rfl
  | running held hpos hlt hheld hcarries htimer hnothing =>
    have hheld' : (d.transfers.hear (Transfers.heardOf t k)).table.lookup t.key = some held := hheld
    rw [Transfers.onChunk_held hk hheld'] at hd
    cases hcounts with
    | again hold hcame hbegan _ =>
      rw [Transfers.slot_again hcarries hold hk] at hd
      refine .running held (by omega) (by omega) ?_ ?_ ?_ ?_
      · rw [hd]
        exact hheld
      · rw [hcame]
        exact hcarries
      · rw [hd, hbegan]
        exact htimer
      · rw [outcomes, hd]
        exact hnothing
    | next hnext hcame hbegan hlate =>
      subst hnext
      rw [if_neg (by omega)] at hbegan
      refine Progress.slot hcarries hk hd rfl hnothing ?_ hcame
      rw [hbegan]
      exact htimer
  | expired hpos hlt hover =>
    cases hcounts with
    | again hold hcame hbegan _ =>
      refine .expired (by omega) (by omega) ?_
      rw [hbegan, hclock]
      exact hover
    | next hnext hcame hbegan hlate =>
      refine .late ?_
      rw [hlate, decide_eq_true (by omega), Bool.or_true]
  | done hall hnone hhanded =>
    cases hcounts with
    | next hnext _ _ _ => omega
    | again hold hcame _ _ =>
      have hk0 : k ≠ 0 := fun hk0 => by
        have := hfirst hk0
        omega
      have hnone' : (d.transfers.hear (Transfers.heardOf t k)).table.lookup t.key = none := hnone
      rw [Transfers.onChunk_unstarted hk hk0 hnone'] at hd
      refine .done (hcame.trans hall) ?_ ?_
      · rw [hd]
        exact hnone
      · rw [outcomes, hd]
        exact hhanded
  | late h =>
    refine .late ?_
    cases hcounts with
    | next _ _ _ hlate => rw [hlate, h, Bool.true_or]
    | again _ _ _ hlate => rw [hlate, h]
  | refused h =>
    refine .refused ?_
    rw [hlog]
    exact mem_append_left _ h

theorem Progress.tick (h : Progress ttlMs d t) (ms : Nat) :
    Progress ttlMs { d with
      transfers := { d.transfers with clock := d.transfers.clock + ms } } t := by
  cases h with
  | fresh hzero hnone hnothing => exact .fresh hzero hnone hnothing
  | running held hpos hlt hheld hcarries htimer hnothing =>
    exact .running held hpos hlt hheld hcarries htimer hnothing
  | expired hpos hlt hover => exact .expired hpos hlt (Nat.le_trans hover (Nat.le_add_right _ _))
  | done hall hnone hhanded => exact .done hall hnone hhanded
  | late h => exact .late h
  | refused h => exact .refused h

theorem Progress.fire {s' : Transfers} {timer : Nat} {armed : TransferTimer}
    (h : Progress ttlMs d t) (hsound : d.transfers.Sound)
    (ht : d.transfers.timers.lookup timer = some armed)
    (hkey : transferKey armed.peer armed.transfer = t.key) (hs : d.transfers.fire timer = some s') :
    Progress ttlMs { d with transfers := s' } t := by
  have habout := hsound.about_fire ht hs
  obtain ⟨new, hlog, -⟩ := habout.log
  obtain ⟨armed', ht', hdue, -⟩ := Transfers.fire_eq_some hs
  rw [ht] at ht'
  cases ht'
  obtain ⟨held', hheld', htimer'⟩ := hsound.armed timer armed ht
  rw [hkey] at hheld'
  cases h with
  | fresh hzero hnone hnothing =>
    rw [hnone] at hheld'
    cases hheld'
  | running held hpos hlt hheld hcarries htimer hnothing =>
    rw [hheld] at hheld'
    cases hheld'
    rw [htimer', ht] at htimer
    cases htimer
    refine .expired hpos hlt ?_
    rw [habout.clock]
    exact hdue
  | expired hpos hlt hover =>
    refine .expired hpos hlt ?_
    rw [habout.clock]
    exact hover
  | done hall hnone hhanded =>
    rw [hnone] at hheld'
    cases hheld'
  | late h => exact .late h
  | refused h =>
    refine .refused ?_
    rw [hlog]
    exact mem_append_left _ h

/-! ## Runs of deliveries -/

/-- What was heard is the slices that came. -/
def Heard (sending : Sending) (d : Deliveries) : Prop :=
  ∀ c ∈ d.transfers.heard, ∃ t k, sending.sent t = true ∧ k < t.count ∧ k < d.came t.key ∧
    c = Transfers.heardOf t k

structure Sound (sending : Sending) (ttlMs : Nat) (d : Deliveries) : Prop where
  transfers : d.transfers.Sound
  heard : d.Heard sending
  came_le : ∀ t, sending.sent t = true → d.came t.key ≤ t.count
  progress : ∀ t, sending.sent t = true → Progress ttlMs d t

theorem sound_start : Sound sending ttlMs {} where
  transfers := Transfers.sound_start
  heard := by
    intro c hc
    cases hc
  came_le := fun t _ => Nat.zero_le _
  progress := fun t _ => .fresh rfl rfl rfl

theorem Counts.came_le (h : Counts ttlMs d d' t k) :
    d.came t.key ≤ d'.came t.key ∧ k < d'.came t.key := by
  cases h with
  | next hk hcame _ _ => omega
  | again hk hcame _ _ => omega

theorem about_deliver (h : d.transfers.Sound)
    (hd : d'.transfers = (d.transfers.hear (Transfers.heardOf t k)).onChunk ttlMs t.docId t.peer
      (t.chunk k) (t.slice k)) :
    Transfers.About (d.transfers.hear (Transfers.heardOf t k)) d'.transfers t.key := by
  have hheard : (Transfers.heardOf t k) ∈ (d.transfers.hear (Transfers.heardOf t k)).heard :=
    mem_append_right _ (mem_singleton.mpr rfl)
  rw [hd]
  exact (h.hear (Transfers.heardOf t k)).about_onChunk ⟨_, hheard, rfl, rfl, rfl⟩

theorem Sound.deliver (h : Sound sending ttlMs d)
    (hd : d.deliver sending text ttlMs t k = some d') : Sound sending ttlMs d' := by
  obtain ⟨hsent, hk, hfirst, htransfers, hcounts, hothers⟩ := deliver_eq_some hd
  have hheard : (Transfers.heardOf t k) ∈ (d.transfers.hear (Transfers.heardOf t k)).heard :=
    mem_append_right _ (mem_singleton.mpr rfl)
  have hsound := h.transfers.hear (Transfers.heardOf t k)
  have habout := about_deliver h.transfers htransfers
  refine ⟨?_, ?_, ?_, ?_⟩
  · rw [htransfers]
    exact hsound.onChunk ⟨_, hheard, rfl, rfl, rfl, rfl⟩
  · intro c hc
    rw [habout.heard] at hc
    rcases mem_snoc.mp hc with hold | hnew
    · obtain ⟨u, i, hu, hi, hcame, rfl⟩ := h.heard c hold
      refine ⟨u, i, hu, hi, ?_, rfl⟩
      by_cases hkey : u.key = t.key
      · rw [hkey] at hcame ⊢
        exact Nat.lt_of_lt_of_le hcame hcounts.came_le.1
      · rw [(hothers u.key hkey).1]
        exact hcame
    · exact ⟨t, k, hsent, hk, hcounts.came_le.2, hnew⟩
  · intro u hu
    by_cases hkey : u.key = t.key
    · obtain rfl := sending.unique u t hu hsent hkey
      have hold := h.came_le u hu
      cases hcounts with
      | next hnext hcame _ _ => omega
      | again _ hcame _ _ => omega
    · rw [(hothers u.key hkey).1]
      exact h.came_le u hu
  · intro u hu
    by_cases hkey : u.key = t.key
    · obtain rfl := sending.unique u t hu hsent hkey
      exact (h.progress u hu).deliver hk hfirst htransfers habout hcounts
    · obtain ⟨hcame, hbegan, hlate⟩ := hothers u.key hkey
      exact (h.progress u hu).other habout ⟨rfl, rfl, rfl, rfl⟩ hkey hcame hbegan hlate

theorem Sound.fire {s' : Transfers} {timer : Nat} (h : Sound sending ttlMs d)
    (hs : d.transfers.fire timer = some s') : Sound sending ttlMs { d with transfers := s' } := by
  obtain ⟨armed, ht, -, -⟩ := Transfers.fire_eq_some hs
  have habout := h.transfers.about_fire ht hs
  refine ⟨h.transfers.fire hs, ?_, h.came_le, ?_⟩
  · intro c hc
    rw [habout.heard] at hc
    exact h.heard c hc
  · intro u hu
    by_cases hkey : transferKey armed.peer armed.transfer = u.key
    · exact (h.progress u hu).fire h.transfers ht hkey hs
    · exact (h.progress u hu).other habout ⟨rfl, rfl, rfl, rfl⟩ (Ne.symm hkey) rfl rfl rfl

theorem Sound.next {event : DeliveriesEvent} (h : Sound sending ttlMs d)
    (hd : d.next sending text ttlMs event = some d') : Sound sending ttlMs d' := by
  cases event with
  | deliver t k => exact h.deliver hd
  | tick ms =>
    cases hd
    have ht := h.transfers
    exact ⟨{ ht with }, h.heard, h.came_le, fun u hu => (h.progress u hu).tick ms⟩
  | fire timer =>
    obtain ⟨s', hs, rfl⟩ := map_eq_some_iff.mp hd
    exact h.fire hs

theorem sound_reachable (h : (deliveryMachine sending text ttlMs).Reachable d) :
    Sound sending ttlMs d :=
  h.invariant sound_start fun _ _ _ hs hnext => hs.next hnext

theorem Sound.handed (h : Sound sending ttlMs d) {docId transfer : String} {peer : Peer}
    {record : Bytes} (ho : .handed docId peer transfer record ∈ d.transfers.log) :
    ∃ t, sending.sent t = true ∧ d.came t.key = t.count ∧ docId = t.docId ∧ peer = t.peer ∧
      transfer = t.transfer ∧ record = t.record := by
  obtain ⟨⟨pieces, hrecord, ⟨c, hc, hdoc, hpeer, htransfer, hcount, hlength⟩, hpieces⟩, -⟩ :=
    h.transfers.told _ ho
  obtain ⟨t, k, ht, hk, -, rfl⟩ := h.heard c hc
  change t.docId = docId at hdoc
  change t.peer = peer at hpeer
  change t.transfer = transfer at htransfer
  change t.count = pieces.length at hcount
  subst hdoc hpeer htransfer
  have hpiece : ∀ i p, pieces[i]? = some p → p = t.slice i ∧ i < d.came t.key := by
    intro i p hp
    obtain ⟨c', hc', hpeer', hchunk', rfl⟩ := hpieces i p hp
    obtain ⟨u, j, hu, -, hcame, rfl⟩ := h.heard c' hc'
    have htransfer' : u.transfer = t.transfer := congrArg DocSyncChunkMeta.transfer hchunk'
    have hindex : j = i := congrArg DocSyncChunkMeta.index hchunk'
    have hkey : u.key = t.key := by
      rw [Transfer.key, Transfer.key, htransfer', show u.peer = t.peer from hpeer']
    obtain rfl := sending.unique u t hu ht hkey
    subst hindex
    exact ⟨rfl, hcame⟩
  have hall : pieces = (List.range t.count).map t.slice := by
    refine ext_getElem (by rw [length_map, length_range, hcount]) ?_
    intro i hi _
    rw [getElem_map, getElem_range]
    exact (hpiece i _ (List.getElem?_eq_getElem hi)).1
  have hcame : t.count ≤ d.came t.key := by
    have hpos := t.count_pos
    have hlast := (hpiece (t.count - 1) _ (List.getElem?_eq_getElem (by omega))).2
    omega
  refine ⟨t, ht, Nat.le_antisymm (h.came_le t ht) hcame, rfl, rfl, rfl, ?_⟩
  rw [hrecord, hall, ← flatMap_def, t.flatMap_slice]

/-! ## Once -/

def TransferOutcome.isHanded : TransferOutcome → Bool
  | .handed .. => true
  | .refused .. => false

def handings (d : Deliveries) (t : Transfer) : Nat := (d.outcomes t).countP TransferOutcome.isHanded

/-- Not handed over yet, or once and nothing is held of it. -/
def Once (d : Deliveries) (t : Transfer) : Prop :=
  d.handings t = 0 ∨
    d.handings t = 1 ∧ d.came t.key = t.count ∧ d.transfers.table.lookup t.key = none

theorem Sound.once_about (h' : Sound sending ttlMs d') (ht : sending.sent t = true)
    (habout : Transfers.About s d'.transfers t.key) (hlog : s.log = d.transfers.log)
    (hzero : d.handings t = 0) : d'.Once t := by
  obtain ⟨new, houtcomes, hall⟩ := outcomes_about t habout hlog
  have hcount : d'.handings t =
      (new.toList.filter fun o => o.key = t.key).countP TransferOutcome.isHanded := by
    rw [handings, houtcomes, countP_append]
    rw [handings] at hzero
    omega
  cases new with
  | none => exact .inl hcount
  | some o =>
    obtain ⟨hmem, hkey, hnone⟩ := hall o rfl
    have hone : d'.handings t = [o].countP TransferOutcome.isHanded := by
      rw [hcount]
      simp [hkey]
    cases o with
    | refused peer transfer why => exact .inl hone
    | handed docId peer transfer record =>
      obtain ⟨u, hu, hcame, rfl, rfl, rfl, rfl⟩ := h'.handed hmem
      obtain rfl := sending.unique u t hu ht hkey
      exact .inr ⟨hone, hcame, hnone⟩

theorem Once.other (h : d.Once t) (habout : Transfers.About s d'.transfers key)
    (htable : s.table = d.transfers.table) (hlog : s.log = d.transfers.log) (hne : t.key ≠ key)
    (hcame : d'.came t.key = d.came t.key) : d'.Once t := by
  have hsame := habout.table t.key hne
  rw [Once, handings, outcomes_other habout hlog hne, hcame, hsame, htable]
  exact h

theorem Once.next {event : DeliveriesEvent} (h : d.Once t) (ht : sending.sent t = true)
    (hsound : Sound sending ttlMs d) (hd : d.next sending text ttlMs event = some d') :
    d'.Once t := by
  have hsound' := hsound.next hd
  cases event with
  | tick ms =>
    cases hd
    exact h
  | deliver u k =>
    obtain ⟨hu, hk, hfirst, htransfers, hcounts, hothers⟩ := deliver_eq_some hd
    have habout := about_deliver hsound.transfers htransfers
    by_cases hkey : t.key = u.key
    · obtain rfl := sending.unique t u ht hu hkey
      rcases h with hzero | ⟨hone, hcame, hnone⟩
      · exact hsound'.once_about ht habout rfl hzero
      · have hk0 : k ≠ 0 := by
          intro hk0
          have hlt := hfirst hk0
          omega
        have hnone' : (d.transfers.hear (Transfers.heardOf t k)).table.lookup t.key = none := hnone
        rw [Transfers.onChunk_unstarted hk hk0 hnone'] at htransfers
        cases hcounts with
        | next hnext _ _ _ => omega
        | again _ hcame' _ _ =>
          right
          rw [handings, outcomes, htransfers, hcame']
          exact ⟨hone, hcame, hnone⟩
    · exact h.other habout rfl rfl hkey (hothers t.key hkey).1
  | fire timer =>
    obtain ⟨s', hs, rfl⟩ := map_eq_some_iff.mp hd
    obtain ⟨armed, harmed, -, -⟩ := Transfers.fire_eq_some hs
    have habout := hsound.transfers.about_fire harmed hs
    by_cases hkey : t.key = transferKey armed.peer armed.transfer
    · rw [← hkey] at habout
      rcases h with hzero | ⟨-, -, hnone⟩
      · exact hsound'.once_about ht habout rfl hzero
      · obtain ⟨held, hheld, -⟩ := hsound.transfers.armed timer armed harmed
        rw [← hkey, hnone] at hheld
        cases hheld
    · exact h.other habout rfl rfl hkey rfl

theorem once_reachable (h : (deliveryMachine sending text ttlMs).Reachable d) :
    ∀ t, sending.sent t = true → d.Once t := by
  refine Machine.Reaches.invariant_of (P := fun d => ∀ t, sending.sent t = true → d.Once t)
    ?_ ?_ h
  · exact fun _ _ => .inl rfl
  · intro d event d' hreach hall _ hd t ht
    exact (hall t ht).next ht (sound_reachable hreach) hd

theorem Sound.whole (h : Sound sending ttlMs d) (ht : sending.sent t = true)
    (hall : d.came t.key = t.count) (htime : d.late t.key = false)
    (hroom : .refused t.peer t.transfer .overBudget ∉ d.transfers.log) :
    d.outcomes t = [.handed t.docId t.peer t.transfer t.record] := by
  have hpos := t.count_pos
  cases h.progress t ht with
  | fresh hzero _ _ => omega
  | running _ _ hlt _ _ _ _ => omega
  | expired _ hlt _ => omega
  | done _ _ hhanded => exact hhanded
  | late hlate =>
    rw [htime] at hlate
    cases hlate
  | refused hrefused => exact absurd hrefused hroom

end Progress

end Deliveries

/-! ## Chunked transfers -/

/-- What is sent in chunks and finds room in time is handed over once, as it was; a transfer is
handed over at most once, and nothing else is. -/
def Deliveries.Exact (sending : Sending) (d : Deliveries) : Prop :=
  (∀ t, sending.sent t = true →
    d.handings t ≤ 1 ∧
      (d.came t.key = t.count → d.late t.key = false →
        .refused t.peer t.transfer .overBudget ∉ d.transfers.log →
          d.outcomes t = [.handed t.docId t.peer t.transfer t.record])) ∧
    ∀ docId peer transfer record, .handed docId peer transfer record ∈ d.transfers.log →
      ∃ t, sending.sent t = true ∧ d.came t.key = t.count ∧ docId = t.docId ∧ peer = t.peer ∧
        transfer = t.transfer ∧ record = t.record

/-- Whatever records come: what is handed over was put together from slices its peer sent under
one id, the declared bytes and the transfers of a document are bounded for each peer, and only
what is held has a timer. -/
structure Transfers.Bounded (s : Transfers) : Prop where
  told : ∀ docId peer transfer record, .handed docId peer transfer record ∈ s.log →
    Reassembled s.heard docId peer transfer record
  budget : ∀ peer, s.peerBytes peer ≤ reassemblyBytesPerPeer
  perDoc : ∀ peer docId, s.sameDoc peer docId ≤ maxTransfersPerPeerDoc
  timers : ∀ id t, s.timers.lookup id = some t →
    ∃ held, s.table.lookup (transferKey t.peer t.transfer) = some held ∧ held.timer = id

/-- What a step says became of a transfer leaves no entry of it and no timer. -/
def Transfers.LeavesNothing (s s' : Transfers) : Prop :=
  ∃ new, s'.log = s.log ++ new ∧ ∀ o ∈ new, s'.table.lookup o.key = none ∧
    ∀ id t, s'.timers.lookup id = some t → transferKey t.peer t.transfer ≠ o.key

theorem Transfers.Sound.bounded {s : Transfers} (h : s.Sound) : s.Bounded where
  __ := h
  told := fun _ _ _ _ ho => (h.told _ ho).1
  timers := h.armed

theorem chunked_transfers_exact (text : ChunkText) (ttlMs : Nat) :
    (∀ sending d, (deliveryMachine sending text ttlMs).Reachable d → d.Exact sending) ∧
      ∀ s, (transfersMachine text ttlMs).Reachable s →
        s.Bounded ∧ ∀ event s', s.next text ttlMs event = some s' → s.LeavesNothing s' := by
  constructor
  · intro sending d hd
    have hsound := Deliveries.sound_reachable hd
    refine ⟨?_, fun _ _ _ _ ho => hsound.handed ho⟩
    intro t ht
    refine ⟨?_, hsound.whole ht⟩
    rcases Deliveries.once_reachable hd t ht with hzero | ⟨hone, -, -⟩ <;> omega
  · intro s hs
    have hsound := Transfers.sound_reachable hs
    exact ⟨hsound.bounded, fun _ _ hnext => hsound.settles hnext⟩

/-! ## Runs -/

def desk : Peer := { id := ['d', 'e', 's', 'k'], noNul := by decide }

def twoSlices : Transfer where
  peer := desk
  docId := "board"
  transfer := "a-1"
  record := List.replicate 1030 1
  chunkBytes := 1024
  transfer_pos := by decide
  transfer_le := by decide
  chunkBytes_ge := by decide
  record_pos := by rw [List.length_replicate]; decide
  record_le := by rw [List.length_replicate]; decide
  record_kind := by decide

def oneSlice : Transfer where
  peer := desk
  docId := "board"
  transfer := "a-2"
  record := [1, 7]
  chunkBytes := 1024
  transfer_pos := by decide
  transfer_le := by decide
  chunkBytes_ge := by decide
  record_pos := by decide
  record_le := by decide
  record_kind := by decide

def logAfter (records : List (String × Bytes)) : Option (List TransferOutcome) :=
  ((transfersMachine jsonText 60000).run (fun _ _ => true) {}
    (records.map fun r => .record r.1 desk r.2)).map Transfers.log

/-- The only slice of a transfer comes again, and its record is handed over again; and slices
under one id, the first on one document's lane and the second on another's, are handed over. -/
theorem slice_repeated :
    logAfter ((oneSlice.records jsonText ++ oneSlice.records jsonText).map fun r => ("board", r)) =
        some [.handed "board" desk "a-2" [1, 7], .handed "board" desk "a-2" [1, 7]] ∧
      logAfter (["board", "list"].zip (twoSlices.records jsonText)) =
        some [.handed "list" desk "a-1" twoSlices.record] := by
  decide +kernel

def sendingBoth : Sending where
  sent t := t = twoSlices ∨ t = oneSlice
  unique := by
    have hne : twoSlices.key ≠ oneSlice.key := by decide
    intro t u ht hu hkey
    simp only [decide_eq_true_eq] at ht hu
    rcases ht with rfl | rfl <;> rcases hu with rfl | rfl
    · rfl
    · exact absurd hkey hne
    · exact absurd hkey.symm hne
    · rfl

def interleaved : List DeliveriesEvent :=
  [.deliver twoSlices 0, .deliver oneSlice 0, .tick 5, .deliver twoSlices 0, .deliver twoSlices 1]

theorem chunked_transfers_interleaved :
    ∃ d, (deliveryMachine sendingBoth jsonText 60000).Reachable d ∧
      d.outcomes twoSlices = [.handed "board" desk "a-1" twoSlices.record] ∧
        (∃ s, (transfersMachine jsonText 60000).Reachable s ∧ s.Bounded) := by
  obtain ⟨d, hd, hend⟩ := Machine.exists_of_run (M := deliveryMachine sendingBoth jsonText 60000)
    (fun d => d.came twoSlices.key == 2 && d.late twoSlices.key == false &&
      !d.transfers.log.contains (.refused desk "a-1" .overBudget)) interleaved
    (by decide +kernel)
  simp only [Bool.and_eq_true, beq_iff_eq, Bool.not_eq_true', List.contains_eq_mem,
    decide_eq_false_iff_not] at hend
  obtain ⟨⟨hcame, htime⟩, hroom⟩ := hend
  obtain ⟨hsent, hhostile⟩ := chunked_transfers_exact jsonText 60000
  have hcount : d.came twoSlices.key = twoSlices.count := by
    rw [hcame]
    decide +kernel
  have hin : sendingBoth.sent twoSlices = true := by simp [sendingBoth]
  have hwhole := ((hsent sendingBoth d hd).1 twoSlices hin).2 hcount htime hroom
  exact ⟨d, hd, hwhole, {}, .start, (hhostile {} .start).1⟩

end VibeField.Fieldd
