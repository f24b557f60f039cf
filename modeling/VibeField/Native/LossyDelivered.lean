import Mathlib.Data.List.Chain
import VibeField.Native.LossyRuns
import VibeField.Native.LossyDatagrams

/-!
# Lossy lanes deliver what was sent

The message held is the newest that has begun, and it has every datagram of it that came; where
none is held, the newest that has begun was delivered.  Sequences less than `2 ^ 31` apart compare
as their messages do.
-/

namespace VibeField.Native.LossyLane

open List Option
open Contracts.MeshData (Bytes)

variable {c : Sender} {s s' : State} {e : Event} {n m i : Nat} {p : Pending}

/-! ## Sequences -/

theorem toNat_sub_sequence (c : Sender) (m n : Nat) :
    (c.sequence m - c.sequence n).toNat = (2 ^ 32 - n % 2 ^ 32 + m % 2 ^ 32) % 2 ^ 32 := by
  have hsub : c.sequence m - c.sequence n = UInt32.ofNat m - UInt32.ofNat n := by
    rw [Sender.sequence, Sender.sequence]
    grind
  rw [hsub, UInt32.toNat_sub, UInt32.toNat_ofNat', UInt32.toNat_ofNat']

theorem newer_iff (h : Apart m n) :
    sequenceIsNewer (c.sequence m) (c.sequence n) = true ↔ n < m := by
  obtain ⟨hmn, hnm⟩ := h
  have hdist := toNat_sub_sequence c m n
  have hne : (c.sequence m - c.sequence n != 0) = true ↔ (c.sequence m - c.sequence n).toNat ≠ 0 := by
    rw [bne_iff_ne, ne_eq, ne_eq, ← UInt32.toNat_inj]
    rfl
  rw [sequenceIsNewer, Bool.and_eq_true, hne, decide_eq_true_eq, hdist]
  omega

theorem sequence_inj (h : Apart m n) : c.sequence m = c.sequence n ↔ m = n := by
  constructor
  · intro heq
    have hdist := toNat_sub_sequence c m n
    rw [heq, UInt32.sub_self] at hdist
    obtain ⟨hmn, hnm⟩ := h
    have hzero : (0 : UInt32).toNat = 0 := rfl
    rw [hzero] at hdist
    omega
  · rintro rfl
    rfl

/-! ## What is held -/

/-- The message of a pending one, and what of it has come. -/
structure Parts (c : Sender) (n : Nat) (p : Pending) : Prop where
  sequence : p.sequence = c.sequence n
  totalLen : p.totalLen = (c.message n).length
  length : p.chunks.length = c.count n
  chunk : ∀ i part, p.chunks[i]? = some (some part) →
    part = slice (c.message n) DATAGRAM_BODY_BYTES i
  received : p.received = partsCount p.chunks

/-- The pending message is the newest, and every datagram of it that was seen is in its place. -/
structure Newest (c : Sender) (s : State) (n : Nat) (p : Pending) : Prop where
  le : n ≤ c.last
  newest : ∀ e ∈ s.seen, e.index c ≤ n
  begun : ∃ e ∈ s.seen, e.index c = n
  arrived : ∀ i, .arrives n i ∈ s.seen → ∃ part, p.chunks[i]? = some (some part)
  later : ∀ d ∈ s.delivered, d.index < n

structure Inv (c : Sender) (s : State) : Prop where
  sent : ∀ d ∈ s.delivered, d.index ≤ c.last ∧ d.sequence = c.sequence d.index ∧
    d.payload = c.message d.index
  newer : s.delivered.Pairwise fun a b => a.index < b.index
  sequences : s.delivered.IsChain fun a b => sequenceIsNewer b.sequence a.sequence = true
  completed : s.lane.completed = s.delivered.getLast?.map Delivery.sequence
  seen : ∀ d ∈ s.delivered, ∃ e ∈ s.seen, e.index c = d.index
  pending : ∀ p, s.lane.pending = some p →
    p.received < p.chunks.length ∧ ∃ n, Parts c n p ∧ Newest c s n p
  idle : s.lane.pending = none → ∀ e ∈ s.seen, ∃ d ∈ s.delivered, e.index c ≤ d.index
  replayed : .replay ∈ s.seen → ∃ d ∈ s.delivered, d.index = c.last

theorem inv_start : Inv c .start where
  sent := by simp [State.start]
  newer := by simp [State.start]
  sequences := by simp [State.start]
  completed := rfl
  seen := by simp [State.start]
  pending := by simp [State.start, Reassembler.default]
  idle := by simp [State.start]
  replayed := by simp [State.start]

theorem Inv.le_last (h : Inv c s) {d : Delivery} (hlast : s.delivered.getLast? = some d) :
    ∀ d' ∈ s.delivered, d'.index ≤ d.index := by
  obtain ⟨front, hfront⟩ := List.getLast?_eq_some_iff.mp hlast
  intro d' hd'
  have hnewer := h.newer
  rw [hfront] at hd' hnewer
  rcases mem_snoc.mp hd' with hold | hnew
  · exact Nat.le_of_lt ((pairwise_append.mp hnewer).2.2 d' hold d (mem_singleton_self d))
  · exact Nat.le_of_eq (congrArg Delivery.index hnew)

theorem Inv.late_iff (h : Inv c s) (hnear : ∀ d, s.delivered.getLast? = some d → Apart d.index n) :
    s.lane.late (c.sequence n) = true ↔ ∃ d ∈ s.delivered, n ≤ d.index := by
  rw [Reassembler.late, h.completed]
  cases hlast : s.delivered.getLast? with
  | none =>
    rw [List.getLast?_eq_none_iff] at hlast
    simp [hlast]
  | some d =>
    have hd : d ∈ s.delivered := List.mem_of_getLast? hlast
    have hnear := hnear d hlast
    rw [map_some, (h.sent d hd).2.1]
    show (c.sequence n == c.sequence d.index ||
      !sequenceIsNewer (c.sequence n) (c.sequence d.index)) = true ↔ _
    rw [Bool.or_eq_true, beq_iff_eq, sequence_inj ⟨hnear.2, hnear.1⟩, Bool.not_eq_true',
      ← Bool.not_eq_true, newer_iff ⟨hnear.2, hnear.1⟩]
    constructor
    · exact fun hor => ⟨d, hd, by omega⟩
    · rintro ⟨d', hd', hle⟩
      have hmax := h.le_last hlast d' hd'
      omega

theorem Parts.full (hp : Parts c n p) (hfull : p.received = p.chunks.length) :
    assemble p.chunks = some (c.message n) := by
  have hall : ∀ q ∈ p.chunks, q.isSome = true := by
    rw [hp.received] at hfull
    exact countP_eq_length.mp hfull
  have heq : p.chunks =
      ((List.range (c.count n)).map (slice (c.message n) DATAGRAM_BODY_BYTES)).map some := by
    refine ext_getElem? fun i => ?_
    rw [List.getElem?_map, List.getElem?_map]
    cases hq : p.chunks[i]? with
    | none =>
      have hlen := List.getElem?_eq_none_iff.mp hq
      rw [List.getElem?_eq_none (by rwa [length_range, ← hp.length])]
      rfl
    | some q =>
      have hlen := (List.getElem?_eq_some_iff.mp hq).1
      obtain ⟨part, rfl⟩ := isSome_iff_exists.mp (hall q (mem_of_getElem? hq))
      rw [List.getElem?_range (by rwa [← hp.length]), hp.chunk i part hq]
      rfl
  rw [heq, assemble_map_some, ← flatMap_def]
  exact congrArg some (flatMap_slice _)

/-! ## Steps -/

theorem Inv.ignore (h : Inv c s) (hlane : s'.lane = s.lane) (hdelivered : s'.delivered = s.delivered)
    (hseen : s'.seen = s.seen ++ [e])
    (hidle : s.lane.pending = none → ∃ d ∈ s.delivered, e.index c ≤ d.index)
    (hpending : ∀ n p, s.lane.pending = some p → Newest c s n p → e.index c < n ∨
      e.index c = n ∧ ∀ i, e = .arrives n i → ∃ part, p.chunks[i]? = some (some part))
    (hreplayed : e = .replay → ∃ d ∈ s.delivered, d.index = c.last) : Inv c s' where
  sent := by rw [hdelivered]; exact h.sent
  newer := by rw [hdelivered]; exact h.newer
  sequences := by rw [hdelivered]; exact h.sequences
  completed := by rw [hdelivered, hlane]; exact h.completed
  seen d hd := by
    rw [hdelivered] at hd
    obtain ⟨e', he', hidx⟩ := h.seen d hd
    rw [hseen]
    exact ⟨e', mem_append_left _ he', hidx⟩
  pending p hp := by
    rw [hlane] at hp
    obtain ⟨hshort, n, hparts, hnew⟩ := h.pending p hp
    have hidx := hpending n p hp hnew
    refine ⟨hshort, n, hparts, hnew.le, ?_, ?_, ?_, ?_⟩
    · rw [hseen]
      refine forall_mem_append.mpr ⟨hnew.newest, ?_⟩
      rw [forall_mem_singleton]
      rcases hidx with hlt | ⟨heq, -⟩ <;> omega
    · obtain ⟨e', he', heq⟩ := hnew.begun
      rw [hseen]
      exact ⟨e', mem_append_left _ he', heq⟩
    · intro i hi
      rw [hseen] at hi
      rcases mem_snoc.mp hi with hold | rfl
      · exact hnew.arrived i hold
      · rcases hidx with hlt | ⟨-, harrived⟩
        · exact absurd hlt (Nat.lt_irrefl n)
        · exact harrived i rfl
    · rw [hdelivered]
      exact hnew.later
  idle hnone := by
    rw [hlane] at hnone
    rw [hseen, hdelivered]
    refine forall_mem_append.mpr ⟨h.idle hnone, ?_⟩
    rw [forall_mem_singleton]
    exact hidle hnone
  replayed hin := by
    rw [hseen] at hin
    rw [hdelivered]
    rcases mem_snoc.mp hin with hold | hnow
    · exact h.replayed hold
    · exact hreplayed hnow.symm

/-- What a step needs to know of the message that it is about. -/
structure Fresh (c : Sender) (s : State) (n : Nat) : Prop where
  le : n ≤ c.last
  delivered : ∀ d ∈ s.delivered, d.index < n
  seen : ∀ e ∈ s.seen, e.index c ≤ n

theorem Inv.hold (h : Inv c s) (hn : Fresh c s n) (hlane : s'.lane.completed = s.lane.completed)
    (hdelivered : s'.delivered = s.delivered) (hseen : s'.seen = s.seen ++ [.arrives n i])
    (hp : s'.lane.pending = some p) (hshort : p.received < p.chunks.length) (hparts : Parts c n p)
    (harrived : ∀ i, .arrives n i ∈ s'.seen → ∃ part, p.chunks[i]? = some (some part)) :
    Inv c s' where
  sent := by rw [hdelivered]; exact h.sent
  newer := by rw [hdelivered]; exact h.newer
  sequences := by rw [hdelivered]; exact h.sequences
  completed := by rw [hdelivered, hlane]; exact h.completed
  seen d hd := by
    rw [hdelivered] at hd
    obtain ⟨e', he', hidx⟩ := h.seen d hd
    rw [hseen]
    exact ⟨e', mem_append_left _ he', hidx⟩
  pending q hq := by
    rw [hp] at hq
    cases hq
    refine ⟨hshort, n, hparts, hn.le, ?_, ?_, harrived, ?_⟩
    · rw [hseen]
      refine forall_mem_append.mpr ⟨hn.seen, ?_⟩
      rw [forall_mem_singleton]
      exact Nat.le_refl n
    · rw [hseen]
      exact ⟨.arrives n i, mem_append_right _ (mem_singleton_self _), rfl⟩
    · rw [hdelivered]
      exact hn.delivered
  idle hnone := by
    rw [hp] at hnone
    cases hnone
  replayed hin := by
    rw [hseen] at hin
    rw [hdelivered]
    rcases mem_snoc.mp hin with hold | hnow
    · exact h.replayed hold
    · cases hnow

theorem Inv.deliver (h : Inv c s) (hn : Fresh c s n) (he : e.index c = n)
    (hnear : ∀ d, s.delivered.getLast? = some d → Apart d.index n)
    (hcompleted : s'.lane.completed = some (c.sequence n)) (hnone : s'.lane.pending = none)
    (hdelivered : s'.delivered = s.delivered ++ [⟨n, c.sequence n, c.message n⟩])
    (hseen : s'.seen = s.seen ++ [e]) : Inv c s' where
  sent := by
    rw [hdelivered]
    refine forall_mem_append.mpr ⟨h.sent, ?_⟩
    rw [forall_mem_singleton]
    exact ⟨hn.le, rfl, rfl⟩
  newer := by
    rw [hdelivered]
    refine pairwise_append.mpr ⟨h.newer, pairwise_singleton _ _, fun d hd d' hd' => ?_⟩
    rw [mem_singleton.mp hd']
    exact hn.delivered d hd
  sequences := by
    rw [hdelivered]
    refine isChain_append.mpr ⟨h.sequences, isChain_singleton _, fun d hd d' hd' => ?_⟩
    have hd : s.delivered.getLast? = some d := hd
    cases hd'
    have hin := List.mem_of_getLast? hd
    have happart := hnear d hd
    rw [(h.sent d hin).2.1]
    exact (newer_iff ⟨happart.2, happart.1⟩).mpr (hn.delivered d hin)
  completed := by
    rw [hcompleted, hdelivered, List.getLast?_append]
    rfl
  seen := by
    rw [hdelivered, hseen]
    refine forall_mem_append.mpr ⟨fun d hd => ?_, ?_⟩
    · obtain ⟨e', he', hidx⟩ := h.seen d hd
      exact ⟨e', mem_append_left _ he', hidx⟩
    · rw [forall_mem_singleton]
      exact ⟨e, mem_append_right _ (mem_singleton_self e), he⟩
  pending p hp := by
    rw [hnone] at hp
    cases hp
  idle _ := by
    rw [hseen, hdelivered]
    have hin : (⟨n, c.sequence n, c.message n⟩ : Delivery) ∈
        s.delivered ++ [⟨n, c.sequence n, c.message n⟩] :=
      mem_append_right _ (mem_singleton_self _)
    refine forall_mem_append.mpr ⟨fun e' he' => ⟨_, hin, hn.seen e' he'⟩, ?_⟩
    rw [forall_mem_singleton]
    exact ⟨_, hin, Nat.le_of_eq he⟩
  replayed hin := by
    rw [hseen] at hin
    rw [hdelivered]
    rcases mem_snoc.mp hin with hold | rfl
    · obtain ⟨d, hd, hidx⟩ := h.replayed hold
      exact ⟨d, mem_append_left _ hd, hidx⟩
    · exact ⟨_, mem_append_right _ (mem_singleton_self _), he.symm⟩

/-! ## Datagrams -/

theorem receive_packet (lane : Reassembler) (hi : i < c.count n) :
    receive lane (packet c.originLaneId (c.sequence n) (c.message n) (c.count n) i) =
      lane.ingest (datagramOf c.originLaneId (c.sequence n) (c.message n) i) := by
  obtain ⟨hwell, hread⟩ := wellFormed_packet c.originLaneId (c.sequence n) (c.bound n) hi
  change WellFormed (packet c.originLaneId (c.sequence n) (c.message n) (c.count n) i) at hwell
  rcases decodeDatagram_eq (packet c.originLaneId (c.sequence n) (c.message n) (c.count n) i) with
    ⟨-, heq⟩ | ⟨hno, -⟩
  · rw [receive, heq]
    exact congrArg lane.ingest hread
  · exact absurd hwell hno

theorem step_arrives (s : State) (hi : i < c.count n) : s.step c (.arrives n i) =
    (s.lane.ingest (datagramOf c.originLaneId (c.sequence n) (c.message n) i)).map fun r =>
      s.after c (.arrives n i) r.1 r.2 := by
  have hpacket : ((List.range (c.count n)).map
      (packet c.originLaneId (c.sequence n) (c.message n) (c.count n)))[i]? =
        some (packet c.originLaneId (c.sequence n) (c.message n) (c.count n) i) := by
    rw [List.getElem?_map, List.getElem?_range hi]
    rfl
  simp only [State.step, encodeDatagrams_ok _ _ (c.bound n)]
  change ((((List.range (c.count n)).map
    (packet c.originLaneId (c.sequence n) (c.message n) (c.count n)))[i]?).bind _).map _ = _
  rw [hpacket, bind_some, receive_packet s.lane hi]

theorem parts_fresh (c : Sender) (n i : Nat) : Parts c n
    (Reassembler.fresh (datagramOf c.originLaneId (c.sequence n) (c.message n) i)) where
  sequence := rfl
  totalLen := rfl
  length := length_replicate ..
  chunk j part hj := by
    have hnone : some part ∈ List.replicate (c.count n) (none : Option Bytes) :=
      mem_of_getElem? hj
    cases (mem_replicate.mp hnone).2
  received := (partsCount_replicate _).symm

theorem Parts.fill (hp : Parts c n p) (hi : i < c.count n) : ∃ q : Pending,
    Reassembler.fill p (datagramOf c.originLaneId (c.sequence n) (c.message n) i) = some q ∧
      Parts c n q ∧ (∃ part, q.chunks[i]? = some (some part)) ∧
      ∀ (j : Nat) part, p.chunks[j]? = some (some part) →
        ∃ part', q.chunks[j]? = some (some part') := by
  have hlen : i < p.chunks.length := by rwa [hp.length]
  cases hslot : p.chunks[i]? with
  | none =>
    rw [List.getElem?_eq_none_iff] at hslot
    omega
  | some slot =>
    cases slot with
    | some part =>
      refine ⟨p, ?_, hp, ⟨part, hslot⟩, fun j part hj => ⟨part, hj⟩⟩
      simp only [Reassembler.fill, datagramOf, hslot]
    | none =>
      have hset : ∀ j, (p.chunks.set i (some (slice (c.message n) DATAGRAM_BODY_BYTES i)))[j]? =
          if i = j then some (some (slice (c.message n) DATAGRAM_BODY_BYTES i))
          else p.chunks[j]? := fun j => by
        rw [List.getElem?_set, if_pos hlen]
      refine ⟨{ p with
          chunks := p.chunks.set i (some (slice (c.message n) DATAGRAM_BODY_BYTES i))
          received := p.received + 1 }, ?_,
        ⟨hp.sequence, hp.totalLen, ?_, fun j part hj => ?_, ?_⟩,
        ⟨slice (c.message n) DATAGRAM_BODY_BYTES i, ?_⟩, fun j part hj => ?_⟩
      · simp only [Reassembler.fill, datagramOf, hslot]
      · exact (length_set ..).trans hp.length
      · change (p.chunks.set i (some (slice (c.message n) DATAGRAM_BODY_BYTES i)))[j]? = _ at hj
        rw [hset] at hj
        split at hj
        · next heq =>
          subst heq
          cases hj
          rfl
        · exact hp.chunk j part hj
      · show p.received + 1 = _
        rw [hp.received]
        exact (partsCount_set hslot _).symm
      · exact (hset i).trans (if_pos rfl)
      · show ∃ part', (p.chunks.set i (some (slice (c.message n) DATAGRAM_BODY_BYTES i)))[j]? = _
        rw [hset]
        split
        · exact ⟨_, rfl⟩
        · exact ⟨part, hj⟩

theorem Inv.fill (h : Inv c s) (hn : Fresh c s n) (hi : i < c.count n)
    (hnear : ∀ d, s.delivered.getLast? = some d → Apart d.index n) (hp : Parts c n p)
    (harrived : ∀ j, .arrives n j ∈ s.seen → ∃ part, p.chunks[j]? = some (some part)) :
    ∃ r, (Reassembler.fill p (datagramOf c.originLaneId (c.sequence n) (c.message n) i)).map
      s.lane.finish = some r ∧ Inv c (s.after c (.arrives n i) r.1 r.2) := by
  obtain ⟨q, hfill, hq, hslot, hkept⟩ := hp.fill hi
  refine ⟨s.lane.finish q, by rw [hfill]; rfl, ?_⟩
  have hall : ∀ j, .arrives n j ∈ s.seen ++ [.arrives n i] →
      ∃ part, q.chunks[j]? = some (some part) := fun j hj => by
    rcases mem_snoc.mp hj with hold | hnow
    · obtain ⟨part, hpart⟩ := harrived j hold
      exact hkept j part hpart
    · cases hnow
      exact hslot
  by_cases hfull : q.received = q.chunks.length
  · have hfinish : s.lane.finish q =
        ({ completed := some (c.sequence n), pending := none },
          some (c.sequence n, c.message n)) := by
      rw [Reassembler.finish, if_neg (by simpa using hfull), hq.full hfull]
      simp only [hq.totalLen, hq.sequence, ne_eq, not_true_eq_false, if_false]
    rw [hfinish]
    exact h.deliver hn rfl hnear rfl rfl rfl rfl
  · have hfinish : s.lane.finish q = ({ s.lane with pending := some q }, none) := by
      rw [Reassembler.finish, if_pos hfull]
    have hle := partsCount_le q.chunks
    rw [hfinish]
    refine h.hold hn rfl (append_nil _) rfl rfl ?_ hq hall
    rw [hq.received] at hfull ⊢
    omega

theorem Inv.seen_lt (h : Inv c s) (hnone : s.lane.pending = none)
    (hd : ∀ d ∈ s.delivered, d.index < n) : ∀ e ∈ s.seen, e.index c < n := fun e he => by
  obtain ⟨d, hin, hle⟩ := h.idle hnone e he
  exact Nat.lt_of_le_of_lt hle (hd d hin)

theorem target_same (hp : s.lane.pending = some p) (hparts : Parts c n p) (i : Nat) :
    s.lane.target (datagramOf c.originLaneId (c.sequence n) (c.message n) i) = some p := by
  rw [Reassembler.target, hp]
  show (if p.sequence = c.sequence n then
    if p.totalLen ≠ (c.message n).length ∨ p.chunks.length ≠ c.count n then none else some p
    else _) = _
  rw [if_pos hparts.sequence, if_neg (by simp [hparts.totalLen, hparts.length])]

theorem target_other (hp : s.lane.pending = some p) (hparts : Parts c m p) (happart : Apart m n)
    (hne : m ≠ n) (i : Nat) :
    s.lane.target (datagramOf c.originLaneId (c.sequence n) (c.message n) i) =
      if m < n then
        some (Reassembler.fresh (datagramOf c.originLaneId (c.sequence n) (c.message n) i))
      else none := by
  have hsequence : ¬p.sequence = c.sequence n := fun heq =>
    hne ((sequence_inj happart).mp (hparts.sequence.symm.trans heq))
  have hnewer : sequenceIsNewer (c.sequence n) p.sequence = true ↔ m < n := by
    rw [hparts.sequence]
    exact newer_iff ⟨happart.2, happart.1⟩
  rw [Reassembler.target, hp]
  show (if p.sequence = c.sequence n then _
    else if sequenceIsNewer (c.sequence n) p.sequence = true then _ else _) = _
  simp only [if_neg hsequence, hnewer]

theorem Inv.arrives (h : Inv c s) (he : Arrives c s (.arrives n i)) :
    ∃ r : Reassembler × Option (UInt32 × Bytes),
      s.step c (.arrives n i) = some (s.after c (.arrives n i) r.1 r.2) ∧
        Inv c (s.after c (.arrives n i) r.1 r.2) := by
  obtain ⟨hle, hi⟩ := he.sent n i rfl
  have hlate := h.late_iff he.delivered
  have hreplay : Event.arrives n i ≠ .replay := fun hc => by cases hc
  -- where nothing of the message was seen, its first datagram begins it
  have hbegin : (∀ d ∈ s.delivered, d.index < n) → (∀ e ∈ s.seen, e.index c < n) →
      ∃ r : Reassembler × Option (UInt32 × Bytes), (Reassembler.fill
        (Reassembler.fresh (datagramOf c.originLaneId (c.sequence n) (c.message n) i))
        (datagramOf c.originLaneId (c.sequence n) (c.message n) i)).map s.lane.finish = some r ∧
          Inv c (s.after c (.arrives n i) r.1 r.2) := fun hd hseen =>
    h.fill ⟨hle, hd, fun e he => Nat.le_of_lt (hseen e he)⟩ hi he.delivered (parts_fresh c n i)
      fun j hj => absurd (hseen _ hj) (Nat.lt_irrefl n)
  rw [step_arrives s hi, Reassembler.ingest]
  change ∃ r : Reassembler × Option (UInt32 × Bytes),
    Option.map _ (if s.lane.late (c.sequence n) = true then _ else _) = _ ∧ _
  by_cases hl : s.lane.late (c.sequence n) = true
  · obtain ⟨d, hd, hdle⟩ := hlate.mp hl
    rw [if_pos hl]
    refine ⟨(s.lane, none), rfl, h.ignore rfl (append_nil _) rfl (fun _ => ⟨d, hd, hdle⟩)
      (fun m p _ hm => .inl ?_) fun hc => absurd hc hreplay⟩
    exact Nat.lt_of_le_of_lt hdle (hm.later d hd)
  · have hd : ∀ d ∈ s.delivered, d.index < n := fun d hd =>
      Nat.lt_of_not_le fun hle => hl (hlate.mpr ⟨d, hd, hle⟩)
    rw [if_neg hl]
    cases hp : s.lane.pending with
    | none =>
      obtain ⟨r, hr, hinv⟩ := hbegin hd (h.seen_lt hp hd)
      refine ⟨r, ?_, hinv⟩
      rw [Reassembler.target, hp]
      simp only [hr, map_some]
    | some p =>
      obtain ⟨-, m, hparts, hm⟩ := h.pending p hp
      obtain ⟨e', he', hidx⟩ := hm.begun
      have happart : Apart m n := by
        rw [← hidx]
        exact he.newest e' he' (hidx ▸ hm.newest)
      by_cases hmn : m = n
      · subst hmn
        obtain ⟨r, hr, hinv⟩ :=
          h.fill ⟨hle, hd, hm.newest⟩ hi he.delivered hparts fun j hj => hm.arrived j hj
        refine ⟨r, ?_, hinv⟩
        rw [target_same hp hparts]
        simp only [hr, map_some]
      · rw [target_other hp hparts happart hmn]
        rcases Nat.lt_or_gt_of_ne hmn with hlt | hgt
        · obtain ⟨r, hr, hinv⟩ :=
            hbegin hd fun e he => Nat.lt_of_le_of_lt (hm.newest e he) hlt
          refine ⟨r, ?_, hinv⟩
          rw [if_pos hlt]
          simp only [hr, map_some]
        · rw [if_neg (Nat.not_lt.mpr (Nat.le_of_lt hgt))]
          refine ⟨(s.lane, none), rfl, h.ignore rfl (append_nil _) rfl (fun hnone => ?_)
            (fun m' p' _ hm' => .inl ?_) fun hc => absurd hc hreplay⟩
          · rw [hp] at hnone
            cases hnone
          · have hle' := hm'.newest e' he'
            show n < m'
            omega

/-! ## The replay -/

theorem Inv.replay (h : Inv c s) (he : Arrives c s .replay) :
    ∃ r : Reassembler × Option (UInt32 × Bytes),
      s.step c .replay = some (s.after c .replay r.1 r.2) ∧ Inv c (s.after c .replay r.1 r.2) := by
  have hlate := h.late_iff he.delivered
  change s.lane.late (c.sequence c.last) = true ↔ ∃ d ∈ s.delivered, c.last ≤ d.index at hlate
  have hbound := c.bound c.last
  simp only [State.step, Reassembler.ingestFinal, if_neg (Nat.not_lt.mpr hbound)]
  by_cases hl : s.lane.late (c.sequence c.last) = true
  · obtain ⟨d, hd, hdle⟩ := hlate.mp hl
    have hlast : d.index = c.last := Nat.le_antisymm (h.sent d hd).1 hdle
    rw [if_pos hl]
    refine ⟨(s.lane, none), rfl, h.ignore rfl (append_nil _) rfl (fun _ => ⟨d, hd, hdle⟩)
      (fun m p _ hm => .inl ?_) fun _ => ⟨d, hd, hlast⟩⟩
    exact Nat.lt_of_le_of_lt hdle (hm.later d hd)
  · have hd : ∀ d ∈ s.delivered, d.index < c.last := fun d hd =>
      Nat.lt_of_not_le fun hle => hl (hlate.mpr ⟨d, hd, hle⟩)
    have hseen : ∀ e ∈ s.seen, e.index c ≤ c.last := by
      cases hp : s.lane.pending with
      | none => exact fun e he => Nat.le_of_lt (h.seen_lt hp hd e he)
      | some p =>
        obtain ⟨-, m, -, hm⟩ := h.pending p hp
        exact fun e he => Nat.le_trans (hm.newest e he) hm.le
    have hnewer : ¬(s.lane.pending.any fun p => sequenceIsNewer p.sequence (c.sequence c.last)) =
        true := fun hany => by
      cases hp : s.lane.pending with
      | none =>
        rw [hp] at hany
        cases hany
      | some p =>
        obtain ⟨-, m, hparts, hm⟩ := h.pending p hp
        obtain ⟨e', he', hidx⟩ := hm.begun
        have happart := he.newest e' he' (hidx ▸ hm.newest)
        rw [hidx] at happart
        rw [hp, Option.any_some, hparts.sequence] at hany
        have hlt := (newer_iff happart).mp hany
        have hle := hm.le
        change c.last < m at hlt
        omega
    rw [if_neg hl, if_neg hnewer]
    exact ⟨({ completed := some (c.sequence c.last), pending := none },
      some (c.sequence c.last, c.message c.last)), rfl,
      h.deliver ⟨Nat.le_refl _, hd, hseen⟩ rfl he.delivered rfl rfl rfl rfl⟩

theorem Inv.step (h : Inv c s) (he : Arrives c s e) :
    ∃ r : Reassembler × Option (UInt32 × Bytes),
      s.step c e = some (s.after c e r.1 r.2) ∧ Inv c (s.after c e r.1 r.2) := by
  cases e with
  | arrives n i => exact h.arrives he
  | replay => exact h.replay he

/-! ## What is delivered -/

theorem Inv.complete (h : Inv c s) (hall : ∀ i < c.count n, .arrives n i ∈ s.seen)
    (hnewest : ∀ e ∈ s.seen, e.index c ≤ n) : ∃ d ∈ s.delivered, d.index = n := by
  have hfirst := hall 0 (countOf_pos _)
  cases hp : s.lane.pending with
  | none =>
    obtain ⟨d, hd, hle⟩ := h.idle hp _ hfirst
    obtain ⟨e, he, hidx⟩ := h.seen d hd
    have hle' := hnewest e he
    change n ≤ d.index at hle
    exact ⟨d, hd, by omega⟩
  | some p =>
    -- the pending message would be this one, and be whole
    obtain ⟨hshort, m, hparts, hm⟩ := h.pending p hp
    obtain ⟨e, he, hidx⟩ := hm.begun
    have hle := hnewest e he
    have hge := hm.newest _ hfirst
    change n ≤ m at hge
    obtain rfl : m = n := by omega
    have hfull : partsCount p.chunks = p.chunks.length :=
      countP_eq_length.mpr fun q hq => by
        obtain ⟨i, hi⟩ := mem_iff_getElem?.mp hq
        have hlen := (List.getElem?_eq_some_iff.mp hi).1
        obtain ⟨part, hpart⟩ := hm.arrived i (hall i (by rwa [← hparts.length]))
        rw [hi] at hpart
        rw [some.inj hpart]
        rfl
    rw [hparts.received, hfull] at hshort
    exact absurd hshort (Nat.lt_irrefl _)

structure Told (c : Sender) (s : State) : Prop where
  inv : Inv c s
  complete : ∀ n seen, seen <+: s.seen → (∀ i < c.count n, .arrives n i ∈ seen) →
    (∀ e ∈ seen, e.index c ≤ n) → ∃ d ∈ s.delivered, d.index = n

theorem told_of_reaches (hs : (machine c).Reaches (Arrives c) s) : Told c s := by
  refine hs.invariant (P := Told c) ⟨inv_start, fun n seen hpre hall _ => ?_⟩
    fun s e s' h he hs => ?_
  · obtain rfl : seen = [] := prefix_nil.mp hpre
    cases hall 0 (countOf_pos _)
  · obtain ⟨r, hr, hinv⟩ := h.inv.step he
    change s.step c e = some s' at hs
    rw [hr] at hs
    cases hs
    refine ⟨hinv, fun n seen hpre hall hnewest => ?_⟩
    rcases prefix_concat_iff.mp hpre with rfl | hold
    · exact hinv.complete hall hnewest
    · obtain ⟨d, hd, hidx⟩ := h.complete n seen hold hall hnewest
      exact ⟨d, mem_append_left _ hd, hidx⟩

theorem count_one {l : List Delivery} (hl : l.Pairwise fun a b => a.index < b.index)
    (hin : ∃ d ∈ l, d.index = n) : l.countP (fun d => d.index = n) = 1 := by
  induction l with
  | nil =>
    obtain ⟨d, hd, -⟩ := hin
    cases hd
  | cons d l ih =>
    obtain ⟨hlt, hrest⟩ := pairwise_cons.mp hl
    by_cases hd : d.index = n
    · have hzero : l.countP (fun d => d.index = n) = 0 := countP_eq_zero.mpr fun d' hd' heq => by
        have hlt' := hlt d' hd'
        rw [decide_eq_true_eq] at heq
        omega
      rw [countP_cons_of_pos (by simpa using hd), hzero]
    · obtain ⟨d', hd', hidx⟩ := hin
      rw [countP_cons_of_neg (by simpa using hd)]
      refine ih hrest ⟨d', (mem_cons.mp hd').resolve_left fun heq => hd ?_, hidx⟩
      rw [← heq, hidx]

/-- Decoding accepts the packets of messages and never panics, and a lane delivers what was
sent. -/
theorem lossy_delivered :
    (∀ packet : Bytes, (Encoded packet ∧ ∃ d, decodeDatagram packet = pure d) ∨
      (¬Encoded packet ∧ ∃ message, decodeDatagram packet = throw message)) ∧
    ∀ (c : Sender) (s : State), (machine c).Reaches (Arrives c) s → Delivers c s := by
  constructor
  · intro packet
    rcases decodeDatagram_spec packet with ⟨hin, heq⟩ | hout
    · exact .inl ⟨hin, _, heq⟩
    · exact .inr hout
  · intro c s hs
    obtain ⟨h, hcomplete⟩ := told_of_reaches hs
    refine ⟨h.sent, h.newer, h.sequences, hcomplete, fun hin => count_one h.newer (h.replayed hin),
      fun p hp => ?_, fun e he => ?_⟩
    · obtain ⟨hshort, n, hparts, hn⟩ := h.pending p hp
      refine ⟨?_, n, hn.le, hparts.sequence, hparts.length⟩
      refine Classical.byContradiction fun hno => ?_
      have hfull : partsCount p.chunks = p.chunks.length :=
        List.countP_eq_length.mpr fun q hq => by
          cases q with
          | none => exact absurd hq hno
          | some part => rfl
      rw [hparts.received, hfull] at hshort
      exact Nat.lt_irrefl _ hshort
    · obtain ⟨r, hr, -⟩ := h.step he
      exact ⟨_, hr⟩

/-! ## A run over the wrap -/

instance (m n : Nat) : Decidable (Apart m n) := inferInstanceAs (Decidable (_ ∧ _))

def near (c : Sender) (s : State) (e : Event) : Bool :=
  (match e with
    | .arrives n i => decide (n ≤ c.last) && decide (i < c.count n)
    | .replay => true) &&
  s.delivered.all (fun d => decide (Apart d.index (e.index c))) &&
  s.seen.all fun e' => decide (Apart (e'.index c) (e.index c))

theorem arrives_of_near (h : near c s e = true) : Arrives c s e := by
  simp only [near, Bool.and_eq_true, List.all_eq_true, decide_eq_true_eq] at h
  refine ⟨?_, fun d hd => h.1.2 d (List.mem_of_getLast? hd), fun e' he' _ => h.2 e' he'⟩
  rintro n i rfl
  simpa using h.1.1

def Sample.sender : Sender where
  originLaneId := 7
  first := 4294967295
  message n := [UInt8.ofNat n]
  last := 1
  bound _ := Nat.succ_le_of_lt (Nat.succ_pos _)

theorem lossy_delivered_wrapped : ∃ s, Delivers Sample.sender s ∧
    s.delivered.map Delivery.sequence = [4294967295, 0] := by
  have hnear : ∀ s e, near Sample.sender s e = true → Arrives Sample.sender s e :=
    fun _ _ => arrives_of_near
  obtain ⟨s, hs, hp⟩ := Machine.exists_of_keeping_run (M := machine Sample.sender) hnear
    (fun s => decide (s.delivered.map Delivery.sequence = [4294967295, 0]))
    [.arrives 0 0, .arrives 1 0, .arrives 0 0, .replay] (by decide)
  exact ⟨s, lossy_delivered.2 _ s hs, of_decide_eq_true hp⟩

end VibeField.Native.LossyLane
