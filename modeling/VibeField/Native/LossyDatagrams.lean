import VibeField.Native.LossyLane

/-!
# The datagrams of a message

A packet is accepted where its header is one that a message has, and its body is as long as the
header says.  Those are the packets that a message is cut into.
-/

namespace VibeField.Native.LossyLane

open List
open Contracts.MeshData (Bytes bigEndian beBytes bigEndian_beBytes beBytes_bigEndian bigEndian_lt
  length_beBytes)

variable {p payload : Bytes} {originLaneId sequence : UInt32} {i : Nat}

/-! ## Counts -/

theorem divCeil_eq (n : Nat) {d : Nat} (hd : 0 < d) : divCeil n d = sliceCount n d := by
  have hdiv := Nat.div_add_mod n d
  have hmod := Nat.mod_lt n hd
  rw [divCeil, sliceCount]
  split
  · next hzero =>
    rw [hzero, Nat.add_zero] at hdiv
    refine (Nat.div_eq_of_lt_le ?_ ?_).symm
    · rw [Nat.mul_comm]
      omega
    · rw [Nat.mul_comm, Nat.mul_succ]
      omega
  · next hpos =>
    refine (Nat.div_eq_of_lt_le ?_ ?_).symm
    · rw [Nat.mul_comm, Nat.mul_succ]
      omega
    · rw [Nat.mul_comm, Nat.mul_succ, Nat.mul_succ]
      omega

def bodyOf (length i : Nat) : Nat :=
  if i + 1 = countOf length then length - (countOf length - 1) * DATAGRAM_BODY_BYTES
  else DATAGRAM_BODY_BYTES

theorem body_pos : 0 < DATAGRAM_BODY_BYTES := by decide

theorem countOf_pos (length : Nat) : 0 < countOf length := Nat.le_max_right _ _

theorem countOf_le {length : Nat} (h : length ≤ LOSSY_MAX_LOGICAL_BYTES) : countOf length ≤ 58 := by
  have hle := sliceCount_le_of_le body_pos (Nat.le_refl _) h
  have hmax : sliceCount LOSSY_MAX_LOGICAL_BYTES DATAGRAM_BODY_BYTES = 58 := by decide
  rw [countOf, divCeil_eq _ body_pos]
  omega

theorem length_slice {l : Bytes} (h : i < countOf l.length) :
    (slice l DATAGRAM_BODY_BYTES i).length = bodyOf l.length i := by
  have hle := le_sliceCount l.length body_pos
  rw [slice, length_take, length_drop, bodyOf]
  rw [countOf, divCeil_eq _ body_pos] at h ⊢
  rcases Nat.eq_zero_or_pos l.length with hzero | hpos
  · rw [hzero] at h ⊢
    have hcount : sliceCount 0 DATAGRAM_BODY_BYTES = 0 := by decide
    rw [hcount] at h ⊢
    obtain rfl : i = 0 := by omega
    decide
  · have hcount := sliceCount_pos body_pos hpos
    rw [Nat.max_eq_left hcount] at h ⊢
    have hlt := mul_lt_of_lt_sliceCount body_pos h
    split
    · next hlast =>
      obtain rfl : i = sliceCount l.length DATAGRAM_BODY_BYTES - 1 := by omega
      have hmul : sliceCount l.length DATAGRAM_BODY_BYTES * DATAGRAM_BODY_BYTES =
          (sliceCount l.length DATAGRAM_BODY_BYTES - 1) * DATAGRAM_BODY_BYTES +
            DATAGRAM_BODY_BYTES := by
        rw [← Nat.succ_mul]
        congr 1
        omega
      omega
    · next hnot =>
      have hnext := mul_lt_of_lt_sliceCount body_pos
        (show i + 1 < sliceCount l.length DATAGRAM_BODY_BYTES by omega)
      rw [Nat.succ_mul] at hnext
      omega

theorem flatMap_slice (l : Bytes) :
    (List.range (countOf l.length)).flatMap (slice l DATAGRAM_BODY_BYTES) = l := by
  rw [flatMap_slices, take_of_length_le]
  have hle := le_sliceCount l.length body_pos
  rw [countOf, divCeil_eq _ body_pos]
  exact Nat.le_trans hle (Nat.mul_le_mul_right _ (Nat.le_max_left _ _))

theorem packet_body (l : Bytes) (i : Nat) :
    (l.drop (i * DATAGRAM_BODY_BYTES)).take
      (min (i * DATAGRAM_BODY_BYTES + DATAGRAM_BODY_BYTES) l.length - i * DATAGRAM_BODY_BYTES) =
        slice l DATAGRAM_BODY_BYTES i := by
  rw [slice]
  refine take_eq_take_iff.mpr ?_
  rw [length_drop]
  omega

/-! ## Decoding -/

variable {α : Type}

theorem ensure_bind (ok : Bool) (message : String) (f : Unit → Fallible α) :
    (ensure ok message >>= f) = if ok = true then f () else throw message := by
  cases ok <;> rfl

theorem range_bind {start stop : Nat} (hle : start ≤ stop) (h : stop ≤ p.length)
    (f : Bytes → Fallible α) : (range p start stop >>= f) = f ((p.drop start).take (stop - start)) := by
  rw [range, if_pos ⟨hle, h⟩]
  rfl

theorem byte_bind {b : UInt8} (h : p[i]? = some b) (f : UInt8 → Fallible α) :
    (byte p i >>= f) = f b := by
  rw [byte, h]
  rfl

theorem sub_bind {a b : Nat} (h : b ≤ a) (f : Nat → Fallible α) :
    (sub a b >>= f) = f (a - b) := by
  rw [sub, if_pos h]
  rfl

def field (p : Bytes) (start size : Nat) : Nat := bigEndian ((p.drop start).take size)

def read (p : Bytes) : Datagram where
  originLaneId := .ofNat (field p 4 4)
  sequence := .ofNat (field p 8 4)
  chunkIndex := field p 12 2
  chunkCount := field p 14 2
  totalLen := field p 16 4
  payload := p.drop DATAGRAM_HEADER_BYTES

/-- What a packet must be. -/
structure WellFormed (p : Bytes) : Prop where
  header : DATAGRAM_HEADER_BYTES ≤ p.length
  le : p.length ≤ LOSSY_MAX_PAYLOAD_BYTES
  magic : p.take 2 = MAGIC
  version : p[2]? = some VERSION
  flags : p[3]? = some 0
  total : field p 16 4 ≤ LOSSY_MAX_LOGICAL_BYTES
  count : field p 14 2 = countOf (field p 16 4)
  index : field p 12 2 < field p 14 2
  body : p.length - DATAGRAM_HEADER_BYTES = bodyOf (field p 16 4) (field p 12 2)

theorem expectedBody_eq (total index : Nat) :
    expectedBody total (max (divCeil total DATAGRAM_BODY_BYTES) 1) index =
      pure (bodyOf total index) := by
  rw [expectedBody, sub, if_pos (Nat.le_max_right _ _), bodyOf, countOf]
  split <;> rfl

theorem decodeDatagram_eq (p : Bytes) :
    (WellFormed p ∧ decodeDatagram p = pure (read p)) ∨
      (¬WellFormed p ∧ ∃ message, decodeDatagram p = throw message) := by
  by_cases hlen : DATAGRAM_HEADER_BYTES ≤ p.length ∧ p.length ≤ LOSSY_MAX_PAYLOAD_BYTES
  swap
  · refine .inr ⟨fun h => hlen ⟨h.header, h.le⟩,
      s!"lossy datagram has invalid length {p.length}", ?_⟩
    rw [decodeDatagram, ensure_bind, if_neg (by simpa using hlen)]
  obtain ⟨hheader, hle⟩ := hlen
  have hat : ∀ n, n ≤ 20 → n ≤ p.length := fun n hn => Nat.le_trans hn hheader
  obtain ⟨v, hv⟩ : ∃ v, p[2]? = some v := ⟨_, List.getElem?_eq_getElem (hat 3 (by decide))⟩
  obtain ⟨f, hf⟩ : ∃ f, p[3]? = some f := ⟨_, List.getElem?_eq_getElem (hat 4 (by decide))⟩
  have hrest : p.length - DATAGRAM_HEADER_BYTES = (p.drop DATAGRAM_HEADER_BYTES).length :=
    length_drop.symm
  have heq : decodeDatagram p =
      if p.take 2 = MAGIC then
        if v = VERSION then
          if f = 0 then
            if field p 16 4 ≤ LOSSY_MAX_LOGICAL_BYTES then
              if field p 14 2 = countOf (field p 16 4) then
                if field p 12 2 < field p 14 2 then
                  if p.length - DATAGRAM_HEADER_BYTES = bodyOf (field p 16 4) (field p 12 2) then
                    pure (read p)
                  else throw "lossy datagram chunk has inconsistent length"
                else throw "lossy datagram chunk rank is out of range"
              else throw "lossy datagram has inconsistent chunk count"
            else throw "lossy datagram declares oversized logical message"
          else throw "unknown lossy datagram flags"
        else throw "unknown lossy datagram version"
      else throw "lossy datagram has bad magic" := by
    rw [decodeDatagram, ensure_bind, if_pos (by simp [hheader, hle])]
    simp only [range_bind (Nat.zero_le 2) (hat 2 (by decide)), byte_bind hv, byte_bind hf,
      range_bind (show 4 ≤ 8 by decide) (hat 8 (by decide)),
      range_bind (show 8 ≤ 12 by decide) (hat 12 (by decide)),
      range_bind (show 12 ≤ 14 by decide) (hat 14 (by decide)),
      range_bind (show 14 ≤ 16 by decide) (hat 16 (by decide)),
      range_bind (show 16 ≤ 20 by decide) (hat 20 (by decide)), ensure_bind, expectedBody_eq, pure_bind,
      sub_bind hheader, range_bind hheader (Nat.le_refl _), decide_eq_true_eq, hrest,
      take_length, drop_zero, Nat.sub_zero]
    rfl
  rw [heq]
  split
  · next hmagic =>
    split
    · next hversion =>
      split
      · next hflags =>
        split
        · next htotal =>
          split
          · next hcount =>
            split
            · next hindex =>
              split
              · next hbody =>
                subst hversion hflags
                exact .inl ⟨⟨hheader, hle, hmagic, hv, hf, htotal, hcount, hindex, hbody⟩, rfl⟩
              · next hno => exact .inr ⟨fun h => hno h.body, _, rfl⟩
            · next hno => exact .inr ⟨fun h => hno h.index, _, rfl⟩
          · next hno => exact .inr ⟨fun h => hno h.count, _, rfl⟩
        · next hno => exact .inr ⟨fun h => hno h.total, _, rfl⟩
      · next hno => exact .inr ⟨fun h => hno (Option.some.inj (hf.symm.trans h.flags)), _, rfl⟩
    · next hno => exact .inr ⟨fun h => hno (Option.some.inj (hv.symm.trans h.version)), _, rfl⟩
  · next hno => exact .inr ⟨fun h => hno h.magic, _, rfl⟩

/-! ## Encoding -/

theorem encodeDatagrams_ok (originLaneId sequence : UInt32)
    (h : payload.length ≤ LOSSY_MAX_LOGICAL_BYTES) :
    encodeDatagrams originLaneId sequence payload =
      .ok ((List.range (countOf payload.length)).map
        (packet originLaneId sequence payload (countOf payload.length))) := by
  have hcount := countOf_le h
  rw [encodeDatagrams, if_pos h]
  exact if_pos (Nat.le_trans hcount (by decide))

theorem field_at {pre mid post : Bytes} {start size : Nat} (hp : p = pre ++ (mid ++ post))
    (hpre : pre.length = start) (hmid : mid.length = size) :
    field p start size = bigEndian mid := by
  rw [field, hp, ← hpre, drop_left, ← hmid, take_left]

theorem field_lt (p : Bytes) (start size : Nat) : field p start size < 256 ^ size :=
  Nat.lt_of_lt_of_le (bigEndian_lt _)
    (Nat.pow_le_pow_right (by decide) (by rw [length_take]; exact Nat.min_le_left _ _))

def datagramOf (originLaneId sequence : UInt32) (payload : Bytes) (i : Nat) : Datagram where
  originLaneId := originLaneId
  sequence := sequence
  chunkIndex := i
  chunkCount := countOf payload.length
  totalLen := payload.length
  payload := slice payload DATAGRAM_BODY_BYTES i

theorem packet_eq (originLaneId sequence : UInt32) (payload : Bytes) (count i : Nat) :
    packet originLaneId sequence payload count i =
      MAGIC ++ [VERSION] ++ [0] ++ beBytes 4 originLaneId.toNat ++ beBytes 4 sequence.toNat ++
        beBytes 2 i ++ beBytes 2 count ++ beBytes 4 payload.length ++
          slice payload DATAGRAM_BODY_BYTES i := by
  rw [packet, packet_body]

theorem bodyOf_eq {length i : Nat} (h : i < countOf length) :
    bodyOf length i = min DATAGRAM_BODY_BYTES (length - i * DATAGRAM_BODY_BYTES) := by
  have hi : i < countOf (List.replicate length (0 : UInt8)).length := by
    rwa [length_replicate]
  have hslice := length_slice hi
  rw [slice, length_take, length_drop, length_replicate] at hslice
  exact hslice.symm

theorem bodyOf_le (length i : Nat) (h : i < countOf length) :
    bodyOf length i ≤ DATAGRAM_BODY_BYTES := by
  rw [bodyOf_eq h]
  exact Nat.min_le_left _ _

theorem start_le {length i : Nat} (h : i < countOf length) : i * DATAGRAM_BODY_BYTES ≤ length := by
  rw [countOf, divCeil_eq _ body_pos] at h
  rcases Nat.lt_or_ge i (sliceCount length DATAGRAM_BODY_BYTES) with hlt | hge
  · exact Nat.le_of_lt (mul_lt_of_lt_sliceCount body_pos hlt)
  · obtain rfl : i = 0 := by omega
    omega

theorem wellFormed_packet (originLaneId sequence : UInt32)
    (h : payload.length ≤ LOSSY_MAX_LOGICAL_BYTES) (hi : i < countOf payload.length) :
    WellFormed (packet originLaneId sequence payload (countOf payload.length) i) ∧
      read (packet originLaneId sequence payload (countOf payload.length) i) =
        datagramOf originLaneId sequence payload i := by
  have hcount := countOf_le h
  have hslice := length_slice hi
  have hbody := bodyOf_le payload.length i hi
  have heq := packet_eq originLaneId sequence payload (countOf payload.length) i
  generalize packet originLaneId sequence payload (countOf payload.length) i = p at heq
  obtain ⟨body, hwhole⟩ : ∃ body, slice payload DATAGRAM_BODY_BYTES i = body := ⟨_, rfl⟩
  rw [hwhole] at heq hslice
  have hlen : p.length = 20 + body.length := by
    rw [heq]
    simp [MAGIC]
    omega
  have hmagic : p.take 2 = MAGIC ∧ p[2]? = some VERSION ∧ p[3]? = some 0 := by
    rw [heq]
    simp [MAGIC, VERSION]
  have horigin : field p 4 4 = originLaneId.toNat := by
    have hcut : p = (MAGIC ++ [VERSION] ++ [0]) ++ (beBytes 4 originLaneId.toNat ++
        (beBytes 4 sequence.toNat ++ beBytes 2 i ++ beBytes 2 (countOf payload.length) ++
          beBytes 4 payload.length ++ body)) := by simp only [heq, append_assoc]
    rw [field_at hcut (by simp [MAGIC]) (length_beBytes ..), bigEndian_beBytes originLaneId.toNat_lt]
  have hsequence : field p 8 4 = sequence.toNat := by
    have hcut : p = (MAGIC ++ [VERSION] ++ [0] ++ beBytes 4 originLaneId.toNat) ++
        (beBytes 4 sequence.toNat ++ (beBytes 2 i ++ beBytes 2 (countOf payload.length) ++
          beBytes 4 payload.length ++ body)) := by simp only [heq, append_assoc]
    rw [field_at hcut (by simp [MAGIC]) (length_beBytes ..),
      bigEndian_beBytes sequence.toNat_lt]
  have hindex : field p 12 2 = i := by
    have hcut : p = (MAGIC ++ [VERSION] ++ [0] ++ beBytes 4 originLaneId.toNat ++
        beBytes 4 sequence.toNat) ++ (beBytes 2 i ++ (beBytes 2 (countOf payload.length) ++
          beBytes 4 payload.length ++ body)) := by simp only [heq, append_assoc]
    rw [field_at hcut (by simp [MAGIC]) (length_beBytes ..), bigEndian_beBytes (by omega)]
  have hchunks : field p 14 2 = countOf payload.length := by
    have hcut : p = (MAGIC ++ [VERSION] ++ [0] ++ beBytes 4 originLaneId.toNat ++
        beBytes 4 sequence.toNat ++ beBytes 2 i) ++ (beBytes 2 (countOf payload.length) ++
          (beBytes 4 payload.length ++ body)) := by simp only [heq, append_assoc]
    rw [field_at hcut (by simp [MAGIC]) (length_beBytes ..), bigEndian_beBytes (by omega)]
  have htotal : field p 16 4 = payload.length := by
    have hcut : p = (MAGIC ++ [VERSION] ++ [0] ++ beBytes 4 originLaneId.toNat ++
        beBytes 4 sequence.toNat ++ beBytes 2 i ++ beBytes 2 (countOf payload.length)) ++
          (beBytes 4 payload.length ++ body) := by simp only [heq, append_assoc]
    have hlt : payload.length < 256 ^ 4 := Nat.lt_of_le_of_lt h (by decide)
    rw [field_at hcut (by simp [MAGIC]) (length_beBytes ..), bigEndian_beBytes hlt]
  have hdrop : p.drop DATAGRAM_HEADER_BYTES = body := by
    rw [heq]
    exact drop_left' (by simp [MAGIC, DATAGRAM_HEADER_BYTES])
  constructor
  · refine ⟨?_, ?_, hmagic.1, hmagic.2.1, hmagic.2.2, ?_, ?_, ?_, ?_⟩
    · rw [hlen]
      exact Nat.le_add_right _ _
    · rw [hlen, hslice]
      exact Nat.add_le_add_left hbody 20
    · rwa [htotal]
    · rw [hchunks, htotal]
    · rwa [hindex, hchunks]
    · rw [hlen, hslice, htotal, hindex]
      exact Nat.add_sub_cancel_left ..
  · rw [read, horigin, hsequence, hindex, hchunks, htotal, hdrop, UInt32.ofNat_toNat,
      UInt32.ofNat_toNat, datagramOf, hwhole]

theorem drop_cut (p : Bytes) (start size : Nat) :
    p.drop start = (p.drop start).take size ++ p.drop (start + size) := by
  rw [← drop_drop, take_append_drop]

theorem drop_byte {b : UInt8} (h : p[i]? = some b) : p.drop i = [b] ++ p.drop (i + 1) := by
  obtain ⟨hi, rfl⟩ := List.getElem?_eq_some_iff.mp h
  exact drop_eq_getElem_cons hi

theorem beBytes_field {start size : Nat} (h : start + size ≤ p.length) :
    beBytes size (field p start size) = (p.drop start).take size := by
  have hlen : ((p.drop start).take size).length = size := by
    rw [length_take, length_drop]
    omega
  have hbytes := beBytes_bigEndian ((p.drop start).take size)
  rwa [hlen] at hbytes

def around (length i : Nat) (body : Bytes) : Bytes :=
  List.replicate (i * DATAGRAM_BODY_BYTES) 0 ++ (body ++
    List.replicate (length - i * DATAGRAM_BODY_BYTES - body.length) 0)

theorem around_spec {length i : Nat} {body : Bytes} (hi : i < countOf length)
    (hbody : body.length = bodyOf length i) : (around length i body).length = length ∧
      slice (around length i body) DATAGRAM_BODY_BYTES i = body := by
  have hstart := start_le hi
  rw [bodyOf_eq hi] at hbody
  constructor
  · rw [around, length_append, length_append, length_replicate,
      length_replicate]
    omega
  · rw [slice, around, drop_left' (length_replicate ..)]
    rcases Nat.le_total DATAGRAM_BODY_BYTES (length - i * DATAGRAM_BODY_BYTES) with hle | hle
    · exact take_left' (by omega)
    · have hzero : length - i * DATAGRAM_BODY_BYTES - body.length = 0 := by omega
      rw [hzero, replicate_zero, append_nil]
      exact take_of_length_le (by omega)

theorem packet_of_wellFormed (h : WellFormed p) : ∃ payload : Bytes,
    payload.length = field p 16 4 ∧ packet (read p).originLaneId (read p).sequence payload
      (countOf payload.length) (field p 12 2) = p := by
  have hindex := h.index
  rw [h.count] at hindex
  have hat : ∀ n, n ≤ 20 → n ≤ p.length := fun n hn => Nat.le_trans hn h.header
  have hbody : (p.drop DATAGRAM_HEADER_BYTES).length = bodyOf (field p 16 4) (field p 12 2) := by
    rw [length_drop]
    exact h.body
  obtain ⟨hlength, hslice⟩ := around_spec hindex hbody
  refine ⟨_, hlength, ?_⟩
  have hnum : ∀ start, (UInt32.ofNat (field p start 4)).toNat = field p start 4 := fun start =>
    UInt32.toNat_ofNat_of_lt' (field_lt p start 4)
  have hcut : p = MAGIC ++ ([VERSION] ++ ([0] ++ (beBytes 4 (field p 4 4) ++
      (beBytes 4 (field p 8 4) ++ (beBytes 2 (field p 12 2) ++ (beBytes 2 (field p 14 2) ++
        (beBytes 4 (field p 16 4) ++ p.drop DATAGRAM_HEADER_BYTES))))))) := by
    rw [beBytes_field (hat 8 (by decide)), beBytes_field (hat 12 (by decide)),
      beBytes_field (hat 14 (by decide)), beBytes_field (hat 16 (by decide)),
      beBytes_field (hat 20 (by decide)), ← h.magic]
    show p = p.take 2 ++ ([VERSION] ++ ([0] ++ ((p.drop 4).take 4 ++ ((p.drop 8).take 4 ++
      ((p.drop 12).take 2 ++ ((p.drop 14).take 2 ++ ((p.drop 16).take 4 ++ p.drop 20)))))))
    rw [← drop_cut p 16 4, ← drop_cut p 14 2, ← drop_cut p 12 2, ← drop_cut p 8 4,
      ← drop_cut p 4 4, ← drop_byte h.flags, ← drop_byte h.version, take_append_drop]
  rw [packet_eq, hlength, hslice, ← h.count]
  show MAGIC ++ [VERSION] ++ [0] ++ beBytes 4 (UInt32.ofNat (field p 4 4)).toNat ++
    beBytes 4 (UInt32.ofNat (field p 8 4)).toNat ++ _ ++ _ ++ _ ++ _ = p
  rw [hnum, hnum]
  simp only [append_assoc]
  exact hcut.symm

/-- A packet that a message can be cut into. -/
def Encoded (p : Bytes) : Prop :=
  ∃ (originLaneId sequence : UInt32) (payload : Bytes) (packets : List Bytes),
    encodeDatagrams originLaneId sequence payload = .ok packets ∧ p ∈ packets

theorem encoded_iff : Encoded p ↔ WellFormed p := by
  constructor
  · rintro ⟨originLaneId, sequence, payload, packets, hencode, hp⟩
    have hle : payload.length ≤ LOSSY_MAX_LOGICAL_BYTES := by
      rw [encodeDatagrams] at hencode
      split at hencode
      · assumption
      · cases hencode
    rw [encodeDatagrams_ok _ _ hle] at hencode
    cases hencode
    obtain ⟨i, hi, rfl⟩ := mem_map.mp hp
    exact (wellFormed_packet originLaneId sequence hle (mem_range.mp hi)).1
  · intro h
    obtain ⟨payload, hlength, hpacket⟩ := packet_of_wellFormed h
    refine ⟨_, _, payload, _, encodeDatagrams_ok _ _ (by rw [hlength]; exact h.total),
      mem_map.mpr ⟨field p 12 2, mem_range.mpr ?_, hpacket⟩⟩
    rw [hlength, ← h.count]
    exact h.index

theorem decodeDatagram_spec (p : Bytes) :
    (Encoded p ∧ decodeDatagram p = pure (read p)) ∨
      (¬Encoded p ∧ ∃ message, decodeDatagram p = throw message) := by
  rw [encoded_iff]
  exact decodeDatagram_eq p

end VibeField.Native.LossyLane
