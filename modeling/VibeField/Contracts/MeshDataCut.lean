import VibeField.Contracts.MeshData

/-!
# What the readers take off a stream

Both readers are framers: what they take off the front is a well-formed frame as it is written, and
a fault stays one whatever follows.
-/

namespace VibeField.Contracts.MeshData

open List

variable {lanes : Nat} {frame : Frame} {s t rest : Bytes}

/-! ## A frame as it is written -/

theorem length_wire (frame : Frame) : (wire frame).length = headerBytes + frame.payload.length := by
  simp only [wire, length_append, length_cons, length_beBytes, headerBytes]

theorem WellFormed.body_lt (h : WellFormed lanes frame) :
    1 + 8 + frame.payload.length < 256 ^ 4 := by
  have hsize := h.size
  simp only [headerBytes, maxFrameBytes] at hsize
  omega

theorem body_wire (h : WellFormed lanes frame) (rest : Bytes) :
    bigEndian ((wire frame ++ rest).take 4) = 1 + 8 + frame.payload.length := by
  rw [wire, append_assoc, append_assoc, take_left' (length_beBytes ..),
    bigEndian_beBytes h.body_lt]

theorem drop_wire (frame : Frame) (rest : Bytes) : (wire frame ++ rest).drop 4 =
    frame.kind :: (beBytes 8 frame.laneId ++ (frame.payload ++ rest)) := by
  rw [wire, append_assoc, append_assoc, drop_left' (length_beBytes ..)]
  simp

theorem kind_wire (frame : Frame) (rest : Bytes) : (wire frame ++ rest).getD 4 0 = frame.kind := by
  have h := congrArg List.head? (drop_wire frame rest)
  rw [List.head?_drop] at h
  rw [getD_eq_getElem?_getD, h]
  rfl

theorem drop_wire_header (frame : Frame) (rest : Bytes) :
    (wire frame ++ rest).drop 5 = beBytes 8 frame.laneId ++ (frame.payload ++ rest) := by
  have h := congrArg (List.drop 1) (drop_wire frame rest)
  rwa [drop_drop, drop_one] at h

theorem laneId_wire (h : frame.laneId < 256 ^ 8) (rest : Bytes) :
    bigEndian (((wire frame ++ rest).drop 5).take 8) = frame.laneId := by
  rw [drop_wire_header, take_left' (length_beBytes ..), bigEndian_beBytes h]

theorem payload_wire (frame : Frame) (rest : Bytes) :
    ((wire frame ++ rest).drop headerBytes).take frame.payload.length = frame.payload := by
  have h := congrArg (List.drop 8) (drop_wire_header frame rest)
  rw [drop_drop, drop_left' (length_beBytes ..)] at h
  rw [headerBytes, h, take_left' rfl]

theorem eq_wire (hbody : minBodyBytes ≤ bigEndian (s.take 4))
    (hlen : lengthPrefixBytes + bigEndian (s.take 4) ≤ s.length) :
    s = wire
      { kind := s.getD 4 0
        laneId := bigEndian ((s.drop 5).take 8)
        payload := (s.drop headerBytes).take (bigEndian (s.take 4) - minBodyBytes) } ++
      s.drop (lengthPrefixBytes + bigEndian (s.take 4)) := by
  simp only [minBodyBytes, lengthPrefixBytes, headerBytes] at *
  have hpayload : ((s.drop 13).take (bigEndian (s.take 4) - (1 + 8))).length =
      bigEndian (s.take 4) - (1 + 8) := by
    rw [length_take, length_drop]
    omega
  have hprefix : beBytes 4 (bigEndian (s.take 4)) = s.take 4 := by
    have h := beBytes_bigEndian (s.take 4)
    rwa [length_take, Nat.min_eq_left (by omega)] at h
  have hlane : beBytes 8 (bigEndian ((s.drop 5).take 8)) = (s.drop 5).take 8 := by
    have h := beBytes_bigEndian ((s.drop 5).take 8)
    rwa [length_take, length_drop, Nat.min_eq_left (by omega)] at h
  have hkind : s.getD 4 0 :: s.drop 5 = s.drop 4 := by
    have hlt : 4 < s.length := by omega
    rw [getD_eq_getElem?_getD, List.getElem?_eq_getElem hlt, Option.getD_some]
    exact (drop_eq_getElem_cons hlt).symm
  have hbody : 1 + 8 + (bigEndian (s.take 4) - (1 + 8)) = bigEndian (s.take 4) := by omega
  have hrest : s.drop (4 + bigEndian (s.take 4)) =
      (s.drop 13).drop (bigEndian (s.take 4) - (1 + 8)) := by
    rw [drop_drop]
    congr 1
    omega
  have hdrop : s.drop 13 = (s.drop 5).drop 8 := by rw [drop_drop]
  rw [wire, hpayload, hbody, hprefix, hlane, hrest, append_assoc, append_assoc,
    take_append_drop, hdrop, cons_append, take_append_drop, hkind,
    take_append_drop]

/-! ## One reader for both -/

/-- A reader of lane ids up to `lanes`, with what it says past them. -/
def readUpTo (lanes : Nat) (past : Nat → String) (s : Bytes) : Taken UInt8 Frame String :=
  if s.length < lengthPrefixBytes then .more
  else
    let body := bigEndian (s.take 4)
    if maxFrameBytes < body + lengthPrefixBytes then
      .bad s!"meshdata frame declares {body} bytes, past the ceiling"
    else if body < minBodyBytes then
      .bad s!"meshdata frame declares {body} bytes, shorter than its own header"
    else if s.length < lengthPrefixBytes + body then .more
    else
      let laneId := bigEndian ((s.drop 5).take 8)
      if lanes < laneId then .bad (past laneId)
      else
        .item {
          kind := s.getD 4 0, laneId, payload := (s.drop headerBytes).take (body - minBodyBytes) }
          (s.drop (lengthPrefixBytes + body))

theorem decode_take {body : Nat} (hbody : bigEndian (s.take 4) = body)
    (hfloor : minBodyBytes ≤ body) (hwhole : lengthPrefixBytes + body ≤ s.length) :
    decodeMeshDataFrame (s.take (lengthPrefixBytes + body)) =
      let laneId := bigEndian ((s.drop 5).take 8)
      if maxSafeInteger < laneId then .error s!"lane id past Number.MAX_SAFE_INTEGER: {laneId}"
      else
        .ok {
          kind := s.getD 4 0, laneId,
          payload := (s.drop headerBytes).take (body - minBodyBytes) } := by
  simp only [minBodyBytes, lengthPrefixBytes] at hfloor hwhole
  have hlen : (s.take (lengthPrefixBytes + body)).length = 4 + body := by
    rw [length_take, lengthPrefixBytes]
    omega
  have htake : (s.take (lengthPrefixBytes + body)).take 4 = s.take 4 := by
    rw [take_take, lengthPrefixBytes, Nat.min_eq_left (by omega)]
  have hlane : ((s.take (lengthPrefixBytes + body)).drop 5).take 8 = (s.drop 5).take 8 := by
    rw [drop_take, take_take, lengthPrefixBytes, Nat.min_eq_left (by omega)]
  have hkind : (s.take (lengthPrefixBytes + body)).getD 4 0 = s.getD 4 0 := by
    rw [getD_eq_getElem?_getD, getD_eq_getElem?_getD, List.getElem?_take_of_lt]
    rw [lengthPrefixBytes]
    omega
  have hpayload : ((s.take (lengthPrefixBytes + body)).take (lengthPrefixBytes + body)).drop
      headerBytes = (s.drop headerBytes).take (body - minBodyBytes) := by
    rw [take_take, Nat.min_self, drop_take]
    congr 1
    simp only [lengthPrefixBytes, headerBytes, minBodyBytes]
    omega
  have hheader : ¬4 + body < headerBytes := by
    rw [headerBytes]
    omega
  have hfloor' : ¬body < minBodyBytes := by
    rw [minBodyBytes]
    omega
  have htruncated : ¬4 + body < body + lengthPrefixBytes := by
    rw [lengthPrefixBytes]
    omega
  simp only [decodeMeshDataFrame, hlen, htake, hbody, hlane, hkind, hpayload, if_neg hheader,
    if_neg hfloor', if_neg htruncated]

theorem readTs_eq (s : Bytes) : readTs s =
    readUpTo maxSafeInteger
      (fun laneId => s!"lane id past Number.MAX_SAFE_INTEGER: {laneId}") s := by
  simp only [readTs, readUpTo]
  split
  · rfl
  split
  · rfl
  split
  · rfl
  split
  · rfl
  next hfloor hwhole =>
    rw [decode_take rfl (Nat.not_lt.mp hfloor) (Nat.not_lt.mp hwhole)]
    by_cases hlane : maxSafeInteger < bigEndian ((s.drop 5).take 8)
    · simp only [if_pos hlane]
    · simp only [if_neg hlane]

theorem readRust_eq (s : Bytes) : readRust s = readUpTo (2 ^ 64 - 1) (fun _ => "") s := by
  have hlane : ¬2 ^ 64 - 1 < bigEndian ((s.drop 5).take 8) := by
    have hlt := bigEndian_lt ((s.drop 5).take 8)
    have hle : ((s.drop 5).take 8).length ≤ 8 := length_take_le ..
    have hpow : 256 ^ ((s.drop 5).take 8).length ≤ 256 ^ 8 := Nat.pow_le_pow_right (by decide) hle
    omega
  have htotal : ∀ body,
      lengthPrefixBytes + body - headerBytes = body - minBodyBytes := fun body => by
    simp only [lengthPrefixBytes, headerBytes, minBodyBytes]
    omega
  simp only [readRust, readUpTo, if_neg hlane, htotal]

variable {past : Nat → String} {e : String}

theorem readUpTo_wire (h : WellFormed lanes frame) (hlanes : lanes < 256 ^ 8) (rest : Bytes) :
    readUpTo lanes past (wire frame ++ rest) = .item frame rest := by
  have hsize := h.size
  have hlen : (wire frame ++ rest).length = headerBytes + frame.payload.length + rest.length := by
    rw [length_append, length_wire]
  have hlane := laneId_wire (Nat.lt_of_le_of_lt h.laneId hlanes) rest
  have hdrop :
      (wire frame ++ rest).drop (lengthPrefixBytes + (1 + 8 + frame.payload.length)) = rest :=
    drop_left' (by rw [length_wire, headerBytes, lengthPrefixBytes]; omega)
  have hpayload := payload_wire frame rest
  simp only [headerBytes, maxFrameBytes] at hsize hlen hpayload
  have hprefix : ¬(wire frame ++ rest).length < lengthPrefixBytes := by
    rw [hlen, lengthPrefixBytes]
    omega
  have hceiling : ¬maxFrameBytes < 1 + 8 + frame.payload.length + lengthPrefixBytes := by
    rw [maxFrameBytes, lengthPrefixBytes]
    omega
  have hfloor : ¬1 + 8 + frame.payload.length < minBodyBytes := by
    rw [minBodyBytes]
    omega
  have hwhole : ¬(wire frame ++ rest).length <
      lengthPrefixBytes + (1 + 8 + frame.payload.length) := by
    rw [hlen, lengthPrefixBytes]
    omega
  have hbody : 1 + 8 + frame.payload.length - minBodyBytes = frame.payload.length := by
    rw [minBodyBytes]
    omega
  simp only [readUpTo, body_wire h, hlane, kind_wire, hdrop, if_neg hprefix, if_neg hceiling,
    if_neg hfloor, if_neg hwhole, if_neg (Nat.not_lt.mpr h.laneId), hbody, headerBytes, hpayload]

theorem readUpTo_item (h : readUpTo lanes past s = .item frame rest) :
    WellFormed lanes frame ∧ s = wire frame ++ rest := by
  simp only [readUpTo] at h
  split at h
  · cases h
  split at h
  · cases h
  split at h
  · cases h
  split at h
  · cases h
  split at h
  · cases h
  next hceiling hfloor hwhole hlane =>
    cases h
    have heq := eq_wire (Nat.not_lt.mp hfloor) (Nat.not_lt.mp hwhole)
    refine ⟨⟨Nat.not_lt.mp hlane, ?_⟩, heq⟩
    simp only [headerBytes, minBodyBytes, lengthPrefixBytes, maxFrameBytes, length_take,
      length_drop] at *
    omega

theorem readUpTo_bad (h : readUpTo lanes past s = .bad e) (t : Bytes) :
    readUpTo lanes past (s ++ t) = .bad e := by
  simp only [readUpTo] at h
  split at h
  · cases h
  next hprefix =>
    have htake : (s ++ t).take 4 = s.take 4 :=
      take_append_of_le_length (Nat.not_lt.mp hprefix)
    have hprefix' : ¬(s ++ t).length < lengthPrefixBytes := by
      rw [length_append]
      omega
    simp only [readUpTo, if_neg hprefix', htake]
    split at h
    · next hceiling => rw [if_pos hceiling, h]
    split at h
    · next hceiling hfloor => rw [if_neg hceiling, if_pos hfloor, h]
    split at h
    · cases h
    split at h
    · next hceiling hfloor hwhole hlane =>
      have hwhole' : ¬(s ++ t).length < lengthPrefixBytes + bigEndian (s.take 4) := by
        rw [length_append]
        omega
      have hdrop : ((s ++ t).drop 5).take 8 = (s.drop 5).take 8 := by
        simp only [minBodyBytes, lengthPrefixBytes] at hfloor hwhole
        rw [drop_append_of_le_length (by omega), take_append_of_le_length]
        rw [length_drop]
        omega
      rw [if_neg hceiling, if_neg hfloor, if_neg hwhole', hdrop, if_pos hlane, h]
    · cases h

theorem readUpTo_malformed (past : Nat → String) (s : Bytes) :
    (∃ e, readUpTo lanes past s = .bad e) ↔ Malformed lanes s := by
  rw [Malformed]
  simp only [readUpTo]
  by_cases hprefix : s.length < lengthPrefixBytes
  · rw [if_pos hprefix]
    exact iff_of_false (by simp) (fun h => by omega)
  · rw [if_neg hprefix]
    by_cases hceiling : maxFrameBytes < bigEndian (s.take 4) + lengthPrefixBytes
    · rw [if_pos hceiling]
      exact iff_of_true ⟨_, rfl⟩ ⟨Nat.not_lt.mp hprefix, .inr (.inl hceiling)⟩
    · rw [if_neg hceiling]
      by_cases hfloor : bigEndian (s.take 4) < minBodyBytes
      · rw [if_pos hfloor]
        exact iff_of_true ⟨_, rfl⟩ ⟨Nat.not_lt.mp hprefix, .inl hfloor⟩
      · rw [if_neg hfloor]
        by_cases hwhole : s.length < lengthPrefixBytes + bigEndian (s.take 4)
        · rw [if_pos hwhole]
          exact iff_of_false (by simp) (fun h => by omega)
        · rw [if_neg hwhole]
          by_cases hlane : lanes < bigEndian ((s.drop 5).take 8)
          · rw [if_pos hlane]
            exact iff_of_true ⟨_, rfl⟩
              ⟨Nat.not_lt.mp hprefix, .inr (.inr ⟨Nat.not_lt.mp hwhole, hlane⟩)⟩
          · rw [if_neg hlane]
            exact iff_of_false (by simp) (fun h => by omega)

theorem readUpTo_more (h : readUpTo lanes past s = .more) : s.length < maxFrameBytes := by
  simp only [readUpTo] at h
  split at h
  · next hprefix =>
    rw [lengthPrefixBytes] at hprefix
    rw [maxFrameBytes]
    omega
  split at h
  · cases h
  split at h
  · cases h
  split at h
  · omega
  split at h <;> cases h

end VibeField.Contracts.MeshData
