import VibeField.Contracts.MeshDataCut

/-!
# The two readers over any chunks

A reader keeps what it could not take yet.  In a push that finds a fault both throw away the frames
that they have taken in it, so a chunk that ends good frames and brings a fault loses them.
-/

namespace VibeField.Contracts.MeshData

open List

section

variable {lanes : Nat} {past : Nat → String} {read : Bytes → Taken UInt8 Frame String}

theorem wire_ne_nil (frame : Frame) : wire frame ≠ [] := ne_nil_of_length_pos (by
  rw [length_wire, headerBytes]
  omega)

theorem read_wire (hlanes : lanes < 256 ^ 8) (hread : ∀ s, read s = readUpTo lanes past s)
    (frame : Frame) (rest : Bytes) (h : WellFormed lanes frame) :
    read (wire frame ++ rest) = .item frame rest := by
  rw [hread, readUpTo_wire h hlanes]

theorem wire_of_read (hread : ∀ s, read s = readUpTo lanes past s) (s : Bytes) (frame : Frame)
    (rest : Bytes) (h : read s = .item frame rest) :
    WellFormed lanes frame ∧ s = wire frame ++ rest :=
  readUpTo_item ((hread s).symm.trans h)

theorem read_append (hread : ∀ s, read s = readUpTo lanes past s) (s t : Bytes) (e : String)
    (h : read s = .bad e) : read (s ++ t) = .bad e := by
  rw [hread, readUpTo_bad ((hread s).symm.trans h)]

end

def framer (lanes : Nat) (hlanes : lanes < 256 ^ 8) (past : Nat → String)
    (read : Bytes → Taken UInt8 Frame String) (hread : ∀ s, read s = readUpTo lanes past s) :
    Framer UInt8 Frame String where
  take := read
  wire := wire
  Good := WellFormed lanes
  wire_ne_nil := wire_ne_nil
  take_wire := read_wire hlanes hread
  item_wire := wire_of_read hread
  bad_append := read_append hread

def tsFramer : Framer UInt8 Frame String := framer maxSafeInteger (by decide) _ readTs readTs_eq

def rustFramer : Framer UInt8 Frame String := framer (2 ^ 64 - 1) (by decide) _ readRust readRust_eq

def MeshDataFrameReader.push (held chunk : Bytes) : Bytes × Except String (List Frame) :=
  let r := tsFramer.drain (held ++ chunk)
  match r.fault with
  | some e => (r.rest, .error e)
  | none => (r.rest, .ok r.items)

def FrameReader.push (held chunk : Bytes) : Bytes × Except String (List Frame) :=
  let r := rustFramer.drain (held ++ chunk)
  match r.fault with
  | some e => (held ++ chunk, .error e)
  | none => (r.rest, .ok r.items)

def readAll (push : Bytes → Bytes → Bytes × Except String (List Frame)) :
    Bytes → List Bytes → List Frame × Option String
  | _, [] => ([], none)
  | held, chunk :: chunks =>
    match push held chunk with
    | (_, .error e) => ([], some e)
    | (held, .ok frames) =>
      let later := readAll push held chunks
      (frames ++ later.1, later.2)

def heldAfter (push : Bytes → Bytes → Bytes × Except String (List Frame)) :
    Bytes → List Bytes → Option Bytes
  | held, [] => some held
  | held, chunk :: chunks =>
    match push held chunk with
    | (_, .error _) => none
    | (held, .ok _) => heldAfter push held chunks

/-! ## What is claimed -/

structure Reads (lanes : Nat) (push : Bytes → Bytes → Bytes × Except String (List Frame))
    (chunks : List Bytes) : Prop where
  /-- The well-formed frames before the first malformed one. -/
  frames : ∃ tail, Cut lanes chunks.flatten (readAll push [] chunks).1 tail
  /-- An error as soon as what came has a malformed one. -/
  error : ∀ k, (readAll push [] (chunks.take k)).2.isSome = true ↔
    ∃ frames tail, Cut lanes (chunks.take k).flatten frames tail ∧ Malformed lanes tail
  held : ∀ k held, heldAfter push [] (chunks.take k) = some held → held.length < maxFrameBytes

structure Framed (chunks : List Bytes) : Prop where
  ts : Reads maxSafeInteger MeshDataFrameReader.push chunks
  rust : Reads (2 ^ 64 - 1) FrameReader.push chunks
  roundTrip : ∀ kind laneId payload bytes, encodeMeshDataFrame kind laneId payload = .ok bytes →
    ∃ frame, decodeMeshDataFrame bytes = .ok frame ∧ kind = .int frame.kind.toNat ∧
      laneId = .int frame.laneId ∧ payload = frame.payload
  same : ∀ (kind : UInt8) (laneId : UInt64) (payload a b : Bytes),
    encodeMeshDataFrame (.int kind.toNat) (.int laneId.toNat) payload = .ok a →
      encodeFrame kind laneId payload = .ok b → a = b

/-- A chunk ends after the last well-formed frame and before the malformed one shows. -/
def Apart (lanes : Nat) (chunks : List Bytes) : Prop :=
  ∀ frames tail, Cut lanes chunks.flatten frames tail → Malformed lanes tail →
    ∃ k, (frames.flatMap wire).length ≤ (chunks.take k).flatten.length ∧
      ¬Malformed lanes ((chunks.take k).flatten.drop (frames.flatMap wire).length)

/-! ## The readers -/

/-- What holds of the framer of either reader. -/
structure Reader (lanes : Nat) (f : Framer UInt8 Frame String) : Prop where
  wire : f.wire = wire
  good : ∀ frame, f.Good frame ↔ WellFormed lanes frame
  malformed : ∀ s, (∃ e, f.take s = .bad e) ↔ Malformed lanes s
  short : ∀ s, f.take s = .more → s.length < maxFrameBytes
  nil : f.take [] = .more

theorem reader_framer {lanes : Nat} {hlanes : lanes < 256 ^ 8} {past : Nat → String}
    {read : Bytes → Taken UInt8 Frame String} {hread : ∀ s, read s = readUpTo lanes past s} :
    Reader lanes (framer lanes hlanes past read hread) where
  wire := rfl
  good _ := Iff.rfl
  malformed s := by
    rw [← readUpTo_malformed past]
    show (∃ e, read s = .bad e) ↔ _
    rw [hread]
  short s h := readUpTo_more (by rw [← hread]; exact h)
  nil := by
    show read [] = .more
    rw [hread]
    rfl

/-- A push is the framer's drain, but for what it holds after a fault. -/
structure Drains (f : Framer UInt8 Frame String)
    (push : Bytes → Bytes → Bytes × Except String (List Frame)) : Prop where
  fault : ∀ held chunk e, (f.drain (held ++ chunk)).fault = some e →
    (push held chunk).2 = .error e
  ok : ∀ held chunk, (f.drain (held ++ chunk)).fault = none →
    push held chunk = ((f.drain (held ++ chunk)).rest, .ok (f.drain (held ++ chunk)).items)

variable {lanes : Nat} {f : Framer UInt8 Frame String}
  {push : Bytes → Bytes → Bytes × Except String (List Frame)}

theorem readAll_eq (h : Drains f push) (held : Bytes) (chunks : List Bytes) :
    readAll push held chunks = f.feed held chunks := by
  induction chunks generalizing held with
  | nil => rfl
  | cons chunk chunks ih =>
    rw [readAll, Framer.feed]
    cases hfault : (f.drain (held ++ chunk)).fault with
    | some e =>
      have herr := h.fault held chunk e hfault
      split
      · next heq =>
        rw [heq] at herr
        cases herr
        rfl
      · next heq =>
        rw [heq] at herr
        cases herr
    | none =>
      rw [h.ok held chunk hfault]
      simp only [ih]

theorem take_heldAfter (h : Drains f push) {held held' : Bytes} {chunks : List Bytes}
    (hheld : f.take held = .more) (hafter : heldAfter push held chunks = some held') :
    f.take held' = .more := by
  induction chunks generalizing held with
  | nil =>
    cases hafter
    exact hheld
  | cons chunk chunks ih =>
    rw [heldAfter] at hafter
    cases hfault : (f.drain (held ++ chunk)).fault with
    | some e =>
      have herr := h.fault held chunk e hfault
      split at hafter
      · cases hafter
      · next heq =>
        rw [heq] at herr
        cases herr
    | none =>
      rw [h.ok held chunk hfault] at hafter
      have hrest := f.take_rest (held ++ chunk)
      rw [hfault] at hrest
      exact ih hrest hafter

theorem cut_iff (hf : Reader lanes f) {s tail : Bytes} {frames : List Frame} :
    Cut lanes s frames tail ↔ frames = (f.drain s).items ∧ tail = (f.drain s).rest := by
  constructor
  · intro h
    have hnone : (f.drain tail).items = [] ∧ (f.drain tail).rest = tail := by
      cases htake : f.take tail with
      | more =>
        rw [Framer.drain_more htake]
        exact ⟨rfl, rfl⟩
      | bad e =>
        rw [Framer.drain_bad htake]
        exact ⟨rfl, rfl⟩
      | item frame rest =>
        obtain ⟨hgood, htail⟩ := f.item_wire _ _ _ htake
        rw [hf.wire] at htail
        exact absurd ⟨rest, htail.symm⟩ (h.last frame ((hf.good frame).mp hgood))
    have hdrain := Framer.drain_wire (fun a ha => (hf.good a).mpr (h.wellFormed a ha)) tail
    rw [hf.wire, ← h.stream] at hdrain
    rw [hdrain]
    exact ⟨by rw [hnone.1, append_nil], hnone.2.symm⟩
  · rintro ⟨rfl, rfl⟩
    obtain ⟨hs, hgood⟩ := f.drain_eq s
    rw [hf.wire] at hs
    refine ⟨hs, fun frame hframe => (hf.good frame).mp (hgood frame hframe), ?_⟩
    rintro frame hframe ⟨rest, hrest⟩
    have htake := f.take_wire frame rest ((hf.good frame).mpr hframe)
    have hleft := f.take_rest s
    rw [hf.wire, hrest, hleft] at htake
    split at htake <;> cases htake

theorem fault_iff (hf : Reader lanes f) (s : Bytes) :
    (f.drain s).fault.isSome = true ↔ Malformed lanes (f.drain s).rest := by
  rw [← hf.malformed, f.take_rest]
  cases (f.drain s).fault <;> simp

theorem error_iff (hf : Reader lanes f) (h : Drains f push) (chunks : List Bytes) :
    (readAll push [] chunks).2.isSome = true ↔
      ∃ frames tail, Cut lanes chunks.flatten frames tail ∧ Malformed lanes tail := by
  rw [readAll_eq h, Framer.feed_fault hf.nil, nil_append, fault_iff hf]
  constructor
  · exact fun hbad => ⟨_, _, (cut_iff hf).mpr ⟨rfl, rfl⟩, hbad⟩
  · rintro ⟨frames, tail, hcut, hbad⟩
    rwa [((cut_iff hf).mp hcut).2] at hbad

theorem between_iff (hf : Reader lanes f) {chunks : List Bytes} {frames : List Frame} {tail : Bytes}
    (hcut : Cut lanes chunks.flatten frames tail) (k : Nat) : f.Between [] chunks k ↔
      (frames.flatMap wire).length ≤ (chunks.take k).flatten.length ∧
        ¬Malformed lanes ((chunks.take k).flatten.drop (frames.flatMap wire).length) := by
  obtain ⟨hframes, -⟩ := (cut_iff hf).mp hcut
  rw [Framer.Between, nil_append, nil_append, ← hframes, hf.wire]
  refine and_congr_right fun hlen => ?_
  have hsplit :
      (chunks.take k).flatten ++ (chunks.drop k).flatten = frames.flatMap wire ++ tail := by
    rw [← flatten_append, take_append_drop, hcut.stream]
  obtain ⟨more, hmore, htail⟩ : ∃ more, (chunks.take k).flatten = frames.flatMap wire ++ more ∧
      tail = more ++ (chunks.drop k).flatten := by
    obtain ⟨more, hmore⟩ := prefix_of_prefix_length_le
      (prefix_append (frames.flatMap wire) tail) ⟨_, hsplit⟩ hlen
    refine ⟨more, hmore.symm, ?_⟩
    rw [← hmore, append_assoc, append_cancel_left_eq] at hsplit
    exact hsplit.symm
  have hdrain := Framer.drain_wire
    (fun a ha => (hf.good a).mpr (hcut.wellFormed a ha)) more
  rw [hf.wire, ← hmore] at hdrain
  rw [hdrain, ← hf.malformed]
  have hdrop : (chunks.take k).flatten.drop (frames.flatMap wire).length = more := by
    rw [hmore, drop_left]
  rw [hdrop]
  cases htake : f.take more with
  | more => simp [Framer.drain_more htake]
  | bad e => simp [Framer.drain_bad htake]
  | item frame rest =>
    obtain ⟨hgood, hwire⟩ := f.item_wire _ _ _ htake
    rw [hf.wire] at hwire
    refine absurd ⟨rest ++ (chunks.drop k).flatten, ?_⟩ (hcut.last frame ((hf.good frame).mp hgood))
    rw [htail, hwire, append_assoc]

theorem reads_iff (hf : Reader lanes f) (h : Drains f push) (chunks : List Bytes) :
    Reads lanes push chunks ↔ Apart lanes chunks := by
  have hheld : ∀ k held, heldAfter push [] (chunks.take k) = some held →
      held.length < maxFrameBytes := fun k held hafter =>
    hf.short held (take_heldAfter h hf.nil hafter)
  have hitems := Framer.feed_items hf.nil chunks
  have hfault := fault_iff hf chunks.flatten
  have hcut : Cut lanes chunks.flatten (f.drain chunks.flatten).items _ :=
    (cut_iff hf).mpr ⟨rfl, rfl⟩
  rw [nil_append] at hitems
  have hframes : (∃ tail, Cut lanes chunks.flatten (readAll push [] chunks).1 tail) ↔
      Apart lanes chunks := by
    rw [readAll_eq h]
    constructor
    · rintro ⟨tail, htail⟩ frames tail' hcut' hbad
      obtain ⟨hsame, -⟩ := (cut_iff hf).mp htail
      rw [((cut_iff hf).mp hcut').2, ← hfault] at hbad
      rcases hitems.mp hsame with hnone | ⟨k, hk⟩
      · rw [hnone] at hbad
        cases hbad
      · exact ⟨k, (between_iff hf hcut' k).mp hk⟩
    · intro hapart
      refine ⟨_, (cut_iff hf).mpr ⟨hitems.mpr ?_, rfl⟩⟩
      cases hsome : (f.drain chunks.flatten).fault with
      | none => exact .inl rfl
      | some e =>
        rw [hsome] at hfault
        obtain ⟨k, hk⟩ := hapart _ _ hcut (hfault.mp rfl)
        exact .inr ⟨k, (between_iff hf hcut k).mpr hk⟩
  exact ⟨fun hr => hframes.mp hr.frames,
    fun ha => ⟨hframes.mpr ha, fun k => error_iff hf h _, hheld⟩⟩

theorem drains_ts : Drains tsFramer MeshDataFrameReader.push where
  fault held chunk e h := by simp only [MeshDataFrameReader.push, h]
  ok held chunk h := by simp only [MeshDataFrameReader.push, h]

theorem drains_rust : Drains rustFramer FrameReader.push where
  fault held chunk e h := by simp only [FrameReader.push, h]
  ok held chunk h := by simp only [FrameReader.push, h]

/-! ## The encoders -/

theorem encode_ok {kind laneId : Num} {payload bytes : Bytes}
    (h : encodeMeshDataFrame kind laneId payload = .ok bytes) :
    ∃ frame, WellFormed maxSafeInteger frame ∧ bytes = wire frame ∧
      kind = .int frame.kind.toNat ∧ laneId = .int frame.laneId ∧ payload = frame.payload := by
  cases kind with
  | other => cases h
  | int kind =>
    simp only [encodeMeshDataFrame] at h
    split at h
    · cases h
    cases laneId with
    | other => cases h
    | int laneId =>
      simp only at h
      split at h
      · cases h
      split at h
      · cases h
      next hkind hlane hsize =>
        cases h
        rw [not_or, Int.not_lt, Int.not_lt] at hkind hlane
        refine ⟨{ kind := UInt8.ofNat kind.toNat, laneId := laneId.toNat, payload }, ⟨?_, ?_⟩, rfl,
          ?_, ?_, rfl⟩
        · show laneId.toNat ≤ maxSafeInteger
          omega
        · simp only [headerBytes, lengthPrefixBytes] at hsize ⊢
          omega
        · rw [UInt8.toNat_ofNat', Nat.mod_eq_of_lt (by omega), Int.toNat_of_nonneg hkind.1]
        · rw [Int.toNat_of_nonneg hlane.1]

theorem decode_wire {frame : Frame} (h : WellFormed maxSafeInteger frame) :
    decodeMeshDataFrame (wire frame) = .ok frame := by
  have hbody := body_wire h []
  have hkind := kind_wire frame []
  have hlane := laneId_wire (Nat.lt_of_le_of_lt h.laneId (by decide)) []
  have hpayload := payload_wire frame []
  rw [append_nil] at hbody hkind hlane hpayload
  have htotal : (wire frame).length = lengthPrefixBytes + (1 + 8 + frame.payload.length) := by
    rw [length_wire, headerBytes, lengthPrefixBytes]
    omega
  have hrest : 1 + 8 + frame.payload.length - minBodyBytes = frame.payload.length := by
    rw [minBodyBytes]
    omega
  have hdecode := decode_take hbody (by rw [minBodyBytes]; omega) (Nat.le_of_eq htotal.symm)
  rw [← htotal, take_length] at hdecode
  simp only [hdecode, hlane, if_neg (Nat.not_lt.mpr h.laneId), hkind, hrest, hpayload]

theorem encodeFrame_ok {kind : UInt8} {laneId : UInt64} {payload bytes : Bytes}
    (h : encodeFrame kind laneId payload = .ok bytes) :
    bytes = wire { kind, laneId := laneId.toNat, payload } := by
  simp only [encodeFrame] at h
  split at h
  · cases h
    rfl
  · cases h

/-- Both readers deliver the well-formed frames before the first malformed one just where a chunk
ends between them. -/
theorem framed_iff (chunks : List Bytes) :
    Framed chunks ↔ Apart maxSafeInteger chunks ∧ Apart (2 ^ 64 - 1) chunks := by
  have hts : Reads maxSafeInteger MeshDataFrameReader.push chunks ↔ Apart maxSafeInteger chunks :=
    reads_iff reader_framer drains_ts chunks
  have hrust : Reads (2 ^ 64 - 1) FrameReader.push chunks ↔ Apart (2 ^ 64 - 1) chunks :=
    reads_iff reader_framer drains_rust chunks
  constructor
  · exact fun h => ⟨hts.mp h.ts, hrust.mp h.rust⟩
  · rintro ⟨htsApart, hrustApart⟩
    refine ⟨hts.mpr htsApart, hrust.mpr hrustApart, fun kind laneId payload bytes h => ?_,
      fun kind laneId payload a b ha hb => ?_⟩
    · obtain ⟨frame, hwell, rfl, hkind, hlane, hpayload⟩ := encode_ok h
      exact ⟨frame, decode_wire hwell, hkind, hlane, hpayload⟩
    · obtain ⟨frame, -, rfl, hkind, hlane, rfl⟩ := encode_ok ha
      have hkind : kind = frame.kind :=
        UInt8.toNat_inj.mp (Int.ofNat_inj.mp (Num.int.inj hkind))
      have hlane : laneId.toNat = frame.laneId := Int.ofNat_inj.mp (Num.int.inj hlane)
      rw [encodeFrame_ok hb, hkind, hlane]

def spoilt : Bytes := wire { kind := 3, laneId := 0, payload := [] } ++ [0, 0, 0, 0]

/-- The frame is lost where the length comes in its chunk. -/
theorem not_framed : ¬Framed [spoilt] := by
  intro h
  obtain ⟨tail, hcut⟩ := h.rust.frames
  have hnone : (readAll FrameReader.push [] [spoilt]).1 = [] := by decide
  rw [hnone] at hcut
  refine hcut.last { kind := 3, laneId := 0, payload := [] } ⟨by decide, by decide⟩ ?_
  exact ⟨[0, 0, 0, 0], hcut.stream⟩

end VibeField.Contracts.MeshData
