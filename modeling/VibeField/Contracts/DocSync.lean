import VibeField.Base.Slices
import VibeField.Tp.Jcs

/-!
# The records of document sync

A record is a kind, the length of its meta, the meta as JSON and the payload.  One too large for
a frame is cut into CHUNK records, whose meta says the transfer, the slice's index, how many
there are and how long the whole is.  How a CHUNK's meta is written and read is a parameter: its
JSON text, and what the reader's schema accepts of it.
-/

namespace VibeField.Contracts

open List Option

abbrev Bytes := List UInt8

/-! ## Frames -/

def docSyncHeaderBytes : Nat := 5

def chunkKind : UInt8 := 5

def setUint32 (n : Nat) : Bytes :=
  [UInt8.ofNat (n / 2 ^ 24), UInt8.ofNat (n / 2 ^ 16), UInt8.ofNat (n / 2 ^ 8), UInt8.ofNat n]

def getUint32 (b : Bytes) : Nat := b.foldl (fun acc x => acc * 256 + x.toNat) 0

theorem getUint32_setUint32 {n : Nat} (h : n < 2 ^ 32) : getUint32 (setUint32 n) = n := by
  simp only [getUint32, setUint32, foldl_cons, foldl_nil, UInt8.toNat_ofNat']
  omega

def encodeFrame (kind : UInt8) (metaBytes payload : Bytes) : Bytes :=
  kind :: (setUint32 metaBytes.length ++ (metaBytes ++ payload))

def splitFrame (data : Bytes) : Option (UInt8 × Bytes × Bytes) :=
  match data with
  | [] => none
  | kind :: rest =>
    if data.length < docSyncHeaderBytes then none
    else
      let metaLen := getUint32 (rest.take 4)
      if docSyncHeaderBytes + metaLen > data.length then none
      else some (kind, (rest.drop 4).take metaLen, (rest.drop 4).drop metaLen)

theorem splitFrame_encodeFrame (kind : UInt8) {metaBytes : Bytes} (payload : Bytes)
    (h : metaBytes.length < 2 ^ 32) :
    splitFrame (encodeFrame kind metaBytes payload) = some (kind, metaBytes, payload) := by
  have hfour : (setUint32 metaBytes.length).length = 4 := rfl
  have htake : (setUint32 metaBytes.length ++ (metaBytes ++ payload)).take 4 =
      setUint32 metaBytes.length := take_left' hfour
  have hdrop : (setUint32 metaBytes.length ++ (metaBytes ++ payload)).drop 4 =
      metaBytes ++ payload := drop_left' hfour
  rw [encodeFrame, splitFrame, htake, hdrop, getUint32_setUint32 h]
  have hlen : (kind :: (setUint32 metaBytes.length ++ (metaBytes ++ payload))).length =
      5 + (metaBytes.length + payload.length) := by
    simp [hfour]
    omega
  rw [hlen, if_neg (by rw [docSyncHeaderBytes]; omega)]
  dsimp only
  rw [if_neg (by rw [docSyncHeaderBytes]; omega), take_left' rfl, drop_left' rfl]

/-! ## Chunks -/

structure DocSyncChunkMeta where
  transfer : String
  index : Nat
  count : Nat
  byteLength : Nat
  deriving DecidableEq, Repr

/-- What the schema asks of the meta of a chunk that is sent. -/
structure DocSyncChunkMeta.Valid (m : DocSyncChunkMeta) : Prop where
  transfer_pos : 0 < (Utf16.encode m.transfer.toList).length
  transfer_le : (Utf16.encode m.transfer.toList).length ≤ 64
  index_lt : m.index < m.count
  count_le : m.count ≤ m.byteLength
  byteLength_le : m.byteLength ≤ 2 ^ 53

/-- How the meta of a chunk is written, and what is read of a meta: none where it is not the
JSON of an object, and `some none` where the schema refuses it. -/
structure ChunkText where
  write : DocSyncChunkMeta → Bytes
  read : Bytes → Option (Option DocSyncChunkMeta)
  read_write : ∀ m : DocSyncChunkMeta, m.Valid → read (write m) = some (some m)
  write_short : ∀ m : DocSyncChunkMeta, m.Valid → (write m).length < 2 ^ 32

/-- A record that was read; `chunk` is what the schema of chunks makes of its meta. -/
structure DocSyncFrame where
  kind : UInt8
  chunk : Option DocSyncChunkMeta
  payload : Bytes
  deriving DecidableEq

def decodeDocSyncFrame (text : ChunkText) (data : Bytes) : Option DocSyncFrame :=
  (splitFrame data).bind fun (kind, metaBytes, payload) =>
    (text.read metaBytes).map fun chunk => { kind := kind, chunk := chunk, payload := payload }

def chunkRecord (text : ChunkText) (record : Bytes) (transfer : String) (chunkBytes index : Nat) :
    Bytes :=
  encodeFrame chunkKind
    (text.write
      { transfer := transfer
        index := index
        count := sliceCount record.length chunkBytes
        byteLength := record.length })
    (slice record chunkBytes index)

def chunkDocSyncRecord (text : ChunkText) (record : Bytes) (transfer : String)
    (chunkBytes : Nat) : Option (List Bytes) :=
  if chunkBytes = 0 then none
  else if record.length = 0 then none
  else some ((List.range (sliceCount record.length chunkBytes)).map
    (chunkRecord text record transfer chunkBytes))

theorem decode_encode_chunk (text : ChunkText) {m : DocSyncChunkMeta} (h : m.Valid)
    (payload : Bytes) :
    decodeDocSyncFrame text (encodeFrame chunkKind (text.write m) payload) =
      some { kind := chunkKind, chunk := some m, payload := payload } := by
  rw [decodeDocSyncFrame, splitFrame_encodeFrame _ payload (text.write_short m h),
    bind_some]
  dsimp only
  rw [text.read_write m h]
  rfl

/-! ## The text of a chunk's meta -/

open Tp.Jcs

def beforeTransfer : List Char := "\x7b\"transfer\":\"".toList
def beforeIndex : List Char := ",\"index\":".toList
def beforeCount : List Char := "\"count\":".toList
def beforeLength : List Char := "\"byteLength\":".toList

def metaText (m : DocSyncChunkMeta) : List Char :=
  beforeTransfer ++ (m.transfer.toList.flatMap escape ++ '"' :: (beforeIndex ++
    (Nat.toDigits 10 m.index ++ ',' :: (beforeCount ++
      (Nat.toDigits 10 m.count ++ ',' :: (beforeLength ++
        (Nat.toDigits 10 m.byteLength ++ ['\x7d'])))))))

def strip (expected text : List Char) : Option (List Char) :=
  if expected.isPrefixOf text then some (text.drop expected.length) else none

def readChars : Nat → List Char → List Char × List Char
  | 0, r => ([], r)
  | fuel + 1, r =>
    match unescape r with
    | none => ([], r)
    | some (c, r') => (c :: (readChars fuel r').1, (readChars fuel r').2)

def readNat (r : List Char) : Nat × List Char :=
  (Nat.ofDigitChars 10 (r.takeWhile Char.isDigit) 0, r.dropWhile Char.isDigit)

def readMeta (text : List Char) : Option DocSyncChunkMeta := do
  let (transfer, r) := readChars text.length (← strip beforeTransfer text)
  let (index, r) := readNat (← strip ('"' :: beforeIndex) r)
  let (count, r) := readNat (← strip (',' :: beforeCount) r)
  let (byteLength, r) := readNat (← strip (',' :: beforeLength) r)
  if r = ['\x7d'] then
    some
      { transfer := String.ofList transfer
        index := index
        count := count
        byteLength := byteLength }
  else none

theorem strip_append (expected r : List Char) : strip expected (expected ++ r) = some r := by
  rw [strip, if_pos (by simp), drop_left]

theorem escape_ne_nil (c : Char) : escape c ≠ [] := by
  unfold escape
  repeat' split
  all_goals exact cons_ne_nil _ _

theorem length_escape (c : Char) : (escape c).length ≤ 6 := by
  unfold escape
  repeat' split
  all_goals simp

theorem readChars_escape (s r : List Char) {fuel : Nat} (h : s.length < fuel) :
    readChars fuel (s.flatMap escape ++ '"' :: r) = (s, '"' :: r) := by
  induction s generalizing fuel with
  | nil =>
    cases fuel with
    | zero => rfl
    | succ fuel => rfl
  | cons c s ih =>
    cases fuel with
    | zero => cases h
    | succ fuel =>
      rw [flatMap_cons, append_assoc, readChars, unescape_escape]
      dsimp only
      rw [ih (by simpa using h)]

theorem readNat_digits (n : Nat) {c : Char} (hc : c.isDigit = false) (r : List Char) :
    readNat (Nat.toDigits 10 n ++ c :: r) = (n, c :: r) := by
  have hdigits : ∀ d ∈ Nat.toDigits 10 n, d.isDigit = true := fun d hd =>
    Nat.isDigit_of_mem_toDigits (by decide) (by decide) hd
  rw [readNat, takeWhile_append_of_pos hdigits, dropWhile_append_of_pos hdigits,
    takeWhile_cons_of_neg (by simp [hc]), dropWhile_cons_of_neg (by simp [hc]),
    append_nil, Nat.ofDigitChars_ten_toDigits]

theorem length_flatMap_escape (s : List Char) : s.length ≤ (s.flatMap escape).length := by
  induction s with
  | nil => exact Nat.le_refl _
  | cons c s ih =>
    have hpos : 0 < (escape c).length := length_pos_of_ne_nil (escape_ne_nil c)
    rw [flatMap_cons, length_append, length_cons]
    omega

theorem strip_cons_append (c : Char) (expected r : List Char) :
    strip (c :: expected) (c :: (expected ++ r)) = some r :=
  strip_append (c :: expected) r

theorem readMeta_metaText (m : DocSyncChunkMeta) : readMeta (metaText m) = some m := by
  have hfuel : m.transfer.toList.length < (metaText m).length := by
    have hle := length_flatMap_escape m.transfer.toList
    simp only [metaText, length_append, length_cons]
    omega
  unfold readMeta
  generalize (metaText m).length = fuel at hfuel ⊢
  rw [metaText, strip_append]
  simp only [bind_eq_bind, bind_some]
  rw [readChars_escape _ _ hfuel]
  simp only [strip_cons_append, bind_some]
  rw [readNat_digits _ (by decide)]
  simp only [strip_cons_append, bind_some]
  rw [readNat_digits _ (by decide)]
  simp only [strip_cons_append, bind_some]
  rw [readNat_digits _ (by decide), if_pos rfl, String.ofList_toList]

def encodeText (text : List Char) : Bytes := text.flatMap String.utf8EncodeChar

def decodeText (b : Bytes) : Option (List Char) :=
  (String.fromUTF8? b.toByteArray).map String.toList

theorem decodeText_encodeText (text : List Char) : decodeText (encodeText text) = some text := by
  have hbytes : (encodeText text).toByteArray = (String.ofList text).toByteArray := by
    rw [String.toByteArray_ofList, List.utf8Encode, encodeText]
  have hvalid := (String.ofList text).isValidUTF8
  rw [decodeText, hbytes, String.fromUTF8?, dif_pos hvalid]
  exact congrArg some String.toList_ofList

theorem length_encodeText (text : List Char) : (encodeText text).length ≤ 4 * text.length := by
  induction text with
  | nil => exact Nat.le_refl _
  | cons c text ih =>
    have hc : (String.utf8EncodeChar c).length ≤ 4 := by
      rw [String.length_utf8EncodeChar]
      exact Char.utf8Size_le_four c
    rw [encodeText] at ih ⊢
    rw [flatMap_cons, length_append, length_cons]
    omega

theorem length_flatMap_escape_le (s : List Char) : (s.flatMap escape).length ≤ 6 * s.length := by
  induction s with
  | nil => exact Nat.le_refl _
  | cons c s ih =>
    have hc := length_escape c
    rw [flatMap_cons, length_append, length_cons]
    omega

theorem length_le_units (s : List Char) : s.length ≤ (Utf16.encode s).length := by
  induction s with
  | nil => exact Nat.le_refl _
  | cons c s ih =>
    have hc : 0 < (Utf16.units c).length := by
      rw [Utf16.units]
      split <;> simp
    rw [Utf16.encode] at ih ⊢
    rw [flatMap_cons, length_append, length_cons]
    omega

theorem length_digits {n : Nat} (h : n ≤ 2 ^ 53) : (Nat.toDigits 10 n).length ≤ 16 :=
  (Nat.length_toDigits_le_iff (by decide) (by decide)).mpr (by omega)

theorem length_metaText {m : DocSyncChunkMeta} (h : m.Valid) : (metaText m).length ≤ 500 := by
  have hunits := length_le_units m.transfer.toList
  have htransfer := length_flatMap_escape_le m.transfer.toList
  have hle := h.transfer_le
  have hindex := length_digits (n := m.index) (by
    have hlt := h.index_lt
    have hcount := h.count_le
    have hlength := h.byteLength_le
    omega)
  have hcount := length_digits (Nat.le_trans h.count_le h.byteLength_le)
  have hlength := length_digits h.byteLength_le
  have h1 : beforeTransfer.length = 13 := by decide
  have h2 : beforeIndex.length = 9 := by decide
  have h3 : beforeCount.length = 8 := by decide
  have h4 : beforeLength.length = 13 := by decide
  simp only [metaText, length_append, length_cons, length_nil]
  omega

def jsonText : ChunkText where
  write m := encodeText (metaText m)
  read b := (decodeText b).map readMeta
  read_write := by
    intro m _
    rw [decodeText_encodeText, Option.map_some, readMeta_metaText]
  write_short := by
    intro m h
    have hbytes := length_encodeText (metaText m)
    have htext := length_metaText h
    omega

end VibeField.Contracts
