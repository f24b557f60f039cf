import VibeField.Tp.Jcs

/-!
# The other writer of canonical JSON

The issuer of a grant writes its text in JavaScript.  Its strings are UTF-16 units, its
numbers doubles, and `JSON.stringify` writes each scalar.  A surrogate that stands alone is
escaped; a text read from UTF-8 has none.  The text is signed as UTF-8.
-/

namespace VibeField.Contracts

open Double Json Tp.Jcs List

/-! ## JavaScript's values and scalars -/

/-- The values JSON can carry, of the numbers the integers. -/
inductive JsValue where
  | null
  | boolean (b : Bool)
  | number (n : Int)
  | string (s : List UInt16)
  | array (items : List JsValue)
  | object (members : List (List UInt16 × JsValue))

def ascii (text : List Char) : List UInt16 := text.map fun c => UInt16.ofNat c.toNat

def numberToString (x : Int) : List Char :=
  let magnitude (x : Nat) : List Char :=
    let (s, zeros) := shortest x
    let digits := Nat.toDigits 10 s
    let k := digits.length
    let n := k + zeros
    if k ≤ n ∧ n ≤ 21 then digits ++ List.replicate (n - k) '0'
    else if k = 1 then digits ++ ['e', '+'] ++ Nat.toDigits 10 (n - 1)
    else digits.take 1 ++ ['.'] ++ digits.drop 1 ++ ['e', '+'] ++ Nat.toDigits 10 (n - 1)
  if x = 0 then ['0']
  else if x < 0 then '-' :: magnitude x.natAbs
  else magnitude x.natAbs

def unicodeEscape (u : UInt16) : List UInt16 :=
  let n := u.toNat
  ascii ['\\', 'u', hexDigit (n / 4096), hexDigit (n / 256 % 16), hexDigit (n / 16 % 16),
    hexDigit (n % 16)]

def quoteUnit (u : UInt16) : List UInt16 :=
  if u = 0x08 then ascii ['\\', 'b']
  else if u = 0x09 then ascii ['\\', 't']
  else if u = 0x0A then ascii ['\\', 'n']
  else if u = 0x0C then ascii ['\\', 'f']
  else if u = 0x0D then ascii ['\\', 'r']
  else if u = 0x22 then ascii ['\\', '"']
  else if u = 0x5C then ascii ['\\', '\\']
  else if u.toNat < 0x20 ∨ Utf16.isHigh u ∨ Utf16.isLow u then unicodeEscape u
  else [u]

def quoteUnits : List UInt16 → List UInt16
  | [] => []
  | [u] => quoteUnit u
  | u :: v :: rest =>
    if Utf16.isHigh u && Utf16.isLow v then u :: v :: quoteUnits rest
    else quoteUnit u ++ quoteUnits (v :: rest)

def stringifyString (s : List UInt16) : List UInt16 :=
  ascii ['"'] ++ quoteUnits s ++ ascii ['"']

/-! ## The writer -/

mutual

def canonicalJson : JsValue → List UInt16
  | .null => ascii ['n', 'u', 'l', 'l']
  | .boolean true => ascii ['t', 'r', 'u', 'e']
  | .boolean false => ascii ['f', 'a', 'l', 's', 'e']
  | .number n => ascii (numberToString n)
  | .string s => stringifyString s
  | .array items => ascii ['['] ++ commas 44 (canonicalItems items) ++ ascii [']']
  | .object members =>
    let parts := (canonicalMembers members).mergeSort fun a b => Utf16.le a.1 b.1
    ascii ['{'] ++
      commas 44 (parts.map fun e => stringifyString e.1 ++ ascii [':'] ++ e.2) ++ ascii ['}']

def canonicalItems : List JsValue → List (List UInt16)
  | [] => []
  | v :: rest => canonicalJson v :: canonicalItems rest

def canonicalMembers : List (List UInt16 × JsValue) → List (List UInt16 × List UInt16)
  | [] => []
  | (k, v) :: rest => (k, canonicalJson v) :: canonicalMembers rest

end

def utf8 (text : List UInt16) : ByteArray := (String.ofList (Utf16.decode text)).toUTF8

/-! ## A value as JavaScript reads it -/

mutual

def read : Json → JsValue
  | .null => .null
  | .bool b => .boolean b
  | .int n => .number (asF64 n)
  | .str s => .string (Utf16.encode s.toList)
  | .arr items => .array (readItems items)
  | .obj fields => .object (readFields fields)

def readItems : List Json → List JsValue
  | [] => []
  | v :: rest => read v :: readItems rest

def readFields : List (String × Json) → List (List UInt16 × JsValue)
  | [] => []
  | (k, v) :: rest => (Utf16.encode k.toList, read v) :: readFields rest

end

/-! ## The two writers agree -/

theorem encode_ascii {text : List Char} (h : ∀ c ∈ text, c.toNat < 0x10000) :
    Utf16.encode text = ascii text := by
  induction text with
  | nil => rfl
  | cons c rest ih =>
    have hc : Utf16.units c = [UInt16.ofNat c.toNat] := if_pos (h c mem_cons_self)
    rw [Utf16.encode, flatMap_cons, hc]
    exact congrArg (List.cons _) (ih fun d hd => h d (mem_cons_of_mem c hd))

theorem numberToString_eq {x : Int} (hx : IsDouble x.natAbs) (hle : x.natAbs ≤ 2 ^ 64) :
    numberToString x = decimal (x.sign * printed x.natAbs) := by
  rw [← esNumberToString_eq hx hle]
  unfold numberToString esNumberToString
  by_cases hzero : x = 0
  · rw [if_pos hzero, if_pos hzero]
  · rw [if_neg hzero, if_neg hzero]
    have hk : ∀ k zeros : Nat, (k ≤ k + zeros ∧ k + zeros ≤ 21) = (k + zeros ≤ 21) := fun k zeros =>
      propext ⟨fun h => h.2, fun h => ⟨Nat.le_add_right k zeros, h⟩⟩
    simp only [hk, Nat.add_sub_cancel_left]
    by_cases hneg : x < 0
    · rw [if_pos hneg, if_pos hneg]
      split
      · rfl
      · split <;> rfl
    · rw [if_neg hneg, if_neg hneg]
      rfl

theorem numberToString_asF64 {n : Int} (h : InRange n) :
    numberToString (asF64 n) = writeInteger n := by
  have hdouble : IsDouble (asF64 n).natAbs := by
    rw [asF64_natAbs]
    exact isDouble_toDouble _
  have hle : (asF64 n).natAbs ≤ 2 ^ 64 := by
    rw [asF64_natAbs]
    exact toDouble_le (b := 63) (natAbs_le h)
  rw [numberToString_eq hdouble hle, writeInteger_eq h, spoken_eq]

theorem quoteUnit_ascii : ∀ n < 128,
    quoteUnit (UInt16.ofNat n) = Utf16.encode (escape (Char.ofNat n)) := by
  decide +kernel

theorem escape_of_le {c : Char} (h : 128 ≤ c.toNat) : escape c = [c] := by
  have hne : ∀ d : Char, d.toNat < 128 → c ≠ d := by
    rintro d hd rfl
    omega
  unfold escape
  rw [if_neg (hne _ (by decide)), if_neg (hne _ (by decide)), if_neg (hne _ (by decide)),
    if_neg (hne _ (by decide)), if_neg (hne _ (by decide)), if_neg (hne _ (by decide)),
    if_neg (hne _ (by decide)), if_neg (by omega)]

theorem quoteUnit_of_le {c : Char} (h : 128 ≤ c.toNat) (hplane : c.toNat < 0x10000) :
    quoteUnit (UInt16.ofNat c.toNat) = [UInt16.ofNat c.toNat] := by
  have hne : ∀ u : UInt16, u.toNat < 128 → UInt16.ofNat c.toNat ≠ u := by
    rintro u hu rfl
    rw [Utf16.toNat_ofNat hplane] at hu
    omega
  obtain ⟨hhigh, hlow⟩ := Utf16.not_surrogate_unit (Utf16.not_surrogate c) hplane
  have hlast : ¬ ((UInt16.ofNat c.toNat).toNat < 0x20 ∨
      Utf16.isHigh (UInt16.ofNat c.toNat) = true ∨ Utf16.isLow (UInt16.ofNat c.toNat) = true) := by
    rw [Utf16.toNat_ofNat hplane, hhigh, hlow]
    rintro (hcontrol | hfalse | hfalse)
    · omega
    · cases hfalse
    · cases hfalse
  unfold quoteUnit
  rw [if_neg (hne _ (by decide)), if_neg (hne _ (by decide)), if_neg (hne _ (by decide)),
    if_neg (hne _ (by decide)), if_neg (hne _ (by decide)), if_neg (hne _ (by decide)),
    if_neg (hne _ (by decide)), if_neg hlast]

theorem quoteUnits_single {u : UInt16} (h : Utf16.isHigh u = false) (rest : List UInt16) :
    quoteUnits (u :: rest) = quoteUnit u ++ quoteUnits rest := by
  cases rest with
  | nil => exact (append_nil _).symm
  | cons v rest =>
    rw [quoteUnits, h]
    rfl

theorem quoteUnits_units (c : Char) (rest : List UInt16) :
    quoteUnits (Utf16.units c ++ rest) = Utf16.encode (escape c) ++ quoteUnits rest := by
  have hlt := Utf16.toNat_lt c
  by_cases hplane : c.toNat < 0x10000
  · obtain ⟨hhigh, _⟩ := Utf16.not_surrogate_unit (Utf16.not_surrogate c) hplane
    have hunits : Utf16.units c = [UInt16.ofNat c.toNat] := if_pos hplane
    rw [hunits, singleton_append, quoteUnits_single hhigh]
    congr 1
    by_cases hascii : c.toNat < 128
    · have hchar := quoteUnit_ascii c.toNat hascii
      rwa [Char.ofNat_toNat] at hchar
    · rw [quoteUnit_of_le (by omega) hplane, escape_of_le (by omega), Utf16.encode,
        flatMap_singleton, hunits]
  · have hdiv : (c.toNat - 0x10000) / 0x400 < 0x400 := by omega
    have hmod : (c.toNat - 0x10000) % 0x400 < 0x400 := by omega
    have hunits : Utf16.units c = [UInt16.ofNat (0xD800 + (c.toNat - 0x10000) / 0x400),
        UInt16.ofNat (0xDC00 + (c.toNat - 0x10000) % 0x400)] := if_neg hplane
    rw [escape_of_le (by omega), Utf16.encode, flatMap_singleton, hunits, cons_append,
      singleton_append, quoteUnits, Utf16.high_toNat _ hdiv, Utf16.low_toNat _ hmod]
    rfl

theorem encode_between (a b : Char) (text : List Char) :
    Utf16.encode (a :: (text ++ [b])) =
      Utf16.encode [a] ++ Utf16.encode text ++ Utf16.encode [b] := by
  rw [← singleton_append, Utf16.encode_append, Utf16.encode_append, append_assoc]

theorem encode_commas (parts : List (List Char)) :
    Utf16.encode (commas ',' parts) = commas 44 (parts.map Utf16.encode) :=
  flatMap_commas (f := Utf16.units) (c := ',') (d := 44) (by decide) parts

theorem stringifyString_encode (s : String) :
    stringifyString (Utf16.encode s.toList) = Utf16.encode (writeString s) := by
  have hbody : ∀ text : List Char,
      quoteUnits (Utf16.encode text) = Utf16.encode (text.flatMap escape) := by
    intro text
    induction text with
    | nil => rfl
    | cons c rest ih =>
      rw [Utf16.encode, flatMap_cons, quoteUnits_units, flatMap_cons, Utf16.encode_append]
      exact congrArg _ ih
  rw [stringifyString, hbody, writeString, encode_between]
  rfl

theorem readItems_eq (items : List Json) : readItems items = items.map read := by
  induction items with
  | nil => rfl
  | cons v rest ih => rw [readItems, ih, map_cons]

theorem readFields_eq (fields : List (String × Json)) :
    readFields fields = fields.map fun e => (Utf16.encode e.1.toList, read e.2) := by
  induction fields with
  | nil => rfl
  | cons e rest ih => rw [readFields, ih, map_cons]

theorem canonicalItems_eq (items : List JsValue) :
    canonicalItems items = items.map canonicalJson := by
  induction items with
  | nil => rfl
  | cons v rest ih => rw [canonicalItems, ih, map_cons]

theorem canonicalMembers_eq (members : List (List UInt16 × JsValue)) :
    canonicalMembers members = members.map fun e => (e.1, canonicalJson e.2) := by
  induction members with
  | nil => rfl
  | cons e rest ih => rw [canonicalMembers, ih, map_cons]

theorem writeInteger_bmp {n : Int} (h : InRange n) :
    ∀ c ∈ writeInteger n, c.toNat < 0x10000 := by
  have hdigits : ∀ k : Nat, ∀ c ∈ Nat.toDigits 10 k, c.toNat < 0x10000 := by
    intro k c hc
    have hdigit := Nat.isDigit_of_mem_toDigits (b := 10) (by omega) (by omega) hc
    have hle := (Char.isDigit_iff_toNat.mp hdigit).2
    show c.toNat < 0x10000
    exact Nat.lt_of_le_of_lt hle (by decide)
  rw [writeInteger_eq h]
  intro c hc
  cases hspoken : spoken n with
  | ofNat k =>
    rw [hspoken] at hc
    exact hdigits k c hc
  | negSucc k =>
    rw [hspoken] at hc
    rcases mem_cons.mp hc with rfl | hc
    · decide
    · exact hdigits (k + 1) c hc

theorem sort_encode (members : List (String × List Char)) :
    ((members.map fun e => (Utf16.encode e.1.toList, Utf16.encode e.2)).mergeSort
        fun a b => Utf16.le a.1 b.1) =
      (members.mergeSort fun a b => keyLe a.1 b.1).map
        fun e => (Utf16.encode e.1.toList, Utf16.encode e.2) := by
  rw [map_mergeSort]
  intro a _ b _
  rfl

theorem canonicalJson_read {v : Json} (h : Valid InRange v) :
    canonicalJson (read v) = Utf16.encode (writeValue v) := by
  induction h with
  | null => rfl
  | bool b => cases b <;> rfl
  | int n hn =>
    rw [read, canonicalJson, numberToString_asF64 hn, writeValue,
      encode_ascii (writeInteger_bmp hn)]
  | str s => rw [read, canonicalJson, stringifyString_encode, writeValue]
  | arr items _ ih =>
    rw [read, readItems_eq, canonicalJson, canonicalItems_eq, map_map, writeValue,
      writeItems_eq, encode_between, encode_commas, map_map]
    have hitems : items.map (canonicalJson ∘ read) = items.map (Utf16.encode ∘ writeValue) :=
      map_congr_left ih
    rw [hitems]
    rfl
  | obj fields _ _ ih =>
    have hmembers : canonicalMembers (readFields fields) =
        (writeFields fields).map fun e => (Utf16.encode e.1.toList, Utf16.encode e.2) := by
      rw [canonicalMembers_eq, readFields_eq, writeFields_eq, map_map, map_map]
      exact map_congr_left fun e he => congrArg (Prod.mk _) (ih e he)
    have hparts : ∀ members : List (String × List Char),
        (members.map fun e => (Utf16.encode e.1.toList, Utf16.encode e.2)).map
            (fun e => stringifyString e.1 ++ ascii [':'] ++ e.2) =
          (members.map fun e => writeString e.1 ++ ':' :: e.2).map Utf16.encode := by
      intro members
      rw [map_map, map_map]
      refine map_congr_left fun e _ => ?_
      show stringifyString (Utf16.encode e.1.toList) ++ ascii [':'] ++ Utf16.encode e.2 =
        Utf16.encode (writeString e.1 ++ ([':'] ++ e.2))
      rw [stringifyString_encode, Utf16.encode_append, Utf16.encode_append, append_assoc]
      rfl
    rw [read, canonicalJson, hmembers, sort_encode, hparts, writeValue, encode_between,
      encode_commas]
    rfl

end VibeField.Contracts
