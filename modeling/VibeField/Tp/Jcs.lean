import VibeField.Base.Double
import VibeField.Base.JsonText
import VibeField.Base.Utf16

/-!
# Canonical JSON

The text a grant's signature covers: no white space, the members of an object by the UTF-16
code units of their names, strings escaped as `JSON.stringify` escapes them, and numbers
printed as ECMAScript prints them.  An integer past `2 ^ 53` is first widened to the double
a JavaScript reader would have parsed.  Values here have no numbers but integers.
-/

namespace VibeField.Tp.Jcs

open Double Json List

/-! ## Strings -/

def hexDigit (n : Nat) : Char := Char.ofNat (if n < 10 then 48 + n else 87 + n)

def escape (c : Char) : List Char :=
  if c = '"' then ['\\', '"']
  else if c = '\\' then ['\\', '\\']
  else if c = '\x08' then ['\\', 'b']
  else if c = '\x0c' then ['\\', 'f']
  else if c = '\n' then ['\\', 'n']
  else if c = '\r' then ['\\', 'r']
  else if c = '\t' then ['\\', 't']
  else if c.toNat < 0x20 then
    ['\\', 'u', '0', '0', hexDigit (c.toNat / 16), hexDigit (c.toNat % 16)]
  else [c]

def writeString (s : String) : List Char := '"' :: (s.toList.flatMap escape ++ ['"'])

/-! ## Numbers -/

def maxSafeInteger : Nat := 9007199254740992

def asF64 (i : Int) : Int := i.sign * toDouble i.natAbs

def esNumberToString (f : Int) : List Char :=
  if f = 0 then ['0']
  else
    let (digits, zeros) := shortest f.natAbs
    let digits := Nat.toDigits 10 digits
    let k := digits.length
    let n := k + zeros
    let sign := if f < 0 then ['-'] else []
    if n ≤ 21 then sign ++ digits ++ List.replicate zeros '0'
    else if k = 1 then sign ++ digits ++ ['e', '+'] ++ Nat.toDigits 10 (n - 1)
    else
      sign ++ digits.take 1 ++ ['.'] ++ digits.drop 1 ++ ['e', '+'] ++ Nat.toDigits 10 (n - 1)

def writeInteger (i : Int) : List Char :=
  if i.natAbs ≤ maxSafeInteger then decimal i else esNumberToString (asF64 i)

/-! ## Values -/

def keyLe (a b : String) : Bool := Utf16.le (Utf16.encode a.toList) (Utf16.encode b.toList)

mutual

def writeValue : Json → List Char
  | .null => ['n', 'u', 'l', 'l']
  | .bool true => ['t', 'r', 'u', 'e']
  | .bool false => ['f', 'a', 'l', 's', 'e']
  | .int n => writeInteger n
  | .str s => writeString s
  | .arr items => '[' :: (commas ',' (writeItems items) ++ [']'])
  | .obj fields =>
    let members := (writeFields fields).mergeSort fun a b => keyLe a.1 b.1
    '{' :: (commas ',' (members.map fun e => writeString e.1 ++ ':' :: e.2) ++ ['}'])

def writeItems : List Json → List (List Char)
  | [] => []
  | v :: rest => writeValue v :: writeItems rest

def writeFields : List (String × Json) → List (String × List Char)
  | [] => []
  | (k, v) :: rest => (k, writeValue v) :: writeFields rest

end

def canonicalJson (value : Json) : String := String.ofList (writeValue value)

/-! ## The quoting of strings -/

def hexVal (c : Char) : Nat := if c.toNat < 58 then c.toNat - 48 else c.toNat - 87

def unescape : List Char → Option (Char × List Char)
  | '\\' :: '"' :: r => some ('"', r)
  | '\\' :: '\\' :: r => some ('\\', r)
  | '\\' :: 'b' :: r => some ('\x08', r)
  | '\\' :: 'f' :: r => some ('\x0c', r)
  | '\\' :: 'n' :: r => some ('\n', r)
  | '\\' :: 'r' :: r => some ('\r', r)
  | '\\' :: 't' :: r => some ('\t', r)
  | '\\' :: 'u' :: '0' :: '0' :: a :: b :: r => some (Char.ofNat (hexVal a * 16 + hexVal b), r)
  | '"' :: _ => none
  | c :: r => some (c, r)
  | [] => none

theorem hexVal_hexDigit : ∀ n < 16, hexVal (hexDigit n) = n := by decide

theorem unescape_escape (c : Char) (r : List Char) : unescape (escape c ++ r) = some (c, r) := by
  unfold escape
  repeat' split
  all_goals first
    | next hc => subst hc; rfl
    | next hc =>
      show some (Char.ofNat (hexVal (hexDigit (c.toNat / 16)) * 16 +
        hexVal (hexDigit (c.toNat % 16))), r) = some (c, r)
      rw [hexVal_hexDigit _ (by omega), hexVal_hexDigit _ (by omega),
        show c.toNat / 16 * 16 + c.toNat % 16 = c.toNat by omega, Char.ofNat_toNat]
    | skip
  next hquote hback _ _ _ _ _ _ =>
    show unescape (c :: r) = some (c, r)
    unfold unescape
    split <;> simp_all

theorem escaped_inj {s t r r' : List Char}
    (h : s.flatMap escape ++ '"' :: r = t.flatMap escape ++ '"' :: r') : s = t ∧ r = r' := by
  induction s generalizing t with
  | nil =>
    cases t with
    | nil => exact ⟨rfl, (List.cons.inj h).2⟩
    | cons d t =>
      rw [flatMap_cons, append_assoc] at h
      have hread := unescape_escape d (t.flatMap escape ++ '"' :: r')
      rw [← h] at hread
      cases hread
  | cons c s ih =>
    rw [flatMap_cons, append_assoc] at h
    have hread := unescape_escape c (s.flatMap escape ++ '"' :: r)
    rw [h] at hread
    cases t with
    | nil => cases hread
    | cons d t =>
      rw [flatMap_cons, append_assoc, unescape_escape] at hread
      obtain ⟨rfl, hrest⟩ := Prod.mk.inj (Option.some.inj hread)
      obtain ⟨rfl, hr⟩ := ih hrest.symm
      exact ⟨rfl, hr⟩

def quoting : Quoting where
  quote := writeString
  starts s := ⟨_, rfl⟩
  reads {s t r r'} h := by
    unfold writeString at h
    rw [List.cons_append, List.cons_append, List.append_assoc, List.append_assoc] at h
    obtain ⟨hst, hr⟩ := escaped_inj (List.cons.inj h).2
    exact ⟨String.toList_inj.mp hst, hr⟩

theorem keyOrder : KeyOrder keyLe where
  total a b := Utf16.le_total _ _
  trans a b c := Utf16.le_trans _ _ _
  antisymm a b h h' := by
    have heq := Utf16.le_antisymm _ _ h h'
    exact String.toList_inj.mp (Utf16.encode_inj heq)

/-! ## What is written of an integer -/

/-- The integers a parsed value holds: signed or unsigned words. -/
def InRange (n : Int) : Prop := -2 ^ 63 ≤ n ∧ n < 2 ^ 64

def spoken (n : Int) : Int := n.sign * printed (toDouble n.natAbs)

theorem natAbs_le {n : Int} (h : InRange n) : n.natAbs < 2 ^ 64 := by
  obtain ⟨hlow, hhigh⟩ := h
  omega

theorem asF64_natAbs (n : Int) : (asF64 n).natAbs = toDouble n.natAbs := by
  rw [asF64, Int.natAbs_mul, Int.natAbs_natCast, Int.natAbs_sign]
  split
  · next h =>
    rw [h]
    rfl
  · exact Nat.one_mul _

theorem toDigits_zeros {d : Nat} (hd : 0 < d) (zeros : Nat) :
    Nat.toDigits 10 d ++ List.replicate zeros '0' = Nat.toDigits 10 (d * 10 ^ zeros) := by
  induction zeros with
  | zero => rw [replicate_zero, append_nil, Nat.pow_zero, Nat.mul_one]
  | succ zeros ih =>
    have hpos : 0 < d * 10 ^ zeros := Nat.mul_pos hd (Nat.pow_pos (by omega))
    have hlast : Nat.toDigits 10 0 = ['0'] := Nat.toDigits_zero 10
    rw [replicate_succ', ← append_assoc, ih, ← hlast,
      Nat.toDigits_append_toDigits (by omega) hpos (by omega), Nat.pow_succ, Nat.add_zero,
      Nat.mul_comm 10, Nat.mul_assoc]

theorem printed_lt {f : Nat} (hf : IsDouble f) (hle : f ≤ 2 ^ 64) : printed f < 10 ^ 21 := by
  by_cases hzero : printed f = 0
  · rw [hzero]
    decide
  · have hlt := lt_two_mul_toDouble (n := printed f) (by omega)
    rw [toDouble_printed hf] at hlt
    omega

theorem shortest_pos {f : Nat} (hf : IsDouble f) (hpos : 0 < f) : 0 < (shortest f).1 := by
  rcases Nat.eq_zero_or_pos (shortest f).1 with hzero | h
  · have hround := toDouble_printed hf
    rw [printed, hzero, Nat.zero_mul, toDouble_small (by omega)] at hround
    omega
  · exact h

theorem esNumberToString_eq {f : Int} (hf : IsDouble f.natAbs) (hle : f.natAbs ≤ 2 ^ 64) :
    esNumberToString f = decimal (f.sign * printed f.natAbs) := by
  unfold esNumberToString
  by_cases hzero : f = 0
  · subst hzero
    rfl
  · have hpos : 0 < f.natAbs := by omega
    have hdigits := shortest_pos hf hpos
    have hlen : (Nat.toDigits 10 (shortest f.natAbs).1).length + (shortest f.natAbs).2 ≤ 21 := by
      have hall : (Nat.toDigits 10 (printed f.natAbs)).length ≤ 21 :=
        (Nat.length_toDigits_le_iff (by omega) (by omega)).mpr (printed_lt hf hle)
      rwa [printed, ← toDigits_zeros hdigits, length_append, length_replicate] at hall
    have hprinted : 0 < printed f.natAbs := Nat.mul_pos hdigits (Nat.pow_pos (by omega))
    rw [if_neg hzero]
    simp only [if_pos hlen]
    rw [append_assoc, toDigits_zeros hdigits]
    show (if f < 0 then ['-'] else []) ++ Nat.toDigits 10 (printed f.natAbs) = _
    generalize printed f.natAbs = n at hprinted
    by_cases hneg : f < 0
    · rw [if_pos hneg, Int.sign_eq_neg_one_of_neg hneg]
      obtain ⟨m, rfl⟩ : ∃ m, n = m + 1 := ⟨n - 1, by omega⟩
      rw [Int.neg_one_mul]
      rfl
    · rw [if_neg hneg, Int.sign_eq_one_of_pos (by omega), Int.one_mul]
      rfl

theorem spoken_small {n : Int} (h : n.natAbs ≤ 2 ^ 53) : spoken n = n := by
  rw [spoken, toDouble_small h, printed_small h, Int.sign_mul_natAbs]

theorem writeInteger_eq {n : Int} (h : InRange n) : writeInteger n = decimal (spoken n) := by
  unfold writeInteger
  by_cases hsmall : n.natAbs ≤ maxSafeInteger
  · rw [if_pos hsmall, spoken_small hsmall]
  · have hlarge : 2 ^ 53 < n.natAbs := by
      show maxSafeInteger < n.natAbs
      omega
    have hpos := toDouble_pos (n := n.natAbs) (by omega)
    have hle : (asF64 n).natAbs ≤ 2 ^ 64 := by
      rw [asF64_natAbs]
      exact toDouble_le (b := 63) (natAbs_le h)
    have hdouble : IsDouble (asF64 n).natAbs := by
      rw [asF64_natAbs]
      exact isDouble_toDouble _
    have hcast : Int.sign (toDouble n.natAbs : Int) = 1 := Int.sign_eq_one_of_pos (by omega)
    have hsign : (asF64 n).sign = n.sign := by
      rw [asF64, Int.sign_mul, Int.sign_sign, hcast, Int.mul_one]
    rw [if_neg hsmall, esNumberToString_eq hdouble hle, hsign, asF64_natAbs]
    rfl

/-! ## What is written of a value -/

theorem writeItems_eq (items : List Json) : writeItems items = items.map writeValue := by
  induction items with
  | nil => rfl
  | cons v rest ih => rw [writeItems, ih, map_cons]

theorem writeFields_eq (fields : List (String × Json)) :
    writeFields fields = fields.map fun e => (e.1, writeValue e.2) := by
  induction fields with
  | nil => rfl
  | cons e rest ih => rw [writeFields, ih, map_cons]

theorem text_comma : Token.text quoting .comma = [','] := rfl

theorem compact_arr (items : List Json) :
    compact quoting (.arr items) = '[' :: (commas ',' (items.map (compact quoting)) ++ [']']) := by
  rw [compact, tokens_arr, flatMap_cons, flatMap_append, flatMap_commas text_comma,
    map_map]
  rfl

theorem compact_obj (fields : List (String × Json)) :
    compact quoting (.obj fields) =
      '{' :: (commas ',' (fields.map fun e => writeString e.1 ++ ':' :: compact quoting e.2) ++
        ['}']) := by
  rw [compact, tokens_obj, flatMap_cons, flatMap_append, flatMap_commas text_comma,
    map_map]
  rfl

theorem writeValue_eq {v : Json} (h : Valid InRange v) :
    writeValue v = compact quoting (sorted keyLe (v.mapInts spoken)) := by
  induction h with
  | null => rfl
  | bool b => cases b <;> rfl
  | int n hn =>
    rw [writeValue, writeInteger_eq hn]
    exact (append_nil _).symm
  | str s => exact (append_nil _).symm
  | arr items _ ih =>
    rw [writeValue, writeItems_eq, mapInts_arr, sorted_arr, compact_arr, map_map,
      map_map, map_congr_left ih]
    rfl
  | obj fields _ _ ih =>
    have hfields : (fields.map fun e => (e.1, writeValue e.2)) =
        ((fields.map fun e => (e.1, e.2.mapInts spoken)).map fun e =>
          (e.1, sorted keyLe e.2)).map fun e => (e.1, compact quoting e.2) := by
      rw [map_map, map_map]
      exact map_congr_left fun e he => congrArg (Prod.mk e.1) (ih e he)
    have hsort := map_mergeSort (f := fun e : String × Json => (e.1, compact quoting e.2))
      (r := fun a b => keyLe a.1 b.1) (s := fun a b => keyLe a.1 b.1)
      (l := (fields.map fun e => (e.1, e.2.mapInts spoken)).map fun e =>
        (e.1, sorted keyLe e.2)) (fun a _ b _ => rfl)
    rw [writeValue, writeFields_eq, mapInts_obj, sorted_obj, compact_obj, hfields]
    show '{' :: (commas ',' ((List.mergeSort _ _).map _) ++ ['}']) = _
    rw [← hsort, map_map]
    rfl

/-! ## Which values have one text -/

def widened (v : Json) : Json := v.mapInts asF64

theorem asF64_sign (n : Int) : (asF64 n).sign = n.sign := by
  by_cases hzero : n = 0
  · subst hzero
    rfl
  · have hpos := toDouble_pos (n := n.natAbs) (by omega)
    have hcast : Int.sign (toDouble n.natAbs : Int) = 1 := Int.sign_eq_one_of_pos (by omega)
    rw [asF64, Int.sign_mul, Int.sign_sign, hcast, Int.mul_one]

theorem asF64_spoken (n : Int) : asF64 (spoken n) = asF64 n := by
  by_cases hzero : n = 0
  · subst hzero
    rfl
  · have hdouble := isDouble_toDouble n.natAbs
    have hpos := toDouble_pos (n := n.natAbs) (by omega)
    have hprinted : 0 < printed (toDouble n.natAbs) :=
      Nat.mul_pos (shortest_pos hdouble hpos) (Nat.pow_pos (by omega))
    have hcast : Int.sign (printed (toDouble n.natAbs) : Int) = 1 :=
      Int.sign_eq_one_of_pos (by omega)
    have hsign : (spoken n).sign = n.sign := by
      rw [spoken, Int.sign_mul, Int.sign_sign, hcast, Int.mul_one]
    have habs : (spoken n).natAbs = printed (toDouble n.natAbs) := by
      rw [spoken, Int.natAbs_mul, Int.natAbs_natCast, Int.natAbs_sign, if_neg hzero, Nat.one_mul]
    rw [asF64, asF64, hsign, habs, toDouble_printed hdouble]

theorem spoken_eq (n : Int) :
    spoken n = (asF64 n).sign * printed (asF64 n).natAbs := by
  rw [asF64_sign, asF64_natAbs]
  rfl

theorem valid_sorted {p : Int → Prop} {v : Json} (h : Valid p v) :
    Valid p (sorted keyLe v) :=
  (sorted_eq_of_same keyOrder (same_sorted keyLe h) h).2

theorem canonicalJson_eq_iff {v w : Json} (hv : Valid InRange v) (hw : Valid InRange w) :
    canonicalJson v = canonicalJson w ↔ Same (widened v) (widened w) := by
  have hspoken : ∀ {u : Json}, Valid InRange u → Valid (fun _ => True) (u.mapInts spoken) :=
    fun hu => hu.mapInts fun _ _ => trivial
  constructor
  · intro h
    have htext : compact quoting (sorted keyLe (v.mapInts spoken)) =
        compact quoting (sorted keyLe (w.mapInts spoken)) := by
      rw [← writeValue_eq hv, ← writeValue_eq hw]
      have hlist := congrArg String.toList h
      rwa [canonicalJson, canonicalJson, String.toList_ofList, String.toList_ofList] at hlist
    have hsorted :=
      compact_inj quoting (valid_sorted (hspoken hv)) (valid_sorted (hspoken hw)) htext
    have hsame := (same_iff_sorted keyOrder (hspoken hv) (hspoken hw)).mpr hsorted
    have hwide := hsame.mapInts asF64
    rw [mapInts_mapInts _ _ hv, mapInts_mapInts _ _ hw] at hwide
    have hcomp : asF64 ∘ spoken = asF64 := funext asF64_spoken
    rwa [hcomp] at hwide
  · intro h
    have hsame := h.mapInts fun n => n.sign * printed n.natAbs
    rw [widened, widened, mapInts_mapInts _ _ hv, mapInts_mapInts _ _ hw] at hsame
    have hcomp : (fun n : Int => n.sign * printed n.natAbs) ∘ asF64 = spoken :=
      funext fun n => (spoken_eq n).symm
    rw [hcomp] at hsame
    have hsorted := (same_iff_sorted keyOrder (hspoken hv) (hspoken hw)).mp hsame
    rw [canonicalJson, canonicalJson, writeValue_eq hv, writeValue_eq hw, hsorted]

end VibeField.Tp.Jcs
