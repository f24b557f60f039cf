import Mathlib.Data.Bool.AllAny
import VibeField.Contracts.PhoneCode

/-!
# The two readers of a phone code

The TypeScript reader works on the units of a text and the Swift reader on its scalars.  Every rule
is told by numbers below the surrogates, so at each step the one has the units of what the other
has.
-/

namespace VibeField.Contracts.PhoneCode

open List Option Dict
open Utf16 (encode codePoints unit)
open UriUnits (decodeURIComponent)

/-! ## The rules -/

theorem trimmed_agrees : Spelling.Agrees Utf16.units trimmedUnit Swift.trimmedScalar := by
  have hbelow : Utf16.Below fun n => TRIMMED.contains n := fun n hn => by
    rw [← Bool.not_eq_true, contains_iff_mem]
    simp only [TRIMMED, mem_cons, not_mem_nil, or_false]
    omega
  exact Utf16.agrees hbelow

theorem trim_encode (t : List Char) : trim (encode t) = encode (Swift.trim t) := by
  rw [trim, encode, Spelling.dropWhile_flatMap trimmed_agrees,
    Spelling.dropLast_flatMap trimmed_agrees]
  rfl

theorem toNat_asciiLower (c : Char) :
    (Swift.asciiLower c).toNat =
      if 0x41 ≤ c.toNat && c.toNat ≤ 0x5A then c.toNat + 0x20 else c.toNat := by
  rw [Swift.asciiLower]
  split
  · next hcase =>
    simp only [Bool.and_eq_true, decide_eq_true_eq] at hcase
    have hvalid : (c.toNat + 0x20).isValidChar := by
      rw [Nat.isValidChar]
      omega
    rw [Char.ofNat, dif_pos hvalid]
    rfl
  · rfl

theorem asciiLower_unit {c : Char} (h : c.toNat < 0x10000) :
    asciiLower (unit c) = unit (Swift.asciiLower c) := by
  rw [asciiLower, Utf16.toNat_unit h, unit, unit, toNat_asciiLower]
  split <;> rfl

theorem asciiLower_lt {c : Char} (h : c.toNat < 0xD800) : (Swift.asciiLower c).toNat < 0xD800 := by
  rw [toNat_asciiLower]
  split
  · next hcase =>
    simp only [Bool.and_eq_true, decide_eq_true_eq] at hcase
    omega
  · exact h

theorem starts_encode {pre : List Char} (hpre : ∀ a ∈ pre, a.toNat < 0xD800) (t : List Char) :
    ((encode t).take pre.length).map asciiLower = encode pre ↔
      (t.take pre.length).map Swift.asciiLower = pre := by
  induction pre generalizing t with
  | nil => simp [encode]
  | cons a pre ih =>
    obtain ⟨ha, hpre⟩ := forall_mem_cons.mp hpre
    rw [Utf16.encode_cons_of_lt (by omega)]
    cases t with
    | nil => simp [encode]
    | cons c t =>
      by_cases hc : c.toNat < 0xD800
      · have hlow := asciiLower_lt hc
        have heq : unit (Swift.asciiLower c) = unit a ↔ Swift.asciiLower c = a :=
          ⟨Utf16.unit_inj (by omega) (by omega), congrArg unit⟩
        rw [Utf16.encode_cons_of_lt (by omega), length_cons, take_succ_cons,
          take_succ_cons, map_cons, map_cons, asciiLower_unit (by omega),
          List.cons.injEq, List.cons.injEq, ih hpre t, heq]
      · obtain ⟨u, more, hunits⟩ := exists_cons_of_ne_nil (Utf16.units_ne c)
        have hu : 0xD800 ≤ u.toNat := by
          rcases Utf16.unit_of_mem (c := c) (u := u) (by simp [hunits]) with h | ⟨h, -⟩
          · omega
          · exact h
        have hleft : asciiLower u ≠ unit a := fun h => by
          rw [asciiLower, if_neg (by simp; omega)] at h
          rw [h, Utf16.toNat_unit (by omega)] at hu
          omega
        have hright : Swift.asciiLower c ≠ a := fun h => by
          rw [Swift.asciiLower, if_neg (by simp; omega)] at h
          rw [h] at hc
          omega
        rw [encode, flatMap_cons, hunits, cons_append, length_cons,
          take_succ_cons, take_succ_cons, map_cons, map_cons]
        exact ⟨fun h => absurd (List.cons.inj h).1 hleft,
          fun h => absurd (List.cons.inj h).1 hright⟩

theorem drop_encode {pre : List Char} (hpre : ∀ a ∈ pre, a.toNat < 0xD800) {t : List Char}
    (h : (t.take pre.length).map Swift.asciiLower = pre) :
    (encode t).drop pre.length = encode (t.drop pre.length) := by
  induction pre generalizing t with
  | nil => rfl
  | cons a pre ih =>
    obtain ⟨ha, hpre⟩ := forall_mem_cons.mp hpre
    cases t with
    | nil => cases h
    | cons c t =>
      rw [length_cons, take_succ_cons, map_cons, List.cons.injEq] at h
      have hc : c.toNat < 0x10000 := by
        by_contra hc
        have hlow := h.1
        rw [Swift.asciiLower, if_neg (by simp; omega)] at hlow
        rw [← hlow] at ha
        omega
      rw [Utf16.encode_cons_of_lt hc, length_cons, drop_succ_cons, drop_succ_cons,
        ih hpre h.2]

theorem cutAt_encode {a : Char} (ha : a.toNat < 0xD800) (t : List Char) :
    cutAt (unit a) (encode t) = (encode (cutAt a t).1, encode (cutAt a t).2) := by
  have hne := (Utf16.agrees_eq ha).not
  have htake : (encode t).takeWhile (fun u => decide (u ≠ unit a)) =
      encode (t.takeWhile fun d => decide (d ≠ a)) := by
    simp only [decide_not]
    exact Spelling.takeWhile_flatMap hne t
  have hdrop : (encode t).dropWhile (fun u => decide (u ≠ unit a)) =
      encode (t.dropWhile fun d => decide (d ≠ a)) := by
    simp only [decide_not]
    exact Spelling.dropWhile_flatMap hne t
  rw [cutAt, cutAt, htake, hdrop]
  congr 1
  cases hrest : t.dropWhile fun d => decide (d ≠ a) with
  | nil => rfl
  | cons d rest =>
    have hd : d = a := by
      have hhead := List.head?_dropWhile_not (fun d => decide (d ≠ a)) t
      rw [hrest] at hhead
      simpa using hhead
    exact Utf16.drop_one_encode ha (congrArg some hd)

theorem dropSlash_encode (t : List Char) : dropSlash (encode t) = encode (Swift.dropSlash t) := by
  have hslash := Utf16.head?_encode (c := '/') (by decide) t
  by_cases h : t.head? = some '/'
  · rw [dropSlash, if_pos (hslash.mpr h), Utf16.drop_one_encode (by decide) h, Swift.dropSlash,
      if_pos h]
  · rw [dropSlash, if_neg fun hs => h (hslash.mp hs), Swift.dropSlash, if_neg h]

theorem queryOf_encode (t : List Char) : queryOf (encode t) = (Swift.queryOf t).map encode := by
  have hmark := Utf16.head?_encode (c := '?') (by decide) t
  have hhash := Utf16.head?_encode (c := '#') (by decide) t
  rw [queryOf, Swift.queryOf]
  by_cases h : t.head? = some '?'
  · rw [if_pos (hmark.mpr h), if_pos h, Utf16.drop_one_encode (by decide) h,
      cutAt_encode (by decide)]
    rfl
  · rw [if_neg fun hs => h (hmark.mp hs), if_neg h]
    by_cases hrest : t = [] ∨ t.head? = some '#'
    · rw [if_pos (hrest.imp Utf16.encode_eq_nil.mpr hhash.mpr), if_neg]
      · rfl
      · exact fun hne => hrest.elim hne.1 hne.2
    · have hne : t ≠ [] ∧ t.head? ≠ some '#' := not_or.mp hrest
      rw [if_neg fun hs => hrest (hs.imp Utf16.encode_eq_nil.mp hhash.mp), if_pos hne]
      rfl

/-! ## The fields -/

/-- The fields of the one are the units of the other's. -/
def Same (ts : Dict Text Text) (sw : Dict (List Char) (List Char)) : Prop :=
  ∀ name : List Char, ts.lookup (encode name) = (sw.lookup name).map encode

theorem same_empty : Same ∅ ∅ := fun name => by rw [lookup_empty, lookup_empty]; rfl

variable {removing : List Char → Option (List Char)} {ts : Dict Text Text}
  {sw : Dict (List Char) (List Char)}

theorem Same.insert (h : Same ts sw) (name value : List Char) :
    Same (ts.insert (encode name) (encode value)) (sw.insert name value) := by
  intro other
  rw [lookup_insert, lookup_insert]
  by_cases heq : other = name
  · rw [if_pos (congrArg encode heq), if_pos heq]
    rfl
  · rw [if_neg fun hs => heq (Utf16.encode_inj hs), if_neg heq, h other]

/-- Both refuse for one reason, or both go on with the same fields. -/
def SameFields (ts : Except Refusal (Dict Text Text))
    (sw : Except Refusal (Dict (List Char) (List Char))) : Prop :=
  (∃ why, ts = .error why ∧ sw = .error why) ∨ ∃ t s, ts = .ok t ∧ sw = .ok s ∧ Same t s

theorem readFields_same (hremoves : Removes removing) (pairs : List (List Char)) (h : Same ts sw) :
    SameFields (readFields ts (pairs.map encode))
      (Swift.readFields removing sw (pairs.filter fun pair => !pair.isEmpty)) := by
  induction pairs generalizing ts sw with
  | nil => exact .inr ⟨ts, sw, rfl, rfl, h⟩
  | cons pair pairs ih =>
    rw [map_cons, readFields]
    by_cases hempty : pair = []
    · rw [if_pos (by rw [hempty]; rfl), hempty, filter_cons_of_neg (by simp)]
      exact ih h
    · rw [if_neg fun hs => hempty (Utf16.encode_eq_nil.mp hs),
        filter_cons_of_pos (by simp [hempty]), Swift.readFields,
        cutAt_encode (by decide), ← hremoves, ← hremoves]
      cases hname : removing (cutAt '=' pair).1 with
      | none => exact .inl ⟨_, rfl, rfl⟩
      | some name =>
        cases hvalue : removing (cutAt '=' pair).2 with
        | none => exact .inl ⟨_, rfl, rfl⟩
        | some value =>
          simp only [map_some]
          by_cases hknown : name = "login".toList ∨ name = "from".toList
          · have hts :
                ¬(encode name ≠ encode "login".toList ∧ encode name ≠ encode "from".toList) :=
              fun hne => hknown.elim (fun hl => hne.1 (congrArg encode hl))
                fun hf => hne.2 (congrArg encode hf)
            rw [if_neg hts, if_pos hknown, h name]
            cases hlook : sw.lookup name with
            | none =>
              rw [if_neg (by simp), if_pos rfl]
              exact ih (h.insert name value)
            | some old =>
              rw [if_pos (by simp), if_neg (by simp)]
              exact .inl ⟨_, rfl, rfl⟩
          · have hne := not_or.mp hknown
            rw [if_pos ⟨fun hs => hne.1 (Utf16.encode_inj hs),
              fun hs => hne.2 (Utf16.encode_inj hs)⟩,
              if_neg hknown]
            exact ih h

theorem getD_same (h : Same ts sw) (name : List Char) :
    (ts.lookup (encode name)).getD [] = encode ((sw.lookup name).getD []) := by
  rw [h name]
  cases sw.lookup name <;> rfl

/-! ## The code -/

theorem badLogin_encode (t : List Char) : badLogin (encode t) = !Swift.goodLogin t := by
  have hat : '@'.toNat < 0xD800 := by decide
  have hany : (t.map Char.toNat).any (fun p => isUnsafe p || SPACE.contains p) =
      t.any fun c => Swift.isUnsafe c || Swift.space.contains c.toNat := List.any_map
  have hhead : ((encode t).head? == some (unit '@')) = (t.head? == some '@') := by
    rw [Bool.eq_iff_iff, beq_iff_eq, beq_iff_eq, Utf16.head?_encode hat]
  have hlast : ((encode t).getLast? == some (unit '@')) = (t.getLast? == some '@') := by
    rw [Bool.eq_iff_iff, beq_iff_eq, beq_iff_eq, Utf16.getLast?_encode hat]
  have hlength : decide (t.length ≤ PHONE_CODE_MAX_LOGIN) =
      !decide (PHONE_CODE_MAX_LOGIN < t.length) := by
    rw [← decide_not, decide_eq_decide, Nat.not_lt]
  rw [badLogin, Swift.goodLogin, Utf16.codePoints_encode, length_map, hany,
    Utf16.contains_encode hat, hhead, hlast, hlength, Bool.not_and, Bool.not_and, Bool.not_and,
    Bool.not_and, Bool.not_not, Bool.not_not, bne, bne, Bool.not_not, Bool.not_not]

theorem badFrom_encode (t : List Char) : badFrom (encode t) = !Swift.goodFrom t := by
  have hany : (t.map Char.toNat).any isUnsafe = t.any Swift.isUnsafe := List.any_map
  have hlength : decide (t.length ≤ PHONE_CODE_MAX_FROM) =
      !decide (PHONE_CODE_MAX_FROM < t.length) := by
    rw [← decide_not, decide_eq_decide, Nat.not_lt]
  rw [badFrom, Swift.goodFrom, Utf16.codePoints_encode, length_map, hany, hlength,
    Bool.not_and, Bool.not_not, Bool.not_not]

def unitsOfCode (code : Code Char) : Code UInt16 :=
  { login := encode code.login, fromName := encode code.fromName }

theorem readCode_same (h : Same ts sw) :
    readCode ts = (Swift.readCode sw).map unitsOfCode := by
  rw [readCode, Swift.readCode, getD_same h, getD_same h, trim_encode, trim_encode]
  generalize Swift.trim ((sw.lookup "login".toList).getD []) = login
  generalize Swift.trim ((sw.lookup "from".toList).getD []) = fromName
  by_cases hlogin : login = []
  · rw [if_pos (Utf16.encode_eq_nil.mpr hlogin), if_pos hlogin]
    rfl
  rw [if_neg fun hs => hlogin (Utf16.encode_eq_nil.mp hs), if_neg hlogin, badLogin_encode]
  cases hgood : Swift.goodLogin login with
  | false => rfl
  | true =>
    simp only [Bool.not_true, Bool.false_eq_true, if_false, if_true]
    by_cases hfrom : fromName = []
    · rw [if_pos (Utf16.encode_eq_nil.mpr hfrom), if_pos hfrom]
      rfl
    rw [if_neg fun hs => hfrom (Utf16.encode_eq_nil.mp hs), if_neg hfrom, badFrom_encode]
    cases hgood' : Swift.goodFrom fromName with
    | false => rfl
    | true => rfl

theorem parseQuery_same (hremoves : Removes removing) (t : List Char) :
    parseQuery (encode t) = (Swift.parseQuery removing t).map unitsOfCode := by
  rw [parseQuery, Swift.parseQuery, queryOf_encode]
  cases Swift.queryOf t with
  | none => rfl
  | some query =>
    simp only [map_some]
    rw [Utf16.splitOn_encode (by decide)]
    rcases readFields_same hremoves (query.splitOn '&') same_empty with
      ⟨why, hts, hsw⟩ | ⟨ts, sw, hts, hsw, hsame⟩
    · rw [hts, hsw]
      rfl
    · rw [hts, hsw]
      exact readCode_same hsame

theorem codePrefix_lt : ∀ a ∈ codePrefix, a.toNat < 0xD800 :=
  all_iff_forall_prop.mp (by decide)

theorem alike (hremoves : Removes removing) (text : List Char) : Alike removing text := by
  show parsePhoneCode (encode text) = (Swift.parse removing text).map unitsOfCode
  have hstarts := starts_encode codePrefix_lt (Swift.trim text)
  rw [parsePhoneCode, Swift.parse]
  simp only [trim_encode, Utf16.codePoints_encode, length_map]
  by_cases hlong : PHONE_CODE_MAX_TEXT < (Swift.trim text).length
  · rw [if_pos hlong, if_neg (Nat.not_le.mpr hlong)]
    rfl
  rw [if_neg hlong, if_pos (Nat.not_lt.mp hlong)]
  by_cases hpre : ((Swift.trim text).take codePrefix.length).map Swift.asciiLower = codePrefix
  · have hlength : codePrefix.length ≤ (Swift.trim text).length := by
      have hcount := congrArg List.length hpre
      rw [length_map, length_take] at hcount
      omega
    rw [if_neg (not_not.mpr (hstarts.mpr hpre)), if_pos ⟨hlength, hpre⟩,
      drop_encode codePrefix_lt hpre, dropSlash_encode, parseQuery_same hremoves]
  · rw [if_pos fun hs => hpre (hstarts.mp hs), if_neg fun hs => hpre hs.2]
    rfl

/-! ## A reader of escapes -/

def removingPercentEncoding (text : List Char) : Option (List Char) :=
  (decodeURIComponent (encode text)).map Utf16.decode

theorem removes : Removes removingPercentEncoding := by
  intro text
  rw [removingPercentEncoding]
  cases hdecode : decodeURIComponent (encode text) with
  | none => rfl
  | some units =>
    obtain ⟨scalars, rfl⟩ := UriUnits.decode_scalars hdecode
    rw [map_some, map_some, Utf16.decode_encode]

end VibeField.Contracts.PhoneCode
