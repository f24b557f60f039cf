import Mathlib.Data.List.Basic

/-!
# UTF-16

A character is one code unit, or two past the basic plane: a high surrogate and a low one.
A text is decoded from its units, and a surrogate that stands alone becomes the replacement
character.  Units are compared as numbers, texts unit by unit.
-/

namespace VibeField.Utf16

open List

def units (c : Char) : List UInt16 :=
  if c.toNat < 0x10000 then [UInt16.ofNat c.toNat]
  else
    [UInt16.ofNat (0xD800 + (c.toNat - 0x10000) / 0x400),
      UInt16.ofNat (0xDC00 + (c.toNat - 0x10000) % 0x400)]

def encode (text : List Char) : List UInt16 := text.flatMap units

def isHigh (u : UInt16) : Bool := 0xD800 ≤ u.toNat && u.toNat < 0xDC00

def isLow (u : UInt16) : Bool := 0xDC00 ≤ u.toNat && u.toNat < 0xE000

def paired (u v : UInt16) : Char :=
  Char.ofNat (0x10000 + (u.toNat - 0xD800) * 0x400 + (v.toNat - 0xDC00))

def single (u : UInt16) : Char :=
  if isHigh u || isLow u then Char.ofNat 0xFFFD else Char.ofNat u.toNat

def decode : List UInt16 → List Char
  | [] => []
  | [u] => [single u]
  | u :: v :: rest =>
    if isHigh u && isLow v then paired u v :: decode rest else single u :: decode (v :: rest)

/-! ## Decoding undoes encoding -/

theorem toNat_lt (c : Char) : c.toNat < 0x110000 := by
  have hvalid := c.valid
  show c.val.toNat < 0x110000
  unfold UInt32.isValidChar Nat.isValidChar at hvalid
  omega

theorem not_surrogate (c : Char) : c.toNat < 0xD800 ∨ 0xE000 ≤ c.toNat := by
  have hvalid := c.valid
  show c.val.toNat < 0xD800 ∨ 0xE000 ≤ c.val.toNat
  unfold UInt32.isValidChar Nat.isValidChar at hvalid
  omega

theorem decode_single {u : UInt16} (hhigh : isHigh u = false) (rest : List UInt16) :
    decode (u :: rest) = single u :: decode rest := by
  cases rest with
  | nil => rfl
  | cons v rest =>
    rw [decode, hhigh]
    rfl

theorem toNat_ofNat {n : Nat} (h : n < 0x10000) : (UInt16.ofNat n).toNat = n :=
  UInt16.toNat_ofNat_of_lt' h

theorem high_toNat (n : Nat) (h : n < 0x400) :
    isHigh (UInt16.ofNat (0xD800 + n)) = true := by
  rw [isHigh, toNat_ofNat (by omega), Bool.and_eq_true, decide_eq_true_eq, decide_eq_true_eq]
  omega

theorem low_toNat (n : Nat) (h : n < 0x400) :
    isLow (UInt16.ofNat (0xDC00 + n)) = true := by
  rw [isLow, toNat_ofNat (by omega), Bool.and_eq_true, decide_eq_true_eq, decide_eq_true_eq]
  omega

theorem paired_ofNat {high low : Nat} (hhigh : high < 0x400) (hlow : low < 0x400) :
    paired (UInt16.ofNat (0xD800 + high)) (UInt16.ofNat (0xDC00 + low)) =
      Char.ofNat (0x10000 + high * 0x400 + low) := by
  rw [paired, toNat_ofNat (by omega), toNat_ofNat (by omega), Nat.add_sub_cancel_left,
    Nat.add_sub_cancel_left]

theorem not_surrogate_unit {n : Nat} (h : n < 0xD800 ∨ 0xE000 ≤ n) (hn : n < 0x10000) :
    isHigh (UInt16.ofNat n) = false ∧ isLow (UInt16.ofNat n) = false := by
  constructor
  · rw [isHigh, toNat_ofNat hn, Bool.and_eq_false_iff, decide_eq_false_iff_not,
      decide_eq_false_iff_not]
    omega
  · rw [isLow, toNat_ofNat hn, Bool.and_eq_false_iff, decide_eq_false_iff_not,
      decide_eq_false_iff_not]
    omega

theorem decode_units (c : Char) (rest : List UInt16) :
    decode (units c ++ rest) = c :: decode rest := by
  have hlt := toNat_lt c
  unfold units
  by_cases hplane : c.toNat < 0x10000
  · obtain ⟨hhigh, hlow⟩ := not_surrogate_unit (not_surrogate c) hplane
    rw [if_pos hplane, singleton_append, decode_single hhigh, single, hhigh, hlow,
      toNat_ofNat hplane, Char.ofNat_toNat]
    exact congrArg (fun d => d :: decode rest) (if_neg (by decide))
  · have hdiv : (c.toNat - 0x10000) / 0x400 < 0x400 := by omega
    have hmod : (c.toNat - 0x10000) % 0x400 < 0x400 := by omega
    have hnat : 0x10000 + (c.toNat - 0x10000) / 0x400 * 0x400 + (c.toNat - 0x10000) % 0x400 =
        c.toNat := by
      omega
    rw [if_neg hplane, cons_append, singleton_append, decode, high_toNat _ hdiv,
      low_toNat _ hmod, paired_ofNat hdiv hmod, hnat, Char.ofNat_toNat]
    exact if_pos rfl

theorem encode_append (s t : List Char) : encode (s ++ t) = encode s ++ encode t :=
  flatMap_append

theorem decode_encode (text : List Char) : decode (encode text) = text := by
  induction text with
  | nil => rfl
  | cons c rest ih =>
    rw [encode, flatMap_cons, decode_units]
    exact congrArg (List.cons c) ih

theorem encode_inj {s t : List Char} (h : encode s = encode t) : s = t := by
  rw [← decode_encode s, h, decode_encode]

/-! ## The order of texts -/

def le : List UInt16 → List UInt16 → Bool
  | [], _ => true
  | _ :: _, [] => false
  | u :: s, v :: t =>
    if u.toNat < v.toNat then true else if v.toNat < u.toNat then false else le s t

theorem le_total (s t : List UInt16) : (le s t || le t s) = true := by
  induction s generalizing t with
  | nil => rfl
  | cons u s ih =>
    cases t with
    | nil => rfl
    | cons v t =>
      unfold le
      by_cases huv : u.toNat < v.toNat
      · simp [huv]
      · by_cases hvu : v.toNat < u.toNat
        · simp [hvu]
        · simp only [huv, hvu, if_false]
          exact ih t

theorem le_antisymm (s t : List UInt16) (h : le s t = true) (h' : le t s = true) : s = t := by
  induction s generalizing t with
  | nil =>
    cases t with
    | nil => rfl
    | cons v t => cases h'
  | cons u s ih =>
    cases t with
    | nil => cases h
    | cons v t =>
      unfold le at h h'
      by_cases huv : u.toNat < v.toNat
      · have hvu : ¬ v.toNat < u.toNat := by omega
        simp [huv, hvu] at h'
      · by_cases hvu : v.toNat < u.toNat
        · simp [huv, hvu] at h
        · simp only [huv, hvu, if_false] at h h'
          have hnat : u.toNat = v.toNat := by omega
          rw [UInt16.toNat_inj.mp hnat, ih t h h']

theorem le_trans (s t r : List UInt16) (h : le s t = true) (h' : le t r = true) :
    le s r = true := by
  induction s generalizing t r with
  | nil => rfl
  | cons u s ih =>
    cases t with
    | nil => cases h
    | cons v t =>
      cases r with
      | nil => cases h'
      | cons w r =>
        unfold le at h h' ⊢
        by_cases huw : u.toNat < w.toNat
        · simp [huw]
        · by_cases huv : u.toNat < v.toNat
          · have hwv : w.toNat < v.toNat := by omega
            have hvw : ¬ v.toNat < w.toNat := by omega
            simp [hwv, hvw] at h'
          · by_cases hvu : v.toNat < u.toNat
            · simp [huv, hvu] at h
            · by_cases hvw : v.toNat < w.toNat
              · omega
              · by_cases hwv : w.toNat < v.toNat
                · simp [hvw, hwv] at h'
                · have hwu : ¬ w.toNat < u.toNat := by omega
                  simp only [huv, hvu, hvw, hwv, huw, hwu, if_false] at h h' ⊢
                  exact ih t r h h'

end VibeField.Utf16
