import Mathlib.Data.Nat.Bitwise
import Mathlib.Tactic.Ring

/-!
# Unsigned LEB128 of 64-bit numbers

Seven bits a byte, low first, the high bit set while more follow.  A number below
`2 ^ 64` takes at most ten bytes, and the tenth may carry only its top bit.
-/

namespace VibeField.Leb128

open List

inductive Error where
  | truncated
  | overflow
  deriving DecidableEq, Repr

def writeBytes : Nat → Nat → List UInt8
  | 0, _ => []
  | bytes + 1, value =>
    if value / 128 = 0 then [UInt8.ofNat (value % 128)]
    else UInt8.ofNat (value % 128 + 128) :: writeBytes bytes (value / 128)

def write (value : Nat) : List UInt8 := writeBytes 10 value

def readFrom (length : Nat) : List UInt8 → Nat → Nat → Except Error (Nat × Nat)
  | [], _, _ => .error (if length ≥ 10 then .overflow else .truncated)
  | byte :: rest, index, value =>
    let low := byte.toNat % 128
    if index ≥ 10 || (index == 9 && low > 1) then .error .overflow
    else
      let value := value ||| low <<< (7 * index)
      if byte.toNat < 128 then .ok (value, index + 1)
      else readFrom length rest (index + 1) value

def read (bytes : List UInt8) : Except Error (Nat × Nat) := readFrom bytes.length bytes 0 0

theorem toNat_ofNat_of_lt {n : Nat} (h : n < 256) : (UInt8.ofNat n).toNat = n := by
  rw [UInt8.toNat_ofNat']
  exact Nat.mod_eq_of_lt h

theorem or_shiftLeft {value low i : Nat} (h : value < 2 ^ i) :
    value ||| low <<< i = value + low * 2 ^ i := by
  rw [Nat.shiftLeft_eq, Nat.or_comm, Nat.mul_comm low, ← Nat.two_pow_add_eq_or_of_lt h,
    Nat.add_comm]

theorem readFrom_writeBytes (length : Nat) (rest : List UInt8) :
    ∀ (k index n value : Nat), index + (k + 1) = 10 → n < 2 ^ (64 - 7 * index) →
      value < 2 ^ (7 * index) →
      readFrom length (writeBytes (k + 1) n ++ rest) index value =
        .ok (value + n * 2 ^ (7 * index), index + (writeBytes (k + 1) n).length) := by
  intro k
  induction k with
  | zero =>
    intro index n value hk hn hvalue
    obtain rfl : index = 9 := by omega
    have hn' : n < 2 := hn
    have hsmall : n / 128 = 0 := by omega
    have hmod : n % 128 = n := by omega
    rw [writeBytes, if_pos hsmall, hmod, singleton_append, readFrom,
      toNat_ofNat_of_lt (by omega), hmod, or_shiftLeft hvalue]
    have hlow : ¬ n > 1 := by omega
    have hlast : n < 128 := by omega
    simp [hlow, hlast]
  | succ k ih =>
    intro index n value hk hn hvalue
    have hindex : ¬ (index ≥ 10) := by omega
    have hnine : (index == 9) = false := beq_eq_false_iff_ne.mpr (by omega)
    by_cases hsmall : n / 128 = 0
    · have hmod : n % 128 = n := by omega
      rw [writeBytes, if_pos hsmall, hmod, singleton_append, readFrom,
        toNat_ofNat_of_lt (by omega), hmod, or_shiftLeft hvalue]
      have hlast : n < 128 := by omega
      simp [hindex, hnine, hlast]
    · rw [writeBytes, if_neg hsmall, cons_append, readFrom, toNat_ofNat_of_lt (by omega)]
      have hlow : (n % 128 + 128) % 128 = n % 128 := by omega
      have hmore : ¬ n % 128 + 128 < 128 := by omega
      rw [hlow, or_shiftLeft hvalue]
      simp only [hindex, decide_false, hnine, Bool.false_and, Bool.or_false, Bool.false_eq_true,
        if_false, hmore]
      have hsplit : 64 - 7 * index = (64 - 7 * (index + 1)) + 7 := by omega
      have hdiv : n / 128 < 2 ^ (64 - 7 * (index + 1)) := by
        rw [hsplit, Nat.pow_add] at hn
        exact Nat.div_lt_of_lt_mul (by omega)
      have hpow : 2 ^ (7 * (index + 1)) = 2 ^ (7 * index) * 128 := by
        rw [Nat.mul_add, Nat.pow_add]
      have hvalue' : value + n % 128 * 2 ^ (7 * index) < 2 ^ (7 * (index + 1)) := by
        have hle : n % 128 * 2 ^ (7 * index) ≤ 127 * 2 ^ (7 * index) :=
          Nat.mul_le_mul_right _ (by omega)
        rw [hpow]
        omega
      rw [ih (index + 1) (n / 128) _ (by omega) hdiv hvalue', hpow, length_cons]
      have hsum : n * 2 ^ (7 * index) =
          n % 128 * 2 ^ (7 * index) + n / 128 * (2 ^ (7 * index) * 128) := by
        conv_lhs => rw [← Nat.mod_add_div n 128]
        ring
      rw [hsum]
      congr 2 <;> omega

theorem read_write {n : Nat} (h : n < 2 ^ 64) (rest : List UInt8) :
    read (write n ++ rest) = .ok (n, (write n).length) := by
  have hread : read (write n ++ rest) = .ok (0 + n * 2 ^ (7 * 0), 0 + (write n).length) :=
    readFrom_writeBytes _ rest 9 0 n 0 rfl h (by decide)
  rw [hread]
  simp

/-! ## What is read

The bytes of a number are its numeral.  The reader takes the numeral a byte string
starts with, tells a string that ends inside a numeral from one whose numeral passes
64 bits, and there is no fourth case.
-/

def valueOf : List UInt8 → Nat
  | [] => 0
  | byte :: rest => byte.toNat % 128 + 128 * valueOf rest

/-- Every byte asks for more. -/
def Continues (bytes : List UInt8) : Prop := ∀ byte ∈ bytes, 128 ≤ byte.toNat

/-- The bytes are one numeral, of a number that fits. -/
structure Spells (bytes : List UInt8) (n : Nat) : Prop where
  ended : ∃ init last, bytes = init ++ [last] ∧ Continues init ∧ last.toNat < 128
  short : bytes.length ≤ 10
  value : valueOf bytes = n
  fits : n < 2 ^ 64

/-- The bytes end inside a numeral. -/
def Truncated (bytes : List UInt8) : Prop := bytes.length < 10 ∧ Continues bytes

/-- Nine bytes ask for more, and the tenth carries more than the top bit or asks on. -/
def Overflows (bytes : List UInt8) : Prop :=
  ∃ init byte rest, bytes = init ++ byte :: rest ∧ init.length = 9 ∧ Continues init ∧
    1 < byte.toNat

theorem valueOf_append (init rest : List UInt8) :
    valueOf (init ++ rest) = valueOf init + valueOf rest * 2 ^ (7 * init.length) := by
  induction init with
  | nil => simp [valueOf]
  | cons byte init ih =>
    have hpow : 2 ^ (7 * (byte :: init).length) = 128 * 2 ^ (7 * init.length) := by
      rw [length_cons, Nat.mul_add, Nat.pow_add, Nat.mul_comm]
    rw [cons_append, valueOf, ih, valueOf, hpow]
    ring

theorem valueOf_lt (bytes : List UInt8) : valueOf bytes < 2 ^ (7 * bytes.length) := by
  induction bytes with
  | nil => decide
  | cons byte rest ih =>
    have hpow : 2 ^ (7 * (byte :: rest).length) = 128 * 2 ^ (7 * rest.length) := by
      rw [length_cons, Nat.mul_add, Nat.pow_add, Nat.mul_comm]
    rw [valueOf, hpow]
    omega

theorem Continues.of_cons {byte : UInt8} {rest : List UInt8} (h : Continues (byte :: rest)) :
    128 ≤ byte.toNat ∧ Continues rest :=
  ⟨h byte mem_cons_self, fun b hb => h b (mem_cons_of_mem byte hb)⟩

theorem readFrom_continues (length : Nat) (rest : List UInt8) :
    ∀ (init : List UInt8) (index value : Nat), index + init.length ≤ 9 → Continues init →
      value < 2 ^ (7 * index) →
      readFrom length (init ++ rest) index value =
        readFrom length rest (index + init.length) (value + valueOf init * 2 ^ (7 * index)) := by
  intro init
  induction init with
  | nil => simp [valueOf]
  | cons byte init ih =>
    intro index value hindex hmore hvalue
    obtain ⟨hbyte, hinit⟩ := hmore.of_cons
    rw [length_cons] at hindex
    have hten : ¬ index ≥ 10 := by omega
    have hnine : (index == 9) = false := beq_eq_false_iff_ne.mpr (by omega)
    have hlast : ¬ byte.toNat < 128 := by omega
    have hpow : 2 ^ (7 * (index + 1)) = 2 ^ (7 * index) * 128 := by
      rw [Nat.mul_add, Nat.pow_add]
    have hvalue' : value + byte.toNat % 128 * 2 ^ (7 * index) < 2 ^ (7 * (index + 1)) := by
      have hle : byte.toNat % 128 * 2 ^ (7 * index) ≤ 127 * 2 ^ (7 * index) :=
        Nat.mul_le_mul_right _ (by omega)
      rw [hpow]
      omega
    rw [cons_append, readFrom, or_shiftLeft hvalue]
    simp only [hten, decide_false, hnine, Bool.false_and, Bool.or_false, Bool.false_eq_true,
      if_false, hlast]
    rw [ih (index + 1) _ (by omega) hinit hvalue', length_cons, hpow, valueOf]
    congr 1
    · omega
    · ring

theorem read_of_spells {numeral : List UInt8} {n : Nat} (h : Spells numeral n)
    (rest : List UInt8) : read (numeral ++ rest) = .ok (n, numeral.length) := by
  obtain ⟨⟨init, last, rfl, hinit, hlast⟩, hshort, rfl, hfits⟩ := h
  rw [length_append, length_singleton] at hshort
  have hmod : last.toNat % 128 = last.toNat := Nat.mod_eq_of_lt hlast
  have hvalue : valueOf (init ++ [last]) = valueOf init + last.toNat * 2 ^ (7 * init.length) := by
    rw [valueOf_append, valueOf, valueOf, hmod]
    simp
  have hten : ¬ init.length ≥ 10 := by omega
  have hnine : (init.length == 9 && decide (last.toNat > 1)) = false := by
    by_cases h9 : init.length = 9
    · -- the tenth byte is worth `2 ^ 63`
      rw [hvalue, h9] at hfits
      have : last.toNat ≤ 1 := by omega
      simp [Nat.not_lt.mpr this]
    · simp [h9]
  have hor : valueOf init ||| last.toNat <<< (7 * init.length) =
      valueOf init + last.toNat * 2 ^ (7 * init.length) :=
    or_shiftLeft (valueOf_lt init)
  rw [read, append_assoc, readFrom_continues _ _ init 0 0 (by omega) hinit (by decide),
    singleton_append, readFrom, hmod, hvalue]
  simp only [length_append, length_singleton, Nat.zero_add, Nat.mul_zero, Nat.pow_zero, Nat.mul_one, hor, hten, hnine, decide_false,
    Bool.or_false, Bool.false_eq_true, if_false, hlast, if_true]

variable {bytes : List UInt8}

theorem read_of_truncated (h : Truncated bytes) :
    read bytes = .error .truncated := by
  obtain ⟨hlength, hmore⟩ := h
  have hread := readFrom_continues bytes.length [] bytes 0 0 (by omega) hmore (by decide)
  rw [append_nil] at hread
  have hten : ¬ bytes.length ≥ 10 := by omega
  rw [read, hread, readFrom, if_neg hten]

theorem read_of_overflows (h : Overflows bytes) :
    read bytes = .error .overflow := by
  obtain ⟨init, byte, rest, rfl, hnine, hmore, hbyte⟩ := h
  have hlength : (init ++ byte :: rest).length ≥ 10 := by
    rw [length_append, length_cons, hnine]
    omega
  rw [read, readFrom_continues _ _ init 0 0 (by omega) hmore (by decide), hnine, readFrom]
  by_cases hlow : byte.toNat % 128 > 1
  · simp [hlow]
  · have hlast : ¬ byte.toNat < 128 := by omega
    cases rest with
    | nil => simp [hlow, hlast, readFrom, hnine]
    | cons next rest => simp [hlow, hlast, readFrom]

theorem classify (bytes : List UInt8) :
    Truncated bytes ∨ Overflows bytes ∨
      ∃ numeral n rest, bytes = numeral ++ rest ∧ Spells numeral n := by
  obtain ⟨init, rest, rfl, hinit, hrest⟩ : ∃ init rest, bytes = init ++ rest ∧ Continues init ∧
      ∀ byte tail, rest = byte :: tail → byte.toNat < 128 := by
    refine ⟨bytes.takeWhile (fun b => decide (128 ≤ b.toNat)),
      bytes.dropWhile (fun b => decide (128 ≤ b.toNat)), takeWhile_append_dropWhile.symm, ?_, ?_⟩
    · intro byte hb
      have hall := all_takeWhile (l := bytes) (p := fun b => decide (128 ≤ b.toNat))
      simpa using all_eq_true.mp hall byte hb
    · intro byte tail h
      have hhead := head_dropWhile_not (fun b : UInt8 => decide (128 ≤ b.toNat)) (l := bytes)
        (by simp [h])
      simpa [h] using hhead
  by_cases hlong : 10 ≤ init.length
  · -- ten bytes ask for more
    right
    left
    have hdrop : init.drop 9 ≠ [] := by simp; omega
    obtain ⟨byte, tail, htail⟩ := exists_cons_of_ne_nil hdrop
    have hsplit : init = init.take 9 ++ byte :: tail := by rw [← htail, take_append_drop]
    have hbyte : 128 ≤ byte.toNat := hinit byte (by rw [hsplit]; simp)
    refine ⟨init.take 9, byte, tail ++ rest, ?_, by simp; omega, ?_, by omega⟩
    · rw [← cons_append, ← append_assoc, ← hsplit]
    · intro b hb
      exact hinit b (mem_of_mem_take hb)
  · cases rest with
    | nil => exact .inl ⟨by simp; omega, by simpa using hinit⟩
    | cons last rest =>
      right
      have hlast : last.toNat < 128 := hrest last rest rfl
      by_cases hover : init.length = 9 ∧ 1 < last.toNat
      · exact .inl ⟨init, last, rest, rfl, hover.1, hinit, hover.2⟩
      · refine .inr ⟨init ++ [last], _, rest, by simp, ⟨init, last, rfl, hinit, hlast⟩,
          by simp; omega, rfl, ?_⟩
        have hvalue := valueOf_lt init
        rw [valueOf_append, valueOf, valueOf, Nat.mod_eq_of_lt hlast, Nat.mul_zero, Nat.add_zero]
        by_cases h9 : init.length = 9
        · rw [h9] at hvalue ⊢
          have hone : last.toNat ≤ 1 := by omega
          omega
        · have hle : 2 ^ (7 * init.length + 7) ≤ 2 ^ 63 :=
            Nat.pow_le_pow_right (by decide) (by omega)
          have hmul : last.toNat * 2 ^ (7 * init.length) ≤ 127 * 2 ^ (7 * init.length) :=
            Nat.mul_le_mul_right _ (by omega)
          rw [Nat.pow_add] at hle
          omega

theorem read_ok_iff {n used : Nat} :
    read bytes = .ok (n, used) ↔
      ∃ numeral rest, bytes = numeral ++ rest ∧ Spells numeral n ∧ numeral.length = used := by
  constructor
  · intro h
    rcases classify bytes with ht | ho | ⟨numeral, m, rest, rfl, hs⟩
    · cases (read_of_truncated ht).symm.trans h
    · cases (read_of_overflows ho).symm.trans h
    · cases (read_of_spells hs rest).symm.trans h
      exact ⟨numeral, rest, rfl, hs, rfl⟩
  · rintro ⟨numeral, rest, rfl, hs, rfl⟩
    exact read_of_spells hs rest

theorem read_truncated_iff :
    read bytes = .error .truncated ↔ Truncated bytes := by
  constructor
  · intro h
    rcases classify bytes with ht | ho | ⟨numeral, m, rest, rfl, hs⟩
    · exact ht
    · cases (read_of_overflows ho).symm.trans h
    · cases (read_of_spells hs rest).symm.trans h
  · exact read_of_truncated

theorem read_overflow_iff :
    read bytes = .error .overflow ↔ Overflows bytes := by
  constructor
  · intro h
    rcases classify bytes with ht | ho | ⟨numeral, m, rest, rfl, hs⟩
    · cases (read_of_truncated ht).symm.trans h
    · exact ho
    · cases (read_of_spells hs rest).symm.trans h
  · exact read_of_overflows

theorem spells_write {n : Nat} (h : n < 2 ^ 64) : Spells (write n) n := by
  have hread := read_write h []
  obtain ⟨numeral, rest, heq, hs, hlength⟩ := read_ok_iff.mp hread
  have hrest : rest.length = 0 := by
    have := congrArg List.length heq
    simp only [length_append, length_nil, Nat.add_zero] at this
    omega
  rw [append_nil, length_eq_zero_iff.mp hrest, append_nil] at heq
  exact heq ▸ hs

/-! ## In 64-bit words -/

def readWordFrom (length : Nat) : List UInt8 → Nat → UInt64 → Except Error (UInt64 × Nat)
  | [], _, _ => .error (if length ≥ 10 then .overflow else .truncated)
  | byte :: rest, index, value =>
    if index ≥ 10 then .error .overflow
    else
      let low := (byte &&& 0x7f).toUInt64
      if index == 9 && low > 1 then .error .overflow
      else
        let value := value ||| low <<< UInt64.ofNat (7 * index)
        if byte &&& 0x80 == 0 then .ok (value, index + 1)
        else readWordFrom length rest (index + 1) value

def readWord (bytes : List UInt8) : Except Error (UInt64 × Nat) :=
  readWordFrom bytes.length bytes 0 0

theorem low_toNat (byte : UInt8) : (byte &&& 0x7f).toUInt64.toNat = byte.toNat % 128 := by
  have hmask : (0x7f : UInt8).toNat = 2 ^ 7 - 1 := rfl
  rw [UInt8.toNat_toUInt64, UInt8.toNat_and, hmask, Nat.and_two_pow_sub_one_eq_mod]

theorem more_iff (byte : UInt8) : (byte &&& 0x80 == 0) = decide (byte.toNat < 128) := by
  have hall : ∀ n : Fin 256, (UInt8.ofNat n &&& 0x80 == 0) = decide (n.val < 128) := by
    decide +kernel
  have h := hall ⟨byte.toNat, byte.toNat_lt⟩
  rwa [UInt8.ofNat_toNat] at h

theorem readWordFrom_eq (length : Nat) :
    ∀ (bytes : List UInt8) (index : Nat) (value : UInt64),
      (readWordFrom length bytes index value).map (fun p => (p.1.toNat, p.2)) =
        readFrom length bytes index value.toNat := by
  intro bytes
  induction bytes with
  | nil => intro index value; rfl
  | cons byte rest ih =>
    intro index value
    have hlow : decide ((byte &&& 0x7f).toUInt64 > 1) = decide (byte.toNat % 128 > 1) := by
      rw [decide_eq_decide, gt_iff_lt, UInt64.lt_iff_toNat_lt, low_toNat]
      rfl
    rw [readWordFrom, readFrom]
    simp only [hlow, more_iff]
    by_cases hten : index ≥ 10
    · rw [if_pos hten, if_pos (by simp [hten])]
      rfl
    · simp only [hten, if_false, decide_false, Bool.false_or]
      by_cases hover : (index == 9 && decide (byte.toNat % 128 > 1)) = true
      · rw [if_pos hover, if_pos hover]
        rfl
      · -- the bits taken end at the 63rd, or the tenth byte adds the 64th
        have hindex : 7 * index < 64 := by omega
        have hshift : (UInt64.ofNat (7 * index)).toNat % 64 = 7 * index := by
          rw [UInt64.toNat_ofNat', Nat.mod_eq_of_lt (lt_trans hindex (by decide)),
            Nat.mod_eq_of_lt hindex]
        have hfits : byte.toNat % 128 * 2 ^ (7 * index) < 2 ^ 64 := by
          by_cases h9 : index = 9
          · have hone : byte.toNat % 128 ≤ 1 := by simpa [h9] using hover
            rw [h9]
            omega
          · have hle : 2 ^ (7 * index + 7) ≤ 2 ^ 63 :=
              Nat.pow_le_pow_right (by decide) (by omega)
            have hmul : byte.toNat % 128 * 2 ^ (7 * index) ≤ 127 * 2 ^ (7 * index) :=
              Nat.mul_le_mul_right _ (by omega)
            rw [Nat.pow_add] at hle
            omega
        have hvalue : (value ||| (byte &&& 0x7f).toUInt64 <<< UInt64.ofNat (7 * index)).toNat =
            value.toNat ||| (byte.toNat % 128) <<< (7 * index) := by
          rw [UInt64.toNat_or, UInt64.toNat_shiftLeft, low_toNat, hshift,
            Nat.mod_eq_of_lt (by rwa [Nat.shiftLeft_eq])]
        rw [if_neg hover, if_neg hover]
        by_cases hlast : byte.toNat < 128
        · rw [if_pos (decide_eq_true hlast), if_pos hlast, ← hvalue]
          rfl
        · rw [if_neg (by simpa using hlast), if_neg hlast, ih, hvalue]

theorem readWord_eq (bytes : List UInt8) :
    (readWord bytes).map (fun p => (p.1.toNat, p.2)) = read bytes :=
  readWordFrom_eq bytes.length bytes 0 0

end VibeField.Leb128
