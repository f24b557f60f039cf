import Mathlib.Algebra.Group.Int.Defs
import Mathlib.Algebra.Group.Nat.Defs
import Mathlib.Data.Nat.Log

/-!
# Integers as doubles

A double holds 53 bits, so integers past `2 ^ 53` are rounded: to the nearest double, and
from half way to the even one.  A double is printed with the fewest digits that round to
it, the nearest such number where there are several, and with zeros up to the unit.
-/

namespace VibeField.Double

/-! ## Rounding -/

def ulp (n : Nat) : Nat := 2 ^ (n.log2 - 52)

def toDouble (n : Nat) : Nat :=
  let q := n / ulp n
  let r := n % ulp n
  if 2 * r < ulp n ∨ 2 * r = ulp n ∧ q % 2 = 0 then q * ulp n else (q + 1) * ulp n

/-- An integer that is a double. -/
def IsDouble (n : Nat) : Prop := ∃ q e, q ≤ 2 ^ 53 ∧ n = q * 2 ^ e

theorem ulp_pos (n : Nat) : 0 < ulp n := Nat.two_pow_pos _

variable {n : Nat}

theorem toDouble_of_dvd (h : ulp n ∣ n) : toDouble n = n := by
  have hmod : n % ulp n = 0 := Nat.mod_eq_zero_of_dvd h
  have hpos := ulp_pos n
  have hdown : 2 * (n % ulp n) < ulp n ∨ 2 * (n % ulp n) = ulp n ∧ n / ulp n % 2 = 0 := by
    rw [hmod]
    exact .inl hpos
  rw [toDouble]
  rw [if_pos hdown]
  exact Nat.div_mul_cancel h

theorem log2_le {n b : Nat} (h : n < 2 ^ (b + 1)) : n.log2 ≤ b := by
  by_cases hn : n = 0
  · subst hn
    exact Nat.zero_le b
  · exact Nat.lt_succ_iff.mp ((Nat.log2_lt hn).mpr h)

theorem toDouble_of_isDouble (h : IsDouble n) : toDouble n = n := by
  obtain ⟨q, e, hq, rfl⟩ := h
  have hsmall : ∀ q e, q < 2 ^ 53 → ulp (q * 2 ^ e) ∣ q * 2 ^ e := by
    intro q e hq
    have hlt : q * 2 ^ e < 2 ^ (52 + e + 1) := by
      rw [show 52 + e + 1 = 53 + e by omega, Nat.pow_add]
      exact Nat.mul_lt_mul_of_pos_right hq (Nat.two_pow_pos e)
    have hlog := log2_le hlt
    exact Nat.dvd_mul_left_of_dvd (Nat.pow_dvd_pow 2 (by omega)) q
  apply toDouble_of_dvd
  rcases Nat.lt_or_eq_of_le hq with hlt | rfl
  · exact hsmall q e hlt
  · have hshift : 2 ^ 53 * 2 ^ e = 2 ^ 52 * 2 ^ (e + 1) := by
      rw [← Nat.pow_add, ← Nat.pow_add]
      congr 1
      omega
    rw [hshift]
    exact hsmall (2 ^ 52) (e + 1) (by decide)

theorem isDouble_small (h : n ≤ 2 ^ 53) : IsDouble n := ⟨n, 0, h, by omega⟩

theorem toDouble_small (h : n ≤ 2 ^ 53) : toDouble n = n :=
  toDouble_of_isDouble (isDouble_small h)

theorem quotient_bounds (h : 2 ^ 52 ≤ n) :
    2 ^ 52 * ulp n = 2 ^ n.log2 ∧ 2 ^ 52 ≤ n / ulp n ∧ n / ulp n < 2 ^ 53 := by
  have hn : n ≠ 0 := by omega
  have hlog : 52 ≤ n.log2 := (Nat.le_log2 hn).mpr h
  have hulp : 2 ^ 52 * ulp n = 2 ^ n.log2 := by
    rw [ulp, ← Nat.pow_add]
    congr 1
    omega
  have hlow : 2 ^ n.log2 ≤ n := Nat.log2_self_le hn
  have hhigh : n < 2 ^ (n.log2 + 1) := Nat.lt_log2_self
  refine ⟨hulp, ?_, ?_⟩
  · rw [Nat.le_div_iff_mul_le (ulp_pos n), hulp]
    exact hlow
  · rw [Nat.div_lt_iff_lt_mul (ulp_pos n)]
    calc n < 2 ^ (n.log2 + 1) := hhigh
      _ = 2 * (2 ^ 52 * ulp n) := by rw [hulp, Nat.pow_succ, Nat.mul_comm]
      _ = 2 ^ 53 * ulp n := by omega

theorem toDouble_cases (n : Nat) :
    toDouble n = n / ulp n * ulp n ∨ toDouble n = (n / ulp n + 1) * ulp n := by
  rw [toDouble]
  split
  · exact .inl rfl
  · exact .inr rfl

theorem isDouble_toDouble (n : Nat) : IsDouble (toDouble n) := by
  by_cases h : 2 ^ 52 ≤ n
  · obtain ⟨_, _, hhigh⟩ := quotient_bounds h
    rcases toDouble_cases n with heq | heq
    · exact ⟨n / ulp n, n.log2 - 52, by omega, heq⟩
    · exact ⟨n / ulp n + 1, n.log2 - 52, by omega, heq⟩
  · rw [toDouble_small (by omega)]
    exact isDouble_small (by omega)

theorem toDouble_bounds (h : 2 ^ 52 ≤ n) :
    2 ^ n.log2 ≤ toDouble n ∧ toDouble n ≤ 2 ^ (n.log2 + 1) := by
  obtain ⟨hulp, hlow, hhigh⟩ := quotient_bounds h
  have hdown : 2 ^ n.log2 ≤ n / ulp n * ulp n := by
    rw [← hulp]
    exact Nat.mul_le_mul_right _ hlow
  have hup : (n / ulp n + 1) * ulp n ≤ 2 ^ (n.log2 + 1) := by
    calc (n / ulp n + 1) * ulp n ≤ 2 ^ 53 * ulp n := Nat.mul_le_mul_right _ hhigh
      _ = 2 * (2 ^ 52 * ulp n) := by omega
      _ = 2 ^ (n.log2 + 1) := by rw [hulp, Nat.pow_succ, Nat.mul_comm]
  have hstep : n / ulp n * ulp n ≤ (n / ulp n + 1) * ulp n :=
    Nat.mul_le_mul_right _ (Nat.le_succ _)
  rcases toDouble_cases n with heq | heq <;> rw [heq] <;> omega

theorem lt_two_mul_toDouble (h : 0 < n) : n < 2 * toDouble n := by
  by_cases hn : 2 ^ 52 ≤ n
  · have hlow := (toDouble_bounds hn).1
    have hhigh : n < 2 ^ (n.log2 + 1) := Nat.lt_log2_self
    rw [Nat.pow_succ] at hhigh
    omega
  · rw [toDouble_small (by omega)]
    omega

theorem toDouble_pos (h : 0 < n) : 0 < toDouble n := by
  have := lt_two_mul_toDouble h
  omega

theorem le_toDouble (h : 2 ^ 53 ≤ n) : 2 ^ 53 ≤ toDouble n := by
  have hlog : 53 ≤ n.log2 := (Nat.le_log2 (by omega)).mpr h
  calc 2 ^ 53 ≤ 2 ^ n.log2 := Nat.pow_le_pow_right (by omega) hlog
    _ ≤ toDouble n := (toDouble_bounds (by omega)).1

theorem toDouble_le {n b : Nat} (h : n < 2 ^ (b + 1)) :
    toDouble n ≤ 2 ^ (b + 1) := by
  by_cases hn : 2 ^ 52 ≤ n
  · calc toDouble n ≤ 2 ^ (n.log2 + 1) := (toDouble_bounds hn).2
      _ ≤ 2 ^ (b + 1) := Nat.pow_le_pow_right (by omega) (by have := log2_le h; omega)
  · rw [toDouble_small (by omega)]
    exact Nat.le_of_lt h

theorem toDouble_mono {m n : Nat} (h : m ≤ n) : toDouble m ≤ toDouble n := by
  by_cases hn : n ≤ 2 ^ 53
  · rw [toDouble_small hn, toDouble_small (by omega)]
    exact h
  · have hlow := (toDouble_bounds (n := n) (by omega)).1
    have hlog : m.log2 ≤ n.log2 := by
      by_cases hm : m = 0
      · subst hm
        exact Nat.zero_le _
      · exact (Nat.le_log2 (by omega)).mpr ((Nat.log2_self_le hm).trans h)
    rcases Nat.lt_or_eq_of_le hlog with hlt | heq
    · calc toDouble m ≤ 2 ^ (m.log2 + 1) := toDouble_le Nat.lt_log2_self
        _ ≤ 2 ^ n.log2 := Nat.pow_le_pow_right (by omega) hlt
        _ ≤ toDouble n := hlow
    · have hulp : ulp m = ulp n := congrArg (fun l => 2 ^ (l - 52)) heq
      have hpos := ulp_pos n
      have hquot : m / ulp n ≤ n / ulp n := Nat.div_le_div_right h
      rcases Nat.lt_or_eq_of_le hquot with hq | hq
      · have hstep : (m / ulp n + 1) * ulp n ≤ n / ulp n * ulp n := Nat.mul_le_mul_right _ hq
        have hup : toDouble m ≤ (m / ulp n + 1) * ulp n := by
          rcases toDouble_cases m with hm | hm <;> rw [hm, hulp]
          exact Nat.mul_le_mul_right _ (Nat.le_succ _)
        have hdown : n / ulp n * ulp n ≤ toDouble n := by
          rcases toDouble_cases n with hm | hm <;> rw [hm]
          exact Nat.mul_le_mul_right _ (Nat.le_succ _)
        omega
      · -- With one quotient, only the remainder can decide.
        have hrest : m % ulp n ≤ n % ulp n := by
          have hm := Nat.div_add_mod m (ulp n)
          have hn := Nat.div_add_mod n (ulp n)
          rw [hq] at hm
          omega
        have hstep : n / ulp n * ulp n ≤ (n / ulp n + 1) * ulp n :=
          Nat.mul_le_mul_right _ (Nat.le_succ _)
        simp only [toDouble, hulp, hq]
        split <;> split <;> omega

theorem le_of_toDouble_eq (h : toDouble n = 2 ^ 53) : n ≤ 2 ^ 53 + 1 := by
  by_contra hn
  have hge : 2 ^ 53 + 2 ≤ n := by omega
  have hlog : 53 ≤ n.log2 := (Nat.le_log2 (by omega)).mpr (by omega)
  rcases Nat.lt_or_eq_of_le hlog with hlt | heq
  · have hlow := (toDouble_bounds (n := n) (by omega)).1
    have hpow : 2 ^ 54 ≤ 2 ^ n.log2 := Nat.pow_le_pow_right (by omega) hlt
    omega
  · have hulp : ulp n = 2 := congrArg (fun l => 2 ^ (l - 52)) heq.symm
    rcases toDouble_cases n with hcase | hcase <;> rw [hcase, hulp] at h <;> omega

/-! ## The fewest digits -/

def nearest (f zeros : Nat) : Nat := (2 * f + 10 ^ zeros) / (2 * 10 ^ zeros)

def shortest (f : Nat) : Nat × Nat :=
  match (List.range ((Nat.toDigits 10 f).length + 1)).reverse.find? fun zeros =>
      toDouble (nearest f zeros * 10 ^ zeros) = f with
  | some zeros => (nearest f zeros, zeros)
  | none => (f, 0)

def printed (f : Nat) : Nat := (shortest f).1 * 10 ^ (shortest f).2

theorem shortest_cases (f : Nat) :
    (∃ zeros, shortest f = (nearest f zeros, zeros) ∧
      toDouble (nearest f zeros * 10 ^ zeros) = f) ∨ shortest f = (f, 0) := by
  unfold shortest
  split
  · next zeros hfound =>
    exact .inl ⟨zeros, rfl, by simpa using List.find?_some hfound⟩
  · exact .inr rfl

theorem toDouble_printed {f : Nat} (h : IsDouble f) : toDouble (printed f) = f := by
  rcases shortest_cases f with ⟨zeros, hshort, hround⟩ | hshort
  · rw [printed, hshort]
    exact hround
  · rw [printed, hshort]
    show toDouble (f * 10 ^ 0) = f
    rw [Nat.pow_zero, Nat.mul_one]
    exact toDouble_of_isDouble h

theorem printed_small {f : Nat} (h : f ≤ 2 ^ 53) : printed f = f := by
  have hround := toDouble_printed (isDouble_small h)
  by_cases hle : printed f ≤ 2 ^ 53
  · rwa [toDouble_small hle] at hround
  · -- the number after `2 ^ 53` is no multiple of ten, and is not nearest to it either
    have hge := le_toDouble (n := printed f) (by omega)
    obtain rfl : f = 2 ^ 53 := by omega
    have hnext : printed (2 ^ 53) = 2 ^ 53 + 1 := by
      have := le_of_toDouble_eq hround
      omega
    rcases shortest_cases (2 ^ 53) with ⟨zeros, hshort, _⟩ | hshort
    · rw [printed, hshort] at hnext
      cases zeros with
      | zero =>
        rw [nearest] at hnext
        omega
      | succ zeros =>
        have hdvd : 10 ∣ 2 ^ 53 + 1 := by
          rw [← hnext]
          exact Nat.dvd_mul_left_of_dvd (Nat.dvd_mul_left 10 (10 ^ zeros)) _
        omega
    · rw [printed, hshort] at hnext
      omega

end VibeField.Double
