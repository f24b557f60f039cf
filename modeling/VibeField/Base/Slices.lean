import Mathlib.Algebra.GroupWithZero.Nat
import Mathlib.Data.List.Basic

/-!
# Slices

A list is cut into slices of one size, the last one what is left.  The parts of a list that is
being put together are those that came, each in its place; once all have come they are read in
their order.
-/

namespace VibeField

open List

universe u

variable {α : Type u}

def slice (l : List α) (size i : Nat) : List α := (l.drop (i * size)).take size

def sliceCount (length size : Nat) : Nat := (length + size - 1) / size

theorem flatMap_slices (l : List α) (size n : Nat) :
    (List.range n).flatMap (slice l size) = l.take (n * size) := by
  induction n with
  | zero => simp
  | succ n ih =>
    rw [range_succ, flatMap_append, ih, Nat.succ_mul, take_add]
    simp [slice]

theorem le_sliceCount (length : Nat) {size : Nat} (h : 0 < size) :
    length ≤ sliceCount length size * size := by
  have hdiv := Nat.div_add_mod (length + size - 1) size
  have hmod := Nat.mod_lt (length + size - 1) h
  rw [sliceCount, Nat.mul_comm]
  omega

theorem slices_whole (l : List α) {size : Nat} (h : 0 < size) :
    (List.range (sliceCount l.length size)).flatMap (slice l size) = l := by
  rw [flatMap_slices, take_of_length_le (le_sliceCount l.length h)]

theorem sliceCount_pos {length size : Nat} (h : 0 < size) (hl : 0 < length) :
    0 < sliceCount length size :=
  Nat.div_pos (by omega) h

theorem sliceCount_le_length {length size : Nat} (h : 0 < size) (hl : 0 < length) :
    sliceCount length size ≤ length := by
  rw [sliceCount, Nat.div_le_iff_le_mul_add_pred h]
  have hmul : length ≤ size * length := Nat.le_mul_of_pos_left _ h
  omega

theorem mul_lt_of_lt_sliceCount {length size i : Nat} (h : 0 < size)
    (hi : i < sliceCount length size) : i * size < length := by
  have hmul := (Nat.le_div_iff_mul_le h).mp hi
  rw [Nat.succ_mul] at hmul
  omega

theorem sliceCount_le_of_le {length length' size size' : Nat} (h' : 0 < size')
    (hle : size' ≤ size) (hl : length ≤ length') :
    sliceCount length size ≤ sliceCount length' size' := by
  have hm := le_sliceCount length' h'
  have hmul : sliceCount length' size' * size' ≤ size * sliceCount length' size' := by
    rw [Nat.mul_comm size]
    exact Nat.mul_le_mul_left _ hle
  rw [sliceCount, Nat.div_le_iff_le_mul_add_pred (by omega)]
  omega

/-! ## Parts -/

def partsSize (parts : List (Option (List α))) : Nat :=
  (parts.map fun p => (p.map List.length).getD 0).sum

def partsCount (parts : List (Option (List α))) : Nat := parts.countP Option.isSome

def assemble : List (Option (List α)) → Option (List α)
  | [] => some []
  | none :: _ => none
  | some p :: rest => (assemble rest).map fun whole => p ++ whole

theorem partsCount_le (parts : List (Option (List α))) : partsCount parts ≤ parts.length :=
  countP_le_length

@[simp]
theorem partsSize_replicate (n : Nat) :
    partsSize (List.replicate n (none : Option (List α))) = 0 := by
  simp [partsSize]

@[simp]
theorem partsCount_replicate (n : Nat) :
    partsCount (List.replicate n (none : Option (List α))) = 0 := by
  simp [partsCount]

variable {parts : List (Option (List α))}

theorem partsSize_set {i : Nat} (h : parts[i]? = some none)
    (p : List α) : partsSize (parts.set i (some p)) = partsSize parts + p.length := by
  induction parts generalizing i with
  | nil => cases h
  | cons q rest ih =>
    cases i with
    | zero =>
      obtain rfl : q = none := by simpa using h
      simp [partsSize, Nat.add_comm]
    | succ i =>
      have hrest := ih (i := i) (by simpa using h)
      simp only [partsSize, set_cons_succ, map_cons, sum_cons] at hrest ⊢
      omega

theorem partsCount_set {i : Nat} (h : parts[i]? = some none)
    (p : List α) : partsCount (parts.set i (some p)) = partsCount parts + 1 := by
  induction parts generalizing i with
  | nil => cases h
  | cons q rest ih =>
    cases i with
    | zero =>
      obtain rfl : q = none := by simpa using h
      simp [partsCount]
    | succ i =>
      have hrest := ih (i := i) (by simpa using h)
      simp only [partsCount, set_cons_succ, countP_cons] at hrest ⊢
      omega

theorem assemble_eq_some {whole : List α}
    (h : assemble parts = some whole) :
    ∃ pieces : List (List α), parts = pieces.map some ∧ whole = pieces.flatten := by
  induction parts generalizing whole with
  | nil =>
    cases h
    exact ⟨[], rfl, rfl⟩
  | cons q rest ih =>
    cases q with
    | none => cases h
    | some p =>
      obtain ⟨whole', hrest, rfl⟩ := Option.map_eq_some_iff.mp h
      obtain ⟨pieces, rfl, rfl⟩ := ih hrest
      exact ⟨p :: pieces, rfl, rfl⟩

theorem assemble_map_some (pieces : List (List α)) :
    assemble (pieces.map some) = some pieces.flatten := by
  induction pieces with
  | nil => rfl
  | cons p rest ih => rw [map_cons, assemble, ih, Option.map_some, flatten_cons]

theorem partsSize_map_some (pieces : List (List α)) :
    partsSize (pieces.map some) = pieces.flatten.length := by
  simp [partsSize, length_flatten, Function.comp_def]

end VibeField
