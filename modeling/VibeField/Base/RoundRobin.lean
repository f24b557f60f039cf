import Mathlib.Algebra.Group.Fin.Basic
import Mathlib.Tactic.Ring

/-!
# Deficit round-robin

Classes take turns.  A class whose deficit covers what it has to send is served and pays; one whose
deficit does not gains its weight in quanta, and the turn passes.  While every class has something to
send, what two of them were served differs from their weights' proportion by a constant.
-/

namespace VibeField.RoundRobin

open Function

variable {n : Nat}

structure State (n : Nat) where
  deficits : Fin (n + 1) → Nat
  turn : Fin (n + 1)

/-- A run from a state, with the times each class was passed and what each was charged.  No cost is
above the bound. -/
inductive Run (weights : Fin (n + 1) → Nat) (quantum bound : Nat) (start : State n) :
    (Fin (n + 1) → Nat) → (Fin (n + 1) → Nat) → State n → Prop
  | refl : Run weights quantum bound start (fun _ => 0) (fun _ => 0) start
  | pass {rounds charged : Fin (n + 1) → Nat} {s : State n} {cost : Nat} :
      Run weights quantum bound start rounds charged s → cost ≤ bound → s.deficits s.turn < cost →
      Run weights quantum bound start
        (Function.update rounds s.turn (rounds s.turn + 1)) charged
        { deficits := Function.update s.deficits s.turn
            (s.deficits s.turn + weights s.turn * quantum)
          turn := s.turn + 1 }
  | serve {rounds charged : Fin (n + 1) → Nat} {s : State n} {cost : Nat} :
      Run weights quantum bound start rounds charged s → cost ≤ s.deficits s.turn →
      Run weights quantum bound start rounds
        (Function.update charged s.turn (charged s.turn + cost))
        { s with deficits := Function.update s.deficits s.turn (s.deficits s.turn - cost) }

section

variable {weights : Fin (n + 1) → Nat} {quantum bound : Nat} {start s : State n}
  {rounds charged : Fin (n + 1) → Nat}

theorem Run.balance (h : Run weights quantum bound start rounds charged s) (i : Fin (n + 1)) :
    s.deficits i + charged i = start.deficits i + rounds i * (weights i * quantum) := by
  induction h with
  | refl => simp
  | @pass rounds charged s cost _ _ _ ih =>
    dsimp only
    by_cases hi : i = s.turn
    · subst hi
      rw [update_self, update_self, Nat.succ_mul]
      omega
    · rw [update_of_ne hi, update_of_ne hi]
      exact ih
  | @serve rounds charged s cost _ hle ih =>
    dsimp only
    by_cases hi : i = s.turn
    · subst hi
      rw [update_self, update_self]
      omega
    · rw [update_of_ne hi, update_of_ne hi]
      exact ih

theorem Run.even (h : Run weights quantum bound start rounds charged s) :
    ∃ base, ∀ i, rounds i =
      base + if (i - start.turn).val < (s.turn - start.turn).val then 1 else 0 := by
  induction h with
  | refl => exact ⟨0, fun i => by simp⟩
  | serve _ _ ih => exact ih
  | @pass rounds charged s cost _ _ _ ih =>
    obtain ⟨base, hbase⟩ := ih
    have hnext : s.turn + 1 - start.turn = (s.turn - start.turn) + 1 := by
      rw [sub_add_eq_add_sub]
    have hturn : ∀ i : Fin (n + 1), (i - start.turn).val = (s.turn - start.turn).val →
        i = s.turn := fun i hi => sub_left_injective (Fin.val_injective hi)
    have hlt : ∀ i : Fin (n + 1), (i - start.turn).val ≤ n := fun i =>
      Nat.le_of_lt_succ (i - start.turn).isLt
    simp only [hnext]
    have hval := Fin.val_add_one (s.turn - start.turn)
    by_cases hlast : s.turn - start.turn = Fin.last n
    · rw [if_pos hlast] at hval
      have hpos : (s.turn - start.turn).val = n := congrArg Fin.val hlast
      refine ⟨base + 1, fun i => ?_⟩
      rw [hval, if_neg (Nat.not_lt_zero _)]
      by_cases hi : i = s.turn
      · subst hi
        rw [update_self, hbase, if_neg (Nat.lt_irrefl _)]
      · have hle := hlt i
        have hne : (i - start.turn).val ≠ n := fun heq => hi (hturn i (heq.trans hpos.symm))
        rw [update_of_ne hi, hbase, if_pos (by omega)]
    · rw [if_neg hlast] at hval
      refine ⟨base, fun i => ?_⟩
      rw [hval]
      by_cases hi : i = s.turn
      · subst hi
        rw [update_self, hbase, if_neg (Nat.lt_irrefl _), if_pos (Nat.lt_succ_self _)]
      · have hne : (i - start.turn).val ≠ (s.turn - start.turn).val := fun heq => hi (hturn i heq)
        rw [update_of_ne hi, hbase]
        congr 1
        by_cases hlt' : (i - start.turn).val < (s.turn - start.turn).val
        · rw [if_pos hlt', if_pos (by omega)]
        · rw [if_neg hlt', if_neg (by omega)]

theorem Run.rounds_le (h : Run weights quantum bound start rounds charged s)
    (i j : Fin (n + 1)) : rounds i ≤ rounds j + 1 := by
  obtain ⟨base, hbase⟩ := h.even
  rw [hbase i, hbase j]
  split <;> split <;> omega

theorem Run.deficits_le (h : Run weights quantum bound start rounds charged s)
    {level : Fin (n + 1) → Nat} (hlevel : ∀ i, bound + weights i * quantum ≤ level i)
    (hstart : ∀ i, start.deficits i ≤ level i) (i : Fin (n + 1)) : s.deficits i ≤ level i := by
  induction h with
  | refl => exact hstart i
  | @pass rounds charged s cost _ hcost hpoor ih =>
    dsimp only
    by_cases hi : i = s.turn
    · subst hi
      have hle := hlevel s.turn
      rw [update_self]
      omega
    · rw [update_of_ne hi]
      exact ih
  | @serve rounds charged s cost _ _ ih =>
    dsimp only
    by_cases hi : i = s.turn
    · subst hi
      rw [update_self]
      omega
    · rw [update_of_ne hi]
      exact ih

theorem Run.fair (h : Run weights quantum bound start rounds charged s)
    {level : Fin (n + 1) → Nat} (hlevel : ∀ i, bound + weights i * quantum ≤ level i)
    (hstart : ∀ i, start.deficits i ≤ level i) (i j : Fin (n + 1)) :
    weights j * charged i ≤ weights i * charged j +
      (weights j * level i + weights i * level j + weights i * weights j * quantum) := by
  have hi := h.balance i
  have hj := h.balance j
  have hrounds := h.rounds_le i j
  have hdeficit := h.deficits_le hlevel hstart j
  have hleft : charged i ≤ level i + rounds i * (weights i * quantum) := by
    have hle := hstart i
    omega
  have hright : rounds j * (weights j * quantum) ≤ charged j + level j := by omega
  calc weights j * charged i
      ≤ weights j * (level i + (rounds j + 1) * (weights i * quantum)) :=
        Nat.mul_le_mul_left _ (Nat.le_trans hleft (Nat.add_le_add_left
          (Nat.mul_le_mul_right _ hrounds) _))
    _ = weights j * level i + weights i * (rounds j * (weights j * quantum)) +
          weights i * weights j * quantum := by ring
    _ ≤ weights j * level i + weights i * (charged j + level j) +
          weights i * weights j * quantum :=
        Nat.add_le_add_right (Nat.add_le_add_left (Nat.mul_le_mul_left _ hright) _) _
    _ = weights i * charged j +
          (weights j * level i + weights i * level j + weights i * weights j * quantum) := by ring

end

end VibeField.RoundRobin
