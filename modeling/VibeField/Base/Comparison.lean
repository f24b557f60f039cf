import Mathlib.Data.List.Sort
import Mathlib.Order.Basic

/-!
# Comparisons

A comparison is a total preorder that can be computed.  Comparisons are made of others, by a part
of the value or one after another where the first ties, and a list is sorted by one.  Where no two
items of a list tie, its sorting does not depend on the order it came in.
-/

namespace VibeField

universe u v

structure Comparison (α : Type u) where
  le : α → α → Bool
  total : ∀ a b, le a b = true ∨ le b a = true
  trans : ∀ a b c, le a b = true → le b c = true → le a c = true

namespace Comparison

variable {α : Type u} {β : Type v}

def order [LinearOrder α] : Comparison α where
  le a b := decide (a ≤ b)
  total a b := (LinearOrder.le_total a b).imp decide_eq_true decide_eq_true
  trans _ _ _ hab hbc :=
    decide_eq_true (Preorder.le_trans _ _ _ (of_decide_eq_true hab) (of_decide_eq_true hbc))

def on (c : Comparison β) (f : α → β) : Comparison α where
  le a b := c.le (f a) (f b)
  total a b := c.total (f a) (f b)
  trans a b d := c.trans (f a) (f b) (f d)

/-- Where the first ties, by the second. -/
def thenBy (c d : Comparison α) : Comparison α where
  le a b := c.le a b && (!c.le b a || d.le a b)
  total a b := by
    cases hab : c.le a b
    · rcases c.total a b with h | h
      · rw [hab] at h
        cases h
      · simp [h]
    · cases hba : c.le b a
      · simp
      · simpa using d.total a b
  trans a b e hab hbe := by
    rw [Bool.and_eq_true] at hab hbe ⊢
    refine ⟨c.trans a b e hab.1 hbe.1, ?_⟩
    cases hea : c.le e a with
    | false => rfl
    | true =>
      have hba : c.le b a = true := c.trans b e a hbe.1 hea
      have heb : c.le e b = true := c.trans e a b hea hab.1
      have h := hab.2
      have h' := hbe.2
      rw [hba] at h
      rw [heb] at h'
      exact d.trans a b e h h'

/-- Neither comes before the other. -/
def Ties (c : Comparison α) (a b : α) : Prop := c.le a b = true ∧ c.le b a = true

theorem ties_order [LinearOrder α] {a b : α} : order.Ties a b ↔ a = b := by
  constructor
  · rintro ⟨hab, hba⟩
    exact le_antisymm (of_decide_eq_true hab) (of_decide_eq_true hba)
  · rintro rfl
    exact ⟨decide_eq_true (le_refl a), decide_eq_true (le_refl a)⟩

theorem ties_thenBy {c d : Comparison α} {a b : α} :
    (c.thenBy d).Ties a b ↔ c.Ties a b ∧ d.Ties a b := by
  show (c.le a b && (!c.le b a || d.le a b)) = true ∧
      (c.le b a && (!c.le a b || d.le b a)) = true ↔
    (c.le a b = true ∧ c.le b a = true) ∧ d.le a b = true ∧ d.le b a = true
  cases hab : c.le a b <;> cases hba : c.le b a <;> simp

def sort (c : Comparison α) (l : List α) : List α := l.insertionSort fun a b => c.le a b = true

variable {c : Comparison α} {l m : List α} {a : α}

theorem sort_perm : (c.sort l).Perm l := List.perm_insertionSort _ l

theorem mem_sort : a ∈ c.sort l ↔ a ∈ l := sort_perm.mem_iff

theorem sorted_sort : (c.sort l).Pairwise fun a b => c.le a b = true := by
  have : Std.Total fun a b : α => c.le a b = true := ⟨c.total⟩
  have : IsTrans α fun a b => c.le a b = true := ⟨c.trans⟩
  exact List.pairwise_insertionSort _ l

theorem sort_congr (h : l.Perm m) (hties : ∀ a ∈ l, ∀ b ∈ l, c.Ties a b → a = b) :
    c.sort l = c.sort m := by
  refine List.Perm.eq_of_pairwise ?_ sorted_sort sorted_sort
    (sort_perm.trans (h.trans sort_perm.symm))
  intro a b ha hb hab hba
  exact hties a (mem_sort.mp ha) b (h.mem_iff.mpr (mem_sort.mp hb)) ⟨hab, hba⟩

end Comparison
end VibeField
