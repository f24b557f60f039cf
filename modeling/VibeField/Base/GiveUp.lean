/-!
# Lists that give up their first items

`giveUp p n` takes the first `n` items that meet `p` out of a list and leaves the others where
they are: what a bounded journal in insertion order does to the items it may let go of.
-/

namespace VibeField

open List

universe u

variable {α : Type u}

def giveUp (p : α → Bool) : Nat → List α → List α
  | 0, l => l
  | _, [] => []
  | n + 1, a :: rest => if p a then giveUp p n rest else a :: giveUp p (n + 1) rest

variable {p : α → Bool}

theorem giveUp_sublist : ∀ (n : Nat) (l : List α), (giveUp p n l).Sublist l
  | 0, l => by
    simp [giveUp]
  | _ + 1, [] => List.Sublist.refl _
  | n + 1, a :: rest => by
    rw [giveUp]
    split
    · exact (giveUp_sublist n rest).trans (sublist_cons_self _ _)
    · exact (giveUp_sublist (n + 1) rest).cons_cons a

theorem countP_giveUp : ∀ (n : Nat) (l : List α),
    (giveUp p n l).countP p = l.countP p - n
  | 0, l => by
    rw [giveUp, Nat.sub_zero]
  | n + 1, [] => by
    simp [giveUp]
  | n + 1, a :: rest => by
    rw [giveUp]
    split
    · next ha =>
      rw [countP_giveUp n rest, countP_cons_of_pos ha]
      omega
    · next ha =>
      rw [countP_cons_of_neg ha, countP_cons_of_neg ha, countP_giveUp (n + 1) rest]

theorem mem_giveUp_of_neg {a : α} (ha : p a = false) :
    ∀ (n : Nat) {l : List α}, a ∈ l → a ∈ giveUp p n l
  | 0, l, h => by
    rw [giveUp]
    exact h
  | n + 1, x :: rest, h => by
    rw [giveUp]
    rcases mem_cons.mp h with rfl | hrest
    · rw [if_neg (by rw [ha]; exact Bool.false_ne_true)]
      exact mem_cons_self
    · split
      · exact mem_giveUp_of_neg ha n hrest
      · exact mem_cons_of_mem _ (mem_giveUp_of_neg ha (n + 1) hrest)

theorem mem_giveUp_one {a : α} :
    ∀ {l : List α}, a ∈ l → a ∈ giveUp p 1 l ∨ l.find? p = some a
  | x :: rest, h => by
    rw [giveUp, giveUp]
    by_cases hx : p x = true
    · rw [if_pos hx, List.find?_cons_of_pos hx]
      rcases mem_cons.mp h with rfl | hrest
      · exact Or.inr rfl
      · exact Or.inl hrest
    · rw [if_neg hx, List.find?_cons_of_neg hx]
      rcases mem_cons.mp h with rfl | hrest
      · exact Or.inl mem_cons_self
      · exact (mem_giveUp_one hrest).imp (mem_cons_of_mem _) id

end VibeField
