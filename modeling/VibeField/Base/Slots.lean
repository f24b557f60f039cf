/-!
# Numbered slots

A list that only grows gives each entry its place as a number for good.  What a place holds after
an entry was added or another written over.
-/

namespace VibeField

universe u

variable {α : Type u} {l : List α} {i n : Nat} {a b : α}

theorem getElem?_snoc : (l ++ [a])[n]? = some b ↔ l[n]? = some b ∨ n = l.length ∧ a = b := by
  grind

theorem getElem?_snoc_of_some (h : l[n]? = some b) : (l ++ [a])[n]? = some b :=
  getElem?_snoc.mpr (.inl h)

theorem getElem?_set_iff :
    (l.set i a)[n]? = some b ↔ n = i ∧ i < l.length ∧ a = b ∨ n ≠ i ∧ l[n]? = some b := by
  grind

theorem getElem?_set_iff_of_ne {old : α} (hold : l[i]? = some old) (hne : old ≠ b)
    (hnew : a ≠ b) : (l.set i a)[n]? = some b ↔ l[n]? = some b := by
  grind

end VibeField
