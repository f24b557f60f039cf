/-!
# A broadcast channel

Everything sent on a channel, and a reader with a position in it.  The channel keeps
the last `capacity` items, so a reader further behind is told that it lags and goes
on with the oldest one kept.

`Skims` says of what a reader got that it is the items in order, but for those it
was told that it passed over.  `Unbroken` says of numbered items, as a reader still has to read them, that each is
the next of the one before it, except past an item that has no number.
-/

namespace VibeField

open List

universe u

variable {α : Type u}

namespace Broadcast

/-- What a read gives, and where the reader stands after it. -/
inductive Read (α : Type u) where
  | item (a : α) (position : Nat)
  | lagged (position : Nat)
  | closed
  | waiting
  deriving DecidableEq, Repr

def recv (capacity : Nat) (sent : List α) (closed : Bool) (position : Nat) : Read α :=
  if capacity < sent.length - position then .lagged (sent.length - capacity)
  else
    match sent[position]? with
    | some a => .item a (position + 1)
    | none => if closed then .closed else .waiting

theorem of_recv_item {capacity : Nat} {sent : List α} {closed : Bool} {position next : Nat}
    {a : α} (h : recv capacity sent closed position = .item a next) :
    next = position + 1 ∧ sent.drop position = a :: sent.drop next := by
  unfold recv at h
  split at h
  · cases h
  · split at h
    · next b hb =>
      cases h
      obtain ⟨hlt, hget⟩ := List.getElem?_eq_some_iff.mp hb
      exact ⟨rfl, by rw [drop_eq_getElem_cons hlt, hget]⟩
    · split at h <;> cases h

/-- A reader told that it lags has items behind it that it never reads. -/
theorem lt_of_recv_lagged {capacity : Nat} {sent : List α} {closed : Bool} {position next : Nat}
    (h : recv capacity sent closed position = .lagged next) :
    position < next ∧ next ≤ sent.length := by
  unfold recv at h
  split at h
  · next hlag =>
    cases h
    omega
  · split at h
    · cases h
    · split at h <;> cases h

/-- Nothing is withheld from a reader that waits, or is told that nothing more will come. -/
theorem drained_of_recv {capacity : Nat} {sent : List α} {closed : Bool} {position : Nat}
    (h : recv capacity sent closed position = .closed ∨
      recv capacity sent closed position = .waiting) : sent.length ≤ position := by
  unfold recv at h
  split at h
  · rcases h with h | h <;> cases h
  · split at h
    · rcases h with h | h <;> cases h
    · next hnone => exact List.getElem?_eq_none_iff.mp hnone

end Broadcast

/-- Read in order, each item as itself; `none` stands where some were passed over. -/
inductive Skims : List α → List (Option α) → Prop
  | nil : Skims [] []
  | item (a : α) {l : List α} {r : List (Option α)} : Skims l r → Skims (a :: l) (some a :: r)
  | passed {skipped l : List α} {r : List (Option α)} : skipped ≠ [] → Skims l r →
      Skims (skipped ++ l) (none :: r)

namespace Skims

theorem append {l l' : List α} {r r' : List (Option α)} (h : Skims l r) (h' : Skims l' r') :
    Skims (l ++ l') (r ++ r') := by
  induction h with
  | nil => exact h'
  | item a _ ih => exact .item a ih
  | passed hne _ ih =>
    rw [List.append_assoc]
    exact .passed hne ih

theorem snoc {l : List α} {r : List (Option α)} (h : Skims l r) (a : α) :
    Skims (l ++ [a]) (r ++ [some a]) := h.append (.item a .nil)

theorem snoc_passed {l skipped : List α} {r : List (Option α)} (h : Skims l r)
    (hne : skipped ≠ []) : Skims (l ++ skipped) (r ++ [none]) := by
  have hpassed := Skims.passed hne (l := []) .nil
  rw [List.append_nil] at hpassed
  exact h.append hpassed

end Skims

def Unbroken (number : α → Option Nat) : Nat → List α → Nat → Prop
  | first, [], next => first = next
  | first, a :: rest, next =>
    match number a with
    | some n => n = first ∧ Unbroken number (first + 1) rest next
    | none => ∃ later, Unbroken number later rest next

namespace Unbroken

variable {number : α → Option Nat} {first next : Nat} {l : List α} {a : α}

theorem of_item {n : Nat} (h : Unbroken number first (a :: l) next) (ha : number a = some n) :
    n = first ∧ Unbroken number (n + 1) l next := by
  rw [Unbroken, ha] at h
  obtain ⟨rfl, hrest⟩ := h
  exact ⟨rfl, hrest⟩

theorem tail (h : Unbroken number first (a :: l) next) : ∃ later, Unbroken number later l next := by
  rw [Unbroken] at h
  split at h
  · exact ⟨_, h.2⟩
  · exact h

theorem drop (h : Unbroken number first l next) :
    ∀ n, ∃ later, Unbroken number later (l.drop n) next := by
  intro n
  induction n generalizing first l with
  | zero => exact ⟨first, h⟩
  | succ n ih =>
    cases l with
    | nil => exact ⟨first, h⟩
    | cons a rest =>
      obtain ⟨later, hrest⟩ := h.tail
      exact ih hrest

theorem snoc (h : Unbroken number first l next) (ha : number a = some next) :
    Unbroken number first (l ++ [a]) (next + 1) := by
  induction l generalizing first with
  | nil =>
    rw [Unbroken] at h
    subst h
    rw [nil_append, Unbroken, ha]
    exact ⟨rfl, rfl⟩
  | cons b rest ih =>
    rw [cons_append, Unbroken]
    rw [Unbroken] at h
    split at h
    · exact ⟨h.1, ih h.2⟩
    · exact h.imp fun _ hrest => ih hrest

theorem snoc_gap (h : Unbroken number first l next) (ha : number a = none) (later : Nat) :
    Unbroken number first (l ++ [a]) later := by
  induction l generalizing first with
  | nil =>
    rw [nil_append, Unbroken, ha]
    exact ⟨later, rfl⟩
  | cons b rest ih =>
    rw [cons_append, Unbroken]
    rw [Unbroken] at h
    split at h
    · exact ⟨h.1, ih h.2⟩
    · exact h.imp fun _ hrest => ih hrest

end Unbroken
end VibeField
