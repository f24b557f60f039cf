import VibeField.Base.Dict

/-!
# Whole images on their way to a file

A memory is kept in a file by writing whole images of it.  An image is taken when its
write starts and numbered in that order; several writes can be under way at once and
they may land in any order.

A fact that holds of the memory from some number on holds of every image taken since
(`Since`), whatever lands and whatever is dropped.  It holds of the file as soon as one
of those images is the one in the file.
-/

namespace VibeField

open Dict

universe u

structure Shelf (μ : Type u) where
  file : μ
  /-- the number of the image in the file -/
  newest : Nat
  /-- the number the next image gets -/
  next : Nat
  flights : Dict Nat μ

namespace Shelf

variable {μ : Type u}

def start (m : μ) : Shelf μ := { file := m, newest := 0, next := 1, flights := ∅ }

def take (s : Shelf μ) (m : μ) : Shelf μ :=
  { s with next := s.next + 1, flights := s.flights.insert s.next m }

def land (s : Shelf μ) (t : Nat) : Option (Shelf μ) :=
  (s.flights.lookup t).map fun m =>
    { s with file := m, newest := t, flights := s.flights.erase t }

def drop (s : Shelf μ) (t : Nat) : Shelf μ := { s with flights := s.flights.erase t }

/-- Every number handed out so far is below the next one. -/
def Numbered (s : Shelf μ) : Prop :=
  s.newest < s.next ∧ ∀ t m, s.flights.lookup t = some m → t < s.next

/-- `P` holds of every image numbered `k` or later. -/
def Since (s : Shelf μ) (P : μ → Prop) (k : Nat) : Prop :=
  (k ≤ s.newest → P s.file) ∧ ∀ t m, s.flights.lookup t = some m → k ≤ t → P m

variable {P : μ → Prop} {k t : Nat} {s s' : Shelf μ}

theorem land_eq_some (h : s.land t = some s') :
    ∃ m, s.flights.lookup t = some m ∧
      s' = { s with file := m, newest := t, flights := s.flights.erase t } := by
  obtain ⟨m, hm, rfl⟩ := Option.map_eq_some_iff.mp h
  exact ⟨m, hm, rfl⟩

theorem lookup_of_erased {t u : Nat} {m : μ} (h : (s.flights.erase t).lookup u = some m) :
    u ≠ t ∧ s.flights.lookup u = some m := by
  rw [lookup_erase] at h
  by_cases hu : u = t
  · rw [if_pos hu] at h
    cases h
  · rw [if_neg hu] at h
    exact ⟨hu, h⟩

/-! ## Numbers -/

theorem numbered_start (m : μ) : (start m).Numbered := by
  refine ⟨Nat.zero_lt_one, fun t n h => ?_⟩
  rw [start, lookup_empty] at h
  cases h

theorem Numbered.take (h : s.Numbered) (m : μ) : (s.take m).Numbered := by
  obtain ⟨hn, hf⟩ := h
  constructor
  · show s.newest < s.next + 1
    omega
  · intro t n ht
    show t < s.next + 1
    rw [Shelf.take, lookup_insert] at ht
    by_cases hte : t = s.next
    · omega
    · rw [if_neg hte] at ht
      have := hf t n ht
      omega

theorem Numbered.land (h : s.Numbered) (hs : s.land t = some s') : s'.Numbered := by
  obtain ⟨m, hm, rfl⟩ := land_eq_some hs
  exact ⟨h.2 t m hm, fun u n hu => h.2 u n (lookup_of_erased hu).2⟩

theorem Numbered.drop (h : s.Numbered) (t : Nat) : (s.drop t).Numbered :=
  ⟨h.1, fun u n hu => h.2 u n (lookup_of_erased hu).2⟩

/-! ## What the images hold -/

theorem Numbered.since_next (h : s.Numbered) (P : μ → Prop) : s.Since P s.next := by
  obtain ⟨hn, hf⟩ := h
  constructor
  · intro hle
    omega
  · intro t m ht hle
    have := hf t m ht
    omega

theorem Since.take (h : s.Since P k) {m : μ} (hm : P m) : (s.take m).Since P k := by
  obtain ⟨hfile, hf⟩ := h
  refine ⟨hfile, fun t n ht hk => ?_⟩
  rw [Shelf.take, lookup_insert] at ht
  by_cases hte : t = s.next
  · rw [if_pos hte] at ht
    cases ht
    exact hm
  · rw [if_neg hte] at ht
    exact hf t n ht hk

theorem Since.land (h : s.Since P k) (hs : s.land t = some s') : s'.Since P k := by
  obtain ⟨m, hm, rfl⟩ := land_eq_some hs
  exact ⟨fun hk => h.2 t m hm hk, fun u n hu hk => h.2 u n (lookup_of_erased hu).2 hk⟩

theorem Since.drop (h : s.Since P k) (t : Nat) : (s.drop t).Since P k :=
  ⟨h.1, fun u n hu hk => h.2 u n (lookup_of_erased hu).2 hk⟩

theorem Since.file (h : s.Since P k) (hk : k ≤ s.newest) : P s.file := h.1 hk

theorem lookup_take_next (s : Shelf μ) (m : μ) : (s.take m).flights.lookup s.next = some m := by
  rw [take, lookup_insert, if_pos rfl]

end Shelf
end VibeField
