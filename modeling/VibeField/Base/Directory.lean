/-!
# Directories that a crash may turn back

An entry of a directory is put in place, or taken out, at once for whoever reads it, but it
is durable only when the directory has been synced.  Until then a crash may bring back, name
by name, any entry the name has had since the last sync.

A fact is sure of a name when the name has an entry, now and whatever a crash brings back,
and the fact holds of it.
-/

namespace VibeField

universe u v

structure Directory (κ : Type u) (α : Type v) where
  live : κ → Option α
  /-- what a crash may bring back in place of the live entry -/
  past : κ → List (Option α)

namespace Directory

variable {κ : Type u} {α : Type v}

def empty : Directory κ α := { live := fun _ => none, past := fun _ => [] }

def put [DecidableEq κ] (d : Directory κ α) (k : κ) (v : Option α) : Directory κ α where
  live := fun k' => if k' = k then v else d.live k'
  past := fun k' => if k' = k then d.live k :: d.past k else d.past k'

def sync (d : Directory κ α) : Directory κ α := { d with past := fun _ => [] }

def crash [DecidableEq κ] (d : Directory κ α) (back : List (κ × Option α)) : Directory κ α where
  live := fun k => (back.lookup k).getD (d.live k)
  past := fun _ => []

/-- A crash may turn back these entries. -/
def Past (d : Directory κ α) (back : List (κ × Option α)) : Prop := ∀ p ∈ back, p.2 ∈ d.past p.1

instance [DecidableEq α] (d : Directory κ α) (back : List (κ × Option α)) :
    Decidable (d.Past back) :=
  inferInstanceAs (Decidable (∀ p ∈ back, p.2 ∈ d.past p.1))

/-- What a name has, now or after a crash. -/
def MayHave (d : Directory κ α) (k : κ) (v : Option α) : Prop := v = d.live k ∨ v ∈ d.past k

def Sure (d : Directory κ α) (k : κ) (P : α → Prop) : Prop :=
  ∀ v, d.MayHave k v → ∃ a, v = some a ∧ P a

theorem Sure.live {d : Directory κ α} {k : κ} {P : α → Prop} (h : d.Sure k P) :
    ∃ a, d.live k = some a ∧ P a := h _ (.inl rfl)

/-! ## What an entry may be after each change -/

section Put

variable [DecidableEq κ] {d : Directory κ α} {k k' : κ} {v : Option α}

@[simp]
theorem live_put_self : (d.put k v).live k = v := if_pos rfl

theorem live_put_ne (h : k' ≠ k) : (d.put k v).live k' = d.live k' := if_neg h

theorem mayHave_put_self {w : Option α} :
    (d.put k v).MayHave k w ↔ w = v ∨ d.MayHave k w := by
  rw [MayHave, MayHave, live_put_self]
  show w = v ∨ w ∈ (if k = k then d.live k :: d.past k else d.past k) ↔ _
  rw [if_pos rfl, List.mem_cons]

theorem mayHave_put_ne (h : k' ≠ k) {w : Option α} :
    (d.put k v).MayHave k' w ↔ d.MayHave k' w := by
  rw [MayHave, MayHave, live_put_ne h]
  show _ ∨ w ∈ (if k' = k then d.live k :: d.past k else d.past k') ↔ _
  rw [if_neg h]

theorem Sure.put_ne {P : α → Prop} (h : d.Sure k' P) (hne : k' ≠ k) :
    (d.put k v).Sure k' P :=
  fun w hw => h w ((mayHave_put_ne hne).mp hw)

theorem Sure.put_self {P : α → Prop} {a : α} (h : d.Sure k P) (ha : P a) :
    (d.put k (some a)).Sure k P := by
  intro w hw
  rcases mayHave_put_self.mp hw with he | hw
  · exact ⟨a, he, ha⟩
  · exact h w hw

end Put

variable {d : Directory κ α}

theorem mayHave_sync {k : κ} {w : Option α} :
    d.sync.MayHave k w ↔ w = d.live k := by
  constructor
  · intro h
    cases h with
    | inl h => exact h
    | inr h => cases h
  · exact .inl

theorem Sure.sync {k : κ} {P : α → Prop} (h : d.Sure k P) :
    d.sync.Sure k P :=
  fun w hw => h w (.inl (mayHave_sync.mp hw))

theorem sure_sync {k : κ} {P : α → Prop} {a : α} (hl : d.live k = some a)
    (ha : P a) : d.sync.Sure k P := by
  intro w hw
  exact ⟨a, (mayHave_sync.mp hw).trans hl, ha⟩

section Crash

variable [DecidableEq κ] {d : Directory κ α} {back : List (κ × Option α)} {k : κ}

theorem mayHave_crash (hb : d.Past back) {w : Option α} (h : (d.crash back).MayHave k w) :
    d.MayHave k w := by
  rcases h with h | h
  · have hw : w = (back.lookup k).getD (d.live k) := h
    cases hl : back.lookup k with
    | none =>
      rw [hl] at hw
      exact .inl hw
    | some v =>
      rw [hl] at hw
      obtain ⟨l, r, hback, -⟩ := List.lookup_eq_some_iff.mp hl
      have hmem : (k, v) ∈ back := by simp [hback]
      rw [hw]
      exact .inr (hb _ hmem)
  · cases h

theorem Sure.crash {P : α → Prop} (h : d.Sure k P) (hb : d.Past back) :
    (d.crash back).Sure k P :=
  fun w hw => h w (mayHave_crash hb hw)

end Crash

end Directory
end VibeField
