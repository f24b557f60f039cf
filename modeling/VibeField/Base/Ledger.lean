import VibeField.Base.Dict

/-!
# Ledgers

A ledger counts what was handed out per key: the first number is one, and each next one
is one more.  A memory keeps the last answers given under a key's request names, and
forgets the oldest first.
-/

namespace VibeField.Ledger

open List

universe u v

/-! ## Numbers handed out -/

section Counters

variable {κ : Type u} [DecidableEq κ]

def count (d : Dict κ Nat) (k : κ) : Nat := (d.lookup k).getD 0

def bump (d : Dict κ Nat) (k : κ) : Dict κ Nat := d.insert k (count d k + 1)

theorem count_bump (d : Dict κ Nat) (k k' : κ) :
    count (bump d k) k' = if k' = k then count d k + 1 else count d k' := by
  rw [count, bump, Dict.lookup_insert]
  by_cases h : k' = k
  · rw [if_pos h, if_pos h]
    rfl
  · rw [if_neg h, if_neg h]
    rfl

def numbersOf (log : List (κ × Nat)) (k : κ) : List Nat :=
  (log.filter fun e => e.1 = k).map fun e => e.2

/-- Each number up to the last was handed out once, in order. -/
def Counts (d : Dict κ Nat) (log : List (κ × Nat)) : Prop :=
  ∀ k, numbersOf log k = List.range' 1 (count d k)

theorem Counts.empty : Counts (∅ : Dict κ Nat) [] := fun _ => rfl

theorem numbersOf_append (log : List (κ × Nat)) (k k' : κ) (n : Nat) :
    numbersOf (log ++ [(k, n)]) k' =
      if k' = k then numbersOf log k' ++ [n] else numbersOf log k' := by
  unfold numbersOf
  rw [filter_append, map_append]
  by_cases h : k' = k
  · rw [if_pos h, filter_cons_of_pos (by simpa using h.symm)]
    rfl
  · rw [if_neg h, filter_cons_of_neg (by simpa using Ne.symm h)]
    simp

theorem Counts.bump {d : Dict κ Nat} {log : List (κ × Nat)} (h : Counts d log) (k : κ) :
    Counts (bump d k) (log ++ [(k, count d k + 1)]) := by
  intro k'
  rw [numbersOf_append, count_bump]
  by_cases hk : k' = k
  · subst hk
    rw [if_pos rfl, if_pos rfl, h k', range'_concat]
    congr 2
    omega
  · rw [if_neg hk, if_neg hk]
    exact h k'

theorem Counts.rising {d : Dict κ Nat} {log : List (κ × Nat)} (h : Counts d log) (k : κ)
    {part : List Nat} (hpart : part.Sublist (numbersOf log k)) : part.Pairwise (· < ·) := by
  rw [h k] at hpart
  exact List.Pairwise.sublist hpart pairwise_lt_range'

end Counters

/-! ## The last answers -/

section Memory

variable {κ : Type u} {α : Type v} [DecidableEq κ]

def answerTo (memory : List (κ × α)) (name : κ) : Option α :=
  (memory.find? fun e => e.1 = name).map fun e => e.2

def remember (limit : Nat) (memory : List (κ × α)) (name : κ) (answer : α) : List (κ × α) :=
  let grown := memory ++ [(name, answer)]
  grown.drop (grown.length - limit)

def recent (limit : Nat) (log : List (κ × α)) : List (κ × α) := log.drop (log.length - limit)

omit [DecidableEq κ] in
theorem remember_recent (limit : Nat) (log : List (κ × α)) (name : κ) (answer : α) :
    remember limit (recent limit log) name answer = recent limit (log ++ [(name, answer)]) := by
  unfold remember recent
  simp only [length_append, length_drop, length_singleton]
  have hle : log.length - limit ≤ log.length := Nat.sub_le _ _
  rw [← drop_append_of_le_length hle, drop_drop]
  congr 1
  omega

variable {answer : α} {limit : Nat} {memory : List (κ × α)} {name : κ}

omit [DecidableEq κ] in
theorem mem_recent {pre post : List (κ × α)} {e : κ × α} (h : post.length < limit) :
    e ∈ recent limit (pre ++ e :: post) := by
  unfold recent
  have hle : (pre ++ e :: post).length - limit ≤ pre.length := by
    simp only [length_append, length_cons]
    omega
  rw [drop_append_of_le_length hle]
  exact mem_append_right _ mem_cons_self

omit [DecidableEq κ] in
theorem mem_of_mem_recent {log : List (κ × α)} {e : κ × α} (h : e ∈ recent limit log) :
    e ∈ log := mem_of_mem_drop h

theorem mem_of_answerTo (h : answerTo memory name = some answer) : (name, answer) ∈ memory := by
  obtain ⟨e, he, rfl⟩ := Option.map_eq_some_iff.mp h
  have hname : e.1 = name := by simpa using List.find?_some he
  rw [← hname]
  exact List.mem_of_find?_eq_some he

theorem answerTo_eq_none : answerTo memory name = none ↔ name ∉ memory.map fun e => e.1 := by
  rw [answerTo, Option.map_eq_none_iff, List.find?_eq_none]
  constructor
  · intro h hmem
    obtain ⟨e, he, hname⟩ := mem_map.mp hmem
    exact h e he (decide_eq_true hname)
  · intro h e he hname
    exact h (mem_map.mpr ⟨e, he, of_decide_eq_true hname⟩)

theorem answerTo_of_mem (hnodup : (memory.map fun e => e.1).Nodup) (h : (name, answer) ∈ memory) :
    answerTo memory name = some answer := by
  induction memory with
  | nil => cases h
  | cons e rest ih =>
    rw [map_cons, nodup_cons] at hnodup
    rw [answerTo, List.find?_cons]
    cases mem_cons.mp h with
    | inl heq =>
      subst heq
      simp
    | inr hmem =>
      have hne : e.1 ≠ name := fun heq => hnodup.1 (mem_map.mpr ⟨_, hmem, heq.symm⟩)
      rw [show decide (e.1 = name) = false from decide_eq_false hne]
      exact ih hnodup.2 hmem

omit [DecidableEq κ] in
theorem nodup_remember (hnodup : (memory.map fun e => e.1).Nodup)
    (hnew : name ∉ memory.map fun e => e.1) :
    ((remember limit memory name answer).map fun e => e.1).Nodup := by
  have hgrown : ((memory ++ [(name, answer)]).map fun e => e.1).Nodup := by
    rw [map_append, nodup_append]
    refine ⟨hnodup, nodup_singleton _, ?_⟩
    intro x hx y hy hxy
    obtain rfl : y = name := by simpa using hy
    exact hnew (hxy ▸ hx)
  exact hgrown.sublist ((drop_sublist _ _).map _)

end Memory

end VibeField.Ledger
