import Mathlib.Data.List.Basic

/-!
# Concurrent tasks

A task is the list of items it has still to perform, in order.  Any task may
perform its head at any time.  An item is outstanding while some task has it.
-/

namespace VibeField

open List

universe u

abbrev Tasks (ι : Type u) := List (List ι)

namespace Tasks

variable {ι : Type u} {q : Tasks ι} {i j : ι} {n : Nat} {front follow : List ι}

def Outstanding (q : Tasks ι) (i : ι) : Prop := ∃ task ∈ q, i ∈ task

def head (q : Tasks ι) (n : Nat) : Option ι := q[n]?.bind List.head?

def spawn (q : Tasks ι) (items : List ι) : Tasks ι := q ++ [items]

def advance (q : Tasks ι) (n : Nat) (front follow : List ι) : Tasks ι :=
  q.modify n fun task => front ++ task.tail ++ follow

/-- Every task has performed everything. -/
def Idle (q : Tasks ι) : Prop := ∀ task ∈ q, task = []

instance [DecidableEq ι] (q : Tasks ι) : Decidable q.Idle :=
  inferInstanceAs (Decidable (∀ task ∈ q, task = []))

/-- Some task has `i` with no `j` behind it. -/
def Bare (q : Tasks ι) (i j : ι) : Prop :=
  ∃ task ∈ q, ∃ before after, task = before ++ i :: after ∧ j ∉ after

theorem not_outstanding_nil : ¬ Outstanding ([] : Tasks ι) i := by
  rintro ⟨_, h, -⟩
  cases h

theorem Idle.not_outstanding (h : Idle q) : ¬ q.Outstanding i := by
  rintro ⟨task, htask, hi⟩
  rw [h task htask] at hi
  cases hi

theorem outstanding_spawn {items : List ι} :
    (q.spawn items).Outstanding i ↔ q.Outstanding i ∨ i ∈ items := by
  constructor
  · rintro ⟨task, htask, hi⟩
    rcases mem_append.mp htask with h | h
    · exact .inl ⟨task, h, hi⟩
    · rw [mem_singleton.mp h] at hi
      exact .inr hi
  · rintro (⟨task, htask, hi⟩ | hi)
    · exact ⟨task, mem_append_left _ htask, hi⟩
    · exact ⟨items, mem_append_right _ (mem_singleton.mpr rfl), hi⟩

theorem head_spec (h : q.head n = some j) :
    ∃ rest before after, q = before ++ (j :: rest) :: after ∧
      ∀ front follow, q.advance n front follow =
        before ++ (front ++ rest ++ follow) :: after := by
  obtain ⟨task, htask, hj⟩ := Option.bind_eq_some_iff.mp h
  obtain ⟨hn, htask⟩ := List.getElem?_eq_some_iff.mp htask
  obtain ⟨rest, rfl⟩ : ∃ rest, task = j :: rest := by
    cases task with
    | nil => cases hj
    | cons k rest => cases hj; exact ⟨rest, rfl⟩
  have hq : q = q.take n ++ (j :: rest) :: q.drop (n + 1) := by
    rw [← htask, ← drop_eq_getElem_cons hn, take_append_drop]
  refine ⟨rest, q.take n, q.drop (n + 1), hq, fun front follow => ?_⟩
  rw [advance, modify_eq_take_drop, drop_eq_getElem_cons hn, htask]
  rfl

theorem outstanding_head (h : q.head n = some j) : q.Outstanding j := by
  obtain ⟨rest, before, after, hq, -⟩ := head_spec h
  exact ⟨j :: rest, by rw [hq]; simp, mem_cons_self⟩

theorem outstanding_advance (h : q.head n = some j)
    (hi : (q.advance n front follow).Outstanding i) :
    q.Outstanding i ∨ i ∈ front ∨ i ∈ follow := by
  obtain ⟨rest, before, after, hq, hadvance⟩ := head_spec h
  rw [hadvance] at hi
  obtain ⟨task, htask, hi⟩ := hi
  rcases mem_append.mp htask with hb | ha
  · exact .inl ⟨task, by rw [hq]; exact mem_append_left _ hb, hi⟩
  · rcases mem_cons.mp ha with rfl | ha
    · rcases mem_append.mp hi with hi | hi
      · rcases mem_append.mp hi with hi | hi
        · exact .inr (.inl hi)
        · exact .inl ⟨j :: rest, by rw [hq]; simp, mem_cons_of_mem _ hi⟩
      · exact .inr (.inr hi)
    · exact .inl ⟨task, by rw [hq]; simp [ha], hi⟩

theorem outstanding_advance_of_ne (h : q.head n = some j) (hi : q.Outstanding i)
    (hne : i ≠ j) : (q.advance n front follow).Outstanding i := by
  obtain ⟨rest, before, after, hq, hadvance⟩ := head_spec h
  rw [hq] at hi
  rw [hadvance]
  obtain ⟨task, htask, hi⟩ := hi
  rcases mem_append.mp htask with hb | ha
  · exact ⟨task, mem_append_left _ hb, hi⟩
  · rcases mem_cons.mp ha with rfl | ha
    · have hrest : i ∈ rest := (mem_cons.mp hi).resolve_left hne
      exact ⟨front ++ rest ++ follow, by simp, by simp [hrest]⟩
    · exact ⟨task, by simp [ha], hi⟩

theorem outstanding_front (h : q.head n = some j) (hi : i ∈ front) :
    (q.advance n front follow).Outstanding i := by
  obtain ⟨rest, before, after, -, hadvance⟩ := head_spec h
  rw [hadvance]
  exact ⟨front ++ rest ++ follow, by simp, by simp [hi]⟩

theorem outstanding_follow (h : q.head n = some j) (hi : i ∈ follow) :
    (q.advance n front follow).Outstanding i := by
  obtain ⟨rest, before, after, -, hadvance⟩ := head_spec h
  rw [hadvance]
  exact ⟨front ++ rest ++ follow, by simp, by simp [hi]⟩

theorem not_outstanding_of_not_bare (h : q.head n = some j) (hbare : ¬ q.Bare i j)
    (hj : ¬ (q.advance n [] follow).Outstanding j) (hne : i ≠ j) : ¬ q.Outstanding i := by
  rintro ⟨task, htask, hi⟩
  obtain ⟨before, after, rfl⟩ := append_of_mem hi
  have hafter : j ∈ after := by
    by_contra hnot
    exact hbare ⟨_, htask, before, after, rfl, hnot⟩
  obtain ⟨rest, others, others', hq, hadvance⟩ := head_spec h
  refine hj ?_
  rw [hadvance]
  rw [hq] at htask
  rcases mem_append.mp htask with hb | ha
  · exact ⟨_, mem_append_left _ hb, by simp [hafter]⟩
  · rcases mem_cons.mp ha with heq | ha
    · -- the `i` stands behind the head, and a `j` behind it
      have hrest : j ∈ rest := by
        cases before with
        | nil =>
          rw [nil_append] at heq
          exact absurd (List.cons.inj heq).1 hne
        | cons b bs =>
          rw [cons_append] at heq
          rw [← (List.cons.inj heq).2]
          simp [hafter]
      exact ⟨[] ++ rest ++ follow, by simp, by simp [hrest]⟩
    · exact ⟨_, mem_append_right _ (mem_cons_of_mem _ ha), by simp [hafter]⟩

theorem not_bare_spawn {items : List ι} (hq : ¬ q.Bare i j)
    (hitems : ∀ before after, items = before ++ i :: after → j ∈ after) :
    ¬ (q.spawn items).Bare i j := by
  rintro ⟨task, htask, before, after, heq, hj⟩
  rcases mem_append.mp htask with h | h
  · exact hq ⟨task, h, before, after, heq, hj⟩
  · rw [mem_singleton.mp h] at heq
    exact hj (hitems before after heq)

theorem not_bare_advance {k : ι} (h : q.head n = some k) (hfront : i ∉ front)
    (hbare : ¬ q.Bare i j) : ¬ (q.advance n front []).Bare i j := by
  obtain ⟨rest, others, others', hq, hadvance⟩ := head_spec h
  rw [hadvance, append_nil]
  rintro ⟨task, htask, before, after, heq, hj⟩
  rcases mem_append.mp htask with hb | ha
  · exact hbare ⟨task, by rw [hq]; exact mem_append_left _ hb, before, after, heq, hj⟩
  · rcases mem_cons.mp ha with rfl | ha
    · -- the `i` stands behind what the task does now
      obtain ⟨front', hfront'⟩ : ∃ front', rest = front' ++ i :: after := by
        rcases append_eq_append_iff.mp heq with ⟨l, -, hr⟩ | ⟨l, hl, hr⟩
        · exact ⟨l, hr⟩
        · cases l with
          | nil => exact ⟨[], hr.symm⟩
          | cons a l =>
            rw [cons_append] at hr
            rw [← (List.cons.inj hr).1] at hl
            exact absurd (by rw [hl]; simp) hfront
      exact hbare ⟨k :: rest, by rw [hq]; simp, k :: front', after, by rw [hfront']; rfl, hj⟩
    · exact hbare ⟨task, by rw [hq]; simp [ha], before, after, heq, hj⟩

theorem outstanding_of_not_bare (h : q.head n = some i) (hbare : ¬ q.Bare i j) :
    (q.advance n front follow).Outstanding j := by
  obtain ⟨rest, others, others', hq, hadvance⟩ := head_spec h
  have hj : j ∈ rest := by
    by_contra hnot
    exact hbare ⟨i :: rest, by rw [hq]; simp, [], rest, rfl, hnot⟩
  rw [hadvance]
  exact ⟨front ++ rest ++ follow, by simp, by simp [hj]⟩

end Tasks
end VibeField
