import Mathlib.Data.List.Basic

/-!
# Spelled texts

Each letter of a text is spelled by a word, and the text by the words of its letters.  Where a
predicate of the word's letters agrees with one of the letter it spells, cutting the spelling by the
one is cutting the text by the other.
-/

namespace VibeField.Spelling

open List

variable {α β : Type}

structure Agrees (f : α → List β) (p : β → Bool) (q : α → Bool) : Prop where
  ne : ∀ a, f a ≠ []
  same : ∀ a, ∀ b ∈ f a, p b = q a

variable {f : α → List β} {p : β → Bool} {q : α → Bool}

theorem Agrees.not (h : Agrees f p q) : Agrees f (fun b => !p b) fun a => !q a where
  ne := h.ne
  same a b hb := congrArg (fun c => !c) (h.same a b hb)

theorem Agrees.reverse (h : Agrees f p q) : Agrees (reverse ∘ f) p q where
  ne a := reverse_ne_nil_iff.mpr (h.ne a)
  same a b hb := h.same a b (mem_reverse.mp hb)

theorem dropWhile_flatMap (h : Agrees f p q) (l : List α) :
    (l.flatMap f).dropWhile p = (l.dropWhile q).flatMap f := by
  induction l with
  | nil => rfl
  | cons a l ih =>
    rw [flatMap_cons]
    cases hq : q a with
    | true =>
      rw [dropWhile_cons_of_pos hq, dropWhile_append_of_pos fun b hb => (h.same a b hb).trans hq, ih]
    | false =>
      rw [dropWhile_cons_of_neg (by simp [hq])]
      obtain ⟨b, word, hword⟩ := exists_cons_of_ne_nil (h.ne a)
      have hb := h.same a b (by simp [hword])
      rw [flatMap_cons, hword, cons_append,
        dropWhile_cons_of_neg (by simp [hb, hq])]

theorem takeWhile_flatMap (h : Agrees f p q) (l : List α) :
    (l.flatMap f).takeWhile p = (l.takeWhile q).flatMap f := by
  induction l with
  | nil => rfl
  | cons a l ih =>
    rw [flatMap_cons]
    cases hq : q a with
    | true =>
      rw [takeWhile_cons_of_pos hq, takeWhile_append_of_pos fun b hb => (h.same a b hb).trans hq, ih,
        flatMap_cons]
    | false =>
      rw [takeWhile_cons_of_neg (by simp [hq])]
      obtain ⟨b, word, hword⟩ := exists_cons_of_ne_nil (h.ne a)
      have hb := h.same a b (by simp [hword])
      rw [hword, cons_append, takeWhile_cons_of_neg (by simp [hb, hq])]
      rfl

theorem dropLast_flatMap (h : Agrees f p q) (l : List α) :
    ((l.flatMap f).reverse.dropWhile p).reverse = (l.reverse.dropWhile q).reverse.flatMap f := by
  rw [reverse_flatMap, dropWhile_flatMap h.reverse, ← flatMap_reverse]

theorem any_flatMap (h : Agrees f p q) (l : List α) : (l.flatMap f).any p = l.any q := by
  induction l with
  | nil => rfl
  | cons a l ih =>
    rw [flatMap_cons, any_append, any_cons, ih]
    congr 1
    obtain ⟨b, word, hword⟩ := exists_cons_of_ne_nil (h.ne a)
    refine Bool.eq_iff_iff.mpr ⟨fun hany => ?_, fun hq => ?_⟩
    · obtain ⟨b, hb, hp⟩ := any_eq_true.mp hany
      rwa [← h.same a b hb]
    · have hb : b ∈ f a := by simp [hword]
      exact any_eq_true.mpr ⟨b, hb, (h.same a b hb).trans hq⟩

theorem flatMap_eq_nil (h : ∀ a, f a ≠ []) {l : List α} : l.flatMap f = [] ↔ l = [] := by
  rw [flatMap_eq_nil_iff]
  refine ⟨fun hl => eq_nil_iff_forall_not_mem.mpr fun a ha => h a (hl a ha), ?_⟩
  rintro rfl
  exact fun a ha => by cases ha

theorem head_flatMap (h : Agrees f p q) (l : List α) :
    (l.flatMap f).head?.any p = l.head?.any q := by
  cases l with
  | nil => rfl
  | cons a l =>
    obtain ⟨b, word, hword⟩ := exists_cons_of_ne_nil (h.ne a)
    have hb := h.same a b (by simp [hword])
    rw [flatMap_cons, hword]
    exact hb

theorem getLast_flatMap (h : Agrees f p q) (l : List α) :
    (l.flatMap f).getLast?.any p = l.getLast?.any q := by
  rw [← List.head?_reverse, ← List.head?_reverse, reverse_flatMap, head_flatMap h.reverse]

theorem splitOnP_word {word : List β} (h : ∀ b ∈ word, p b = false) (rest : List β) :
    (word ++ rest).splitOnP p = (rest.splitOnP p).modifyHead (word ++ ·) := by
  induction word with
  | nil => cases hs : rest.splitOnP p <;> simp [hs]
  | cons b word ih =>
    obtain ⟨hb, hword⟩ := forall_mem_cons.mp h
    rw [cons_append, splitOnP_cons_eq_if_modifyHead, if_neg (by simp [hb]), ih hword,
      modifyHead_modifyHead]
    rfl

theorem splitOnP_flatMap (h : Agrees f p q) (hone : ∀ a, q a = true → ∃ b, f a = [b])
    (l : List α) : (l.flatMap f).splitOnP p = (l.splitOnP q).map fun part => part.flatMap f := by
  induction l with
  | nil => rfl
  | cons a l ih =>
    rw [flatMap_cons, splitOnP_cons_eq_if_modifyHead]
    cases hq : q a with
    | true =>
      obtain ⟨b, hword⟩ := hone a hq
      have hb : p b = true := (h.same a b (by simp [hword])).trans hq
      rw [hword, singleton_append, splitOnP_cons_eq_if_modifyHead, if_pos hb, if_pos rfl,
        ih]
      rfl
    | false =>
      rw [splitOnP_word (fun b hb => (h.same a b hb).trans hq), ih, if_neg (by simp)]
      cases hs : l.splitOnP q with
      | nil => rfl
      | cons part parts => rfl

end VibeField.Spelling
