import Mathlib.Data.List.Nodup

/-!
# Who comes first in a queue

`Ahead l a b` says that `a` stands before `b` in `l`.  Serving or rotating the front
of a queue, letting a member leave, and joining at the back all keep the order of
the others.
-/

namespace VibeField

open List

universe u

variable {α : Type u}

def Ahead (l : List α) (a b : α) : Prop := [a, b].Sublist l

namespace Ahead

variable {l l' : List α} {a b x : α}

theorem mono (h : Ahead l a b) (hl : l.Sublist l') : Ahead l' a b := List.Sublist.trans h hl

theorem left_mem (h : Ahead l a b) : a ∈ l := h.subset mem_cons_self

theorem right_mem (h : Ahead l a b) : b ∈ l :=
  h.subset (mem_cons_of_mem _ mem_cons_self)

theorem join (h : Ahead l a b) (x : α) : Ahead (l ++ [x]) a b :=
  h.mono (sublist_append_left l [x])

theorem of_mem (h : a ∈ l) (x : α) : Ahead (l ++ [x]) a x :=
  (singleton_sublist.mpr h).append (List.Sublist.refl [x])

theorem of_cons (h : Ahead (x :: l) a b) (hne : a ≠ x) : Ahead l a b := by
  cases h with
  | cons _ h => exact h
  | cons_cons _ h => exact absurd rfl hne

theorem rotate (h : Ahead (x :: l) a b) (hne : a ≠ x) : Ahead (l ++ [x]) a b :=
  (h.of_cons hne).join x

theorem erase [DecidableEq α] (h : Ahead l a b) (ha : a ≠ x) (hb : b ≠ x) :
    Ahead (l.erase x) a b := by
  have he := List.Sublist.erase x h
  rwa [erase_of_not_mem (by simp [ha.symm, hb.symm])] at he

theorem total (ha : a ∈ l) (hb : b ∈ l) (hne : a ≠ b) : Ahead l a b ∨ Ahead l b a := by
  induction l with
  | nil => cases ha
  | cons c rest ih =>
    rcases mem_cons.mp ha with hac | ha'
    · have hb' := (mem_cons.mp hb).resolve_left fun hbc => hne (hac.trans hbc.symm)
      rw [← hac]
      exact .inl (List.Sublist.cons_cons _ (singleton_sublist.mpr hb'))
    · rcases mem_cons.mp hb with hbc | hb'
      · rw [← hbc]
        exact .inr (List.Sublist.cons_cons _ (singleton_sublist.mpr ha'))
      · exact (ih ha' hb').imp (fun h => h.cons _) (fun h => h.cons _)

theorem not_head (hnodup : (x :: l).Nodup) (hne : a ≠ x) : ¬ Ahead (x :: l) a x := fun h =>
  (nodup_cons.mp hnodup).1 (h.of_cons hne).right_mem

end Ahead

theorem prefix_of_served {r : α → α → Prop} (hasymm : ∀ a b, r a b → ¬ r b a) :
    ∀ {served all : List α}, served.Pairwise r → all.Pairwise r → (∀ a ∈ served, a ∈ all) →
      (∀ a ∈ served, ∀ b ∈ all, r b a → b ∈ served) → served <+: all := by
  intro served all
  induction all generalizing served with
  | nil =>
    intro _ _ hmem _
    obtain rfl : served = [] :=
      eq_nil_iff_forall_not_mem.mpr fun a ha => absurd (hmem a ha) not_mem_nil
    exact nil_prefix
  | cons b rest ih =>
    intro hserved hall hmem hclosed
    rw [pairwise_cons] at hall
    cases served with
    | nil => exact nil_prefix
    | cons a left =>
      rw [pairwise_cons] at hserved
      have hab : a = b := by
        rcases mem_cons.mp (hmem a mem_cons_self) with h | ha
        · exact h
        · have hba := hall.1 a ha
          rcases mem_cons.mp
            (hclosed a mem_cons_self b mem_cons_self hba) with h | hb
          · exact h.symm
          · exact absurd hba (hasymm _ _ (hserved.1 b hb))
      subst hab
      refine cons_prefix_cons.mpr ⟨rfl, ih hserved.2 hall.2 ?_ ?_⟩
      · intro c hc
        rcases mem_cons.mp (hmem c (mem_cons_of_mem _ hc)) with rfl | h
        · exact absurd (hserved.1 _ hc) (fun h => hasymm _ _ h h)
        · exact h
      · intro c hc d hd hdc
        rcases mem_cons.mp
          (hclosed c (mem_cons_of_mem _ hc) d (mem_cons_of_mem _ hd) hdc) with rfl | h
        · exact absurd (hall.1 _ hd) (fun h => hasymm _ _ h h)
        · exact h

end VibeField
