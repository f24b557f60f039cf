import VibeField.Fieldd.ProjectRecords

/-!
# Records and their groups

A record names one group at most, and a group that a record names has the record's recipe.
-/

namespace VibeField.Fieldd.ProjectRecords

open ProjectDoc List Option

/-- What holds of the groups once the records of `bound` have been bound to them. -/
structure Bound (bound : List Record) (projects : List GroupedProject) : Prop where
  unnamed : ∀ (i : Nat) (g : GroupedProject), projects[i]? = some g → g.recordId = none →
    g.recipe = none
  named : ∀ (i : Nat) (g : GroupedProject) (id : Text), projects[i]? = some g →
    g.recordId = some id → ∃ r ∈ bound, r.id = id ∧ g.recipe = r.recipe
  once : ∀ (i j : Nat) (g g' : GroupedProject) (id : Text), projects[i]? = some g →
    projects[j]? = some g' → g.recordId = some id → g'.recordId = some id → i = j

variable {excluded : Text → List Text} {bound records : List Record} {r : Record}
  {projects : List GroupedProject} {groups : List PlaceGroup}

theorem named_of_some {g : GroupedProject} {id : Text} (h : g.recordId = some id) :
    named r g = g := by
  unfold named
  rw [h]

theorem named_of_none {g : GroupedProject} (h : g.recordId = none) (hrecipe : g.recipe = none) :
    (named r g).recordId = some r.id ∧ (named r g).recipe = r.recipe := by
  unfold named
  rw [h, hrecipe]
  exact ⟨rfl, or_none⟩

theorem Bound.bind (h : Bound bound projects) (hnew : r.id ∉ bound.map GroupingRecord.id) :
    Bound (bound ++ [r]) (bindRecord excluded projects r) := by
  have hold {i : Nat} {g : GroupedProject} {id : Text} (hg : projects[i]? = some g)
      (hid : g.recordId = some id) : ∃ r' ∈ bound ++ [r], r'.id = id ∧ g.recipe = r'.recipe := by
    obtain ⟨r', hr', hsame⟩ := h.named i g id hg hid
    exact ⟨r', mem_append_left _ hr', hsame⟩
  have hne {i : Nat} {g : GroupedProject} (hg : projects[i]? = some g) :
      g.recordId ≠ some r.id := by
    intro hid
    obtain ⟨r', hr', hsame, -⟩ := h.named i g r.id hg hid
    exact hnew (hsame ▸ List.mem_map_of_mem hr')
  unfold bindRecord
  split
  · exact ⟨h.unnamed, fun i g id hg hid => hold hg hid, h.once⟩
  · next best _ =>
    -- the group at `best.2` gets the name where it has none; the others stay
    have hcases {i : Nat} {g : GroupedProject}
        (hg : (projects.modify best.2 (ProjectRecords.named r))[i]? = some g) :
        projects[i]? = some g ∨
          i = best.2 ∧ g.recordId = some r.id ∧ g.recipe = r.recipe := by
      rw [List.getElem?_modify] at hg
      obtain ⟨g', hg', rfl⟩ := map_eq_some_iff.mp hg
      split
      · next hi =>
        cases hid : g'.recordId with
        | none =>
          obtain ⟨hname, hrecipe⟩ := named_of_none (r := r) hid (h.unnamed i g' hg' hid)
          exact Or.inr ⟨hi.symm, hname, hrecipe⟩
        | some id =>
          rw [named_of_some hid]
          exact Or.inl hg'
      · exact Or.inl hg'
    constructor
    · intro i g hg hnone
      rcases hcases hg with hg | ⟨-, hid, -⟩
      · exact h.unnamed i g hg hnone
      · rw [hnone] at hid
        cases hid
    · intro i g id hg hid
      rcases hcases hg with hg | ⟨-, hname, hrecipe⟩
      · exact hold hg hid
      · rw [hname] at hid
        exact ⟨r, mem_append_right _ mem_cons_self, some.inj hid, hrecipe⟩
    · intro i j g g' id hg hg' hid hid'
      rcases hcases hg with hg | ⟨hi, hname, -⟩
      · rcases hcases hg' with hg' | ⟨-, hname, -⟩
        · exact h.once i j g g' id hg hg' hid hid'
        · exact absurd (hid.trans (hid'.symm.trans hname)) (hne hg)
      · rcases hcases hg' with hg' | ⟨hj, -, -⟩
        · exact absurd (hid'.trans (hid.symm.trans hname)) (hne hg')
        · exact hi.trans hj.symm

theorem Bound.foldl (h : Bound bound projects)
    (hnodup : ((bound ++ records).map GroupingRecord.id).Nodup) :
    Bound (bound ++ records) (records.foldl (bindRecord excluded) projects) := by
  induction records generalizing bound projects with
  | nil => rwa [append_nil]
  | cons r rest ih =>
    have hr : r.id ∉ bound.map GroupingRecord.id := by
      rw [map_append, map_cons] at hnodup
      exact fun hmem => (nodup_append.mp hnodup).2.2 r.id hmem r.id mem_cons_self rfl
    have hsplit : bound ++ r :: rest = bound ++ [r] ++ rest := by simp
    rw [hsplit] at hnodup ⊢
    exact ih (h.bind hr) hnodup

theorem bound_bindRecords (hnodup : (records.map GroupingRecord.id).Nodup) :
    Bound records (bindRecords excluded groups records) := by
  have hperm := Comparison.sort_perm (c := byAge) (l := records)
  have hstart : Bound [] (groups.map fun g => { g with recordId := none, recipe := none }) := by
    have hnone (i : Nat) (g : GroupedProject)
        (hg : (groups.map fun g : PlaceGroup =>
          { g with recordId := none, recipe := none : GroupedProject })[i]? = some g) :
        g.recordId = none ∧ g.recipe = none := by
      rw [List.getElem?_map] at hg
      obtain ⟨g', -, rfl⟩ := map_eq_some_iff.mp hg
      exact ⟨rfl, rfl⟩
    refine ⟨fun i g hg _ => (hnone i g hg).2, fun i g id hg hid => ?_,
      fun i _ g _ id hg _ hid _ => ?_⟩
    · rw [(hnone i g hg).1] at hid
      cases hid
    · rw [(hnone i g hg).1] at hid
      cases hid
  have hall : Bound ([] ++ byAge.sort records) (bindRecords excluded groups records) :=
    hstart.foldl (((hperm.map _).nodup_iff).mpr hnodup)
  refine ⟨hall.unnamed, fun i g id hg hid => ?_, hall.once⟩
  obtain ⟨r, hr, hsame⟩ := hall.named i g id hg hid
  exact ⟨r, Comparison.mem_sort.mp hr, hsame⟩

end VibeField.Fieldd.ProjectRecords
