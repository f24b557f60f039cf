import VibeField.Fieldd.ProjectDrain

/-!
# What the library holds after an act's writes
-/

namespace VibeField.Fieldd.ProjectRecords

open ProjectDoc List Option

variable {P : Type} [LinearOrder P] {p : P} {doc doc' : ProjectDoc.Doc P} {d : Applied P}
  {m m' : MapName} {key key' record : Text} {value : Value} {Q : Key → Prop}

theorem get_put_self : get (stamped p doc m key value :: doc) m key = some value := by
  have hkey : (stamped p doc m key value).key = (m, key) := rfl
  rw [ProjectDoc.get, Write.read, Write.newest, if_pos hkey]
  cases hnew : Write.newest doc (m, key) with
  | none => rfl
  | some v =>
    have hlt : v.lamport < (stamped p doc m key value).lamport :=
      Write.lt_nextLamport (Write.newest_mem hnew).1
    have hbefore : v.Before (stamped p doc m key value) := Or.inl hlt
    show ((if v.Before (stamped p doc m key value) then some (stamped p doc m key value)
      else some v).map Write.value) = some value
    rw [if_pos hbefore]
    rfl

theorem get_put_ne (h : (m', key') ≠ (m, key)) :
    get (stamped p doc m' key' value :: doc) m key = get doc m key := by
  have hkey : (stamped p doc m' key' value).key ≠ (m, key) := h
  rw [ProjectDoc.get, ProjectDoc.get, Write.read, Write.read, Write.newest, if_neg hkey]

theorem get_set_self : get (set p d m key value).doc m key = some value := by
  unfold ProjectDoc.set
  split
  · next h => exact h
  · exact get_put_self

theorem get_puts (h : Puts p Q doc doc') (hk : ¬ Q (m, key)) : get doc' m key = get doc m key := by
  induction h with
  | refl => rfl
  | put m' key' hQ _ _ ih =>
    rw [get_put_ne, ih]
    exact fun heq => hk (heq ▸ hQ)

section Apply

variable {stringify : ProjectRecipe → Text} {parse : Text → Option ProjectRecipe}

theorem recipe_applyWrite (hparse : ∀ r, parse (stringify r) = some r)
    (w : ProjectWrite ProjectRecipe) :
    recipeOf parse (get (applyWrite stringify p d w).doc .recipes record) =
      recipeIn (recipeOf parse (get d.doc .recipes record)) record [w] := by
  have hother (h : (.recipes, record) ∉ touches w) :
      recipeOf parse (get (applyWrite stringify p d w).doc .recipes record) =
        recipeOf parse (get d.doc .recipes record) := by
    rw [get_puts (applyWrite_puts w) h]
  cases w with
  | recipe r recipe =>
    by_cases hr : r = record
    · subst hr
      rw [applyWrite, get_set_self]
      show parse (stringify recipe) = if r = r then some recipe else _
      rw [hparse, if_pos rfl]
    · rw [hother]
      · exact (if_neg hr).symm
      · intro hmem
        exact hr (Prod.mk.inj (mem_singleton.mp hmem)).2.symm
  | create _ _ _ => exact hother (by simp [touches])
  | anchor _ _ _ => exact hother (by simp [touches])
  | acted _ _ _ => exact hother (by simp [touches])
  | name _ _ => exact hother (by simp [touches])
  | pinned _ _ => exact hother (by simp [touches])
  | hidden _ _ => exact hother (by simp [touches])
  | link _ _ _ => exact hother (by simp [touches])
  | split _ _ _ => exact hother (by simp [touches])
  | dismiss _ _ _ => exact hother (by simp [touches])

theorem created_applyWrite {w : ProjectWrite ProjectRecipe} (hw : createOf w ≠ some record) :
    get (applyWrite stringify p d w).doc .created record = get d.doc .created record := by
  refine get_puts (applyWrite_puts w) ?_
  cases w with
  | create r t ink =>
    intro hmem
    rcases mem_cons.mp hmem with hmem | hmem
    · exact hw (congrArg some (Prod.mk.inj hmem).2.symm)
    · cases (Prod.mk.inj (mem_singleton.mp hmem)).1
  | _ => simp [touches]

variable {writes : Writes}

theorem of_apply (h : applyProjectWrites stringify p doc writes = .ok d) :
    writes.forM check = .ok () ∧
      d = writes.foldl (applyWrite stringify p) { doc := doc, moved := 0 } := by
  unfold applyProjectWrites at h
  cases hcheck : writes.forM check with
  | error text =>
    rw [hcheck] at h
    cases h
  | ok _ =>
    rw [hcheck] at h
    exact ⟨rfl, (Except.ok.inj h).symm⟩

theorem recipe_apply (hparse : ∀ r, parse (stringify r) = some r)
    (h : applyProjectWrites stringify p doc writes = .ok d) (record : Text) :
    recipeOf parse (get d.doc .recipes record) =
      recipeIn (recipeOf parse (get doc .recipes record)) record writes := by
  obtain ⟨-, rfl⟩ := of_apply h
  have hfold (d : Applied P) : recipeOf parse (get (writes.foldl (applyWrite stringify p) d).doc
      .recipes record) = recipeIn (recipeOf parse (get d.doc .recipes record)) record writes := by
    clear h
    induction writes generalizing d with
    | nil => rfl
    | cons w rest ih =>
      rw [foldl_cons, ih, recipe_applyWrite hparse]
      rfl
  exact hfold _

theorem created_apply (h : applyProjectWrites stringify p doc writes = .ok d)
    (hrecord : record ∉ writes.filterMap createOf) :
    get d.doc .created record = get doc .created record := by
  obtain ⟨-, rfl⟩ := of_apply h
  have hfold (d : Applied P) : get (writes.foldl (applyWrite stringify p) d).doc .created record =
      get d.doc .created record := by
    clear h
    induction writes generalizing d with
    | nil => rfl
    | cons w rest ih =>
      have hw : createOf w ≠ some record := fun hw =>
        hrecord (mem_filterMap.mpr ⟨w, mem_cons_self, hw⟩)
      rw [foldl_cons, ih, created_applyWrite hw]
      intro hmem
      obtain ⟨w', hw', hsome⟩ := mem_filterMap.mp hmem
      exact hrecord (mem_filterMap.mpr ⟨w', mem_cons_of_mem _ hw', hsome⟩)
  exact hfold _

end Apply

/-! ## The records that are read -/

variable {parse : Text → Option ProjectRecipe}

theorem mem_records {r : Record} (h : r ∈ (readProjectIntents parse doc).records) :
    (∃ t, (r.id, t) ∈ created doc) ∧ r.recipe = recipeOf parse (get doc .recipes r.id) := by
  obtain ⟨e, he, rfl⟩ := List.mem_map.mp (Comparison.mem_sort.mp h)
  exact ⟨⟨e.2, he⟩, rfl⟩

theorem nodup_entries : (entries doc m).Nodup := by
  refine List.Nodup.filterMap ?_ Write.nodup_entries.of_map
  rintro ⟨⟨m₁, k₁⟩, v₁⟩ ⟨⟨m₂, k₂⟩, v₂⟩ ⟨k, v⟩ h₁ h₂
  dsimp only at h₁ h₂
  split at h₁
  · next hm₁ =>
    split at h₂
    · next hm₂ =>
      obtain ⟨rfl, rfl⟩ := Prod.mk.inj (some.inj h₁)
      obtain ⟨rfl, rfl⟩ := Prod.mk.inj (some.inj h₂)
      rw [hm₁, hm₂]
    · cases h₂
  · cases h₁

theorem nodup_created : ((created doc).map Prod.fst).Nodup := by
  refine List.Nodup.map_on ?_ (List.Nodup.filterMap ?_ nodup_entries)
  · rintro ⟨id, t⟩ h ⟨id', t'⟩ h' heq
    obtain rfl : id = id' := heq
    have hsame := (mem_created.mp h).symm.trans (mem_created.mp h')
    rw [Value.number.inj (some.inj hsame)]
  · rintro ⟨k₁, v₁⟩ ⟨k₂, v₂⟩ ⟨k, t⟩ h₁ h₂
    obtain ⟨t₁, ht₁, heq₁⟩ := map_eq_some_iff.mp h₁
    obtain ⟨t₂, ht₂, heq₂⟩ := map_eq_some_iff.mp h₂
    obtain ⟨rfl, rfl⟩ := Prod.mk.inj heq₁
    obtain ⟨rfl, rfl⟩ := Prod.mk.inj heq₂
    exact Prod.ext rfl ((of_isTime ht₁).trans (of_isTime ht₂).symm)

theorem nodup_records :
    ((readProjectIntents parse doc).records.map GroupingRecord.id).Nodup := by
  have hperm : ((readProjectIntents parse doc).records.map GroupingRecord.id).Perm
      ((created doc).map Prod.fst) := by
    have hsort := (Comparison.sort_perm (c := byAge)
      (l := (created doc).map fun e => recordOf parse doc e.1 e.2)).map GroupingRecord.id
    rw [List.map_map] at hsort
    exact hsort
  exact hperm.nodup_iff.mpr nodup_created

end VibeField.Fieldd.ProjectRecords
