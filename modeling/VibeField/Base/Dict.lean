import Mathlib.Data.List.AList

/-!
# Dictionaries

A dictionary is an association list with distinct keys, `AList` at a constant
value type.  The operations are the ones of a mutable hash map: lookup,
insertion, removal, rewriting one entry in place, rewriting every entry, and
keeping the entries that pass a test.  Each has one lemma saying what a lookup
reads afterwards, and the values are the entries some key looks up.
-/

namespace VibeField

open List

universe u v w

structure Dict (κ : Type u) (α : Type v) where
  alist : AList (fun _ : κ => α)

namespace Dict

section Plain

variable {κ : Type u} {α : Type v}

def empty : Dict κ α := ⟨∅⟩

instance : EmptyCollection (Dict κ α) := ⟨empty⟩

def mapVals (d : Dict κ α) (f : κ → α → α) : Dict κ α where
  alist :=
    { entries := d.alist.entries.map fun e => ⟨e.1, f e.1 e.2⟩
      nodupKeys := by
        have h := d.alist.nodupKeys
        rw [List.NodupKeys, List.keys] at h ⊢
        rw [List.map_map]
        exact h }

def retain (d : Dict κ α) (p : κ → α → Bool) : Dict κ α where
  alist :=
    { entries := d.alist.entries.filter fun e => p e.1 e.2
      nodupKeys := d.alist.nodupKeys.sublist List.filter_sublist }

def values (d : Dict κ α) : List α := d.alist.entries.map fun e => e.2

def len (d : Dict κ α) : Nat := d.alist.entries.length

@[simp]
theorem len_mapVals (d : Dict κ α) (f : κ → α → α) : (d.mapVals f).len = d.len := by
  simp [len, mapVals]

theorem len_eq_keys (d : Dict κ α) : d.len = d.alist.keys.length := by
  simp [len, AList.keys, List.keys]

end Plain

variable {κ : Type u} {α : Type v} [DecidableEq κ]

def lookup (d : Dict κ α) (k : κ) : Option α := d.alist.lookup k

def insert (d : Dict κ α) (k : κ) (v : α) : Dict κ α := ⟨d.alist.insert k v⟩

def erase (d : Dict κ α) (k : κ) : Dict κ α := ⟨d.alist.erase k⟩

def modify (d : Dict κ α) (k : κ) (f : α → α) : Dict κ α :=
  d.mapVals fun k' v => if k' = k then f v else v

/-! ## What a lookup reads -/

@[simp]
theorem lookup_empty (k : κ) : (∅ : Dict κ α).lookup k = none := rfl

theorem lookup_insert (d : Dict κ α) (k k' : κ) (v : α) :
    (d.insert k v).lookup k' = if k' = k then some v else d.lookup k' := by
  by_cases h : k' = k
  · rw [if_pos h, h]
    exact AList.lookup_insert d.alist
  · rw [if_neg h]
    exact AList.lookup_insert_ne h

theorem lookup_erase (d : Dict κ α) (k k' : κ) :
    (d.erase k).lookup k' = if k' = k then none else d.lookup k' := by
  by_cases h : k' = k
  · rw [if_pos h, h]
    exact AList.lookup_erase k d.alist
  · rw [if_neg h]
    exact AList.lookup_erase_ne h

@[simp]
theorem lookup_mapVals (d : Dict κ α) (f : κ → α → α) (k : κ) :
    (d.mapVals f).lookup k = (d.lookup k).map (f k) :=
  dlookup_map₂ k

theorem lookup_modify (d : Dict κ α) (k k' : κ) (f : α → α) :
    (d.modify k f).lookup k' = if k' = k then (d.lookup k').map f else d.lookup k' := by
  rw [modify, lookup_mapVals]
  by_cases h : k' = k
  · simp only [h, if_true]
  · simp only [h, if_false, Option.map_id']

theorem dlookup_cons (k : κ) (e : Sigma fun _ : κ => α) (l : List (Sigma fun _ : κ => α)) :
    (e :: l).dlookup k = if k = e.1 then some e.2 else l.dlookup k := by
  split
  · next h => exact h ▸ dlookup_cons_eq ..
  · next h => exact dlookup_cons_ne _ _ h

theorem dlookup_filter (p : κ → α → Bool) (k : κ) (l : List (Sigma fun _ : κ => α))
    (hl : l.NodupKeys) :
    (l.filter fun e => p e.1 e.2).dlookup k = (l.dlookup k).filter (p k) := by
  induction l with
  | nil => rfl
  | cons e rest ih =>
    obtain ⟨hnot, hrest⟩ := nodupKeys_cons.mp hl
    have hnone : rest.dlookup e.1 = none := dlookup_eq_none.mpr hnot
    grind [dlookup_cons, Option.filter]

@[simp]
theorem lookup_retain (d : Dict κ α) (p : κ → α → Bool) (k : κ) :
    (d.retain p).lookup k = (d.lookup k).filter (p k) :=
  dlookup_filter p k d.alist.entries d.alist.nodupKeys

variable {d : Dict κ α} {k : κ} {v : α}

theorem mem_entries_iff : (⟨k, v⟩ : Sigma fun _ : κ => α) ∈ d.alist.entries ↔ d.lookup k = some v :=
  (mem_dlookup_iff d.alist.nodupKeys).symm

theorem mem_values : v ∈ d.values ↔ ∃ k, d.lookup k = some v := by
  rw [values, mem_map]
  constructor
  · rintro ⟨⟨k, v'⟩, he, rfl⟩
    exact ⟨k, mem_entries_iff.mp he⟩
  · rintro ⟨k, hk⟩
    exact ⟨⟨k, v⟩, mem_entries_iff.mpr hk, rfl⟩

theorem map_filter_key {f : α → κ} (k : κ) (l : List (Sigma fun _ : κ => α)) (hl : l.NodupKeys)
    (hf : ∀ e ∈ l, f e.2 = e.1) :
    (l.map fun e => e.2).filter (fun v => f v = k) = (l.dlookup k).toList := by
  induction l with
  | nil => rfl
  | cons e rest ih =>
    obtain ⟨hnot, hrest⟩ := nodupKeys_cons.mp hl
    have hnone : rest.dlookup e.1 = none := dlookup_eq_none.mpr hnot
    grind [dlookup_cons]

theorem values_filter_key {f : α → κ} (hf : ∀ k v, d.lookup k = some v → f v = k) (k : κ) :
    d.values.filter (fun v => f v = k) = (d.lookup k).toList :=
  map_filter_key k d.alist.entries d.alist.nodupKeys fun e he => hf e.1 e.2 (mem_entries_iff.mp he)

theorem nodup_map_values {β : Type w} {f : α → β}
    (hf : ∀ k k' v v', d.lookup k = some v → d.lookup k' = some v' → f v = f v' → k = k') :
    (d.values.map f).Nodup := by
  rw [values, map_map]
  refine List.Nodup.map_on ?_ (List.NodupKeys.nodup d.alist.nodupKeys)
  rintro ⟨k, v⟩ he ⟨k', v'⟩ he' hfv
  rw [mem_entries_iff] at he he'
  obtain rfl := hf k k' v v' he he' hfv
  rw [he] at he'
  cases he'
  rfl

def keys (d : Dict κ α) : List κ := d.alist.keys

theorem mem_keys : k ∈ d.keys ↔ ∃ v, d.lookup k = some v := by
  rw [← Option.isSome_iff_exists]
  exact (AList.lookup_isSome (s := d.alist)).symm

/-! ## Sizes -/

omit [DecidableEq κ] in
@[simp]
theorem length_keys (d : Dict κ α) : d.keys.length = d.len := (len_eq_keys d).symm

theorem len_le_of_subset {l : List κ} (h : ∀ k v, d.lookup k = some v → k ∈ l) :
    d.len ≤ l.length := by
  have hnodup : d.keys.Nodup := d.alist.nodupKeys
  have hsub : d.keys ⊆ l := fun k hk =>
    let ⟨v, hv⟩ := mem_keys.mp hk
    h k v hv
  rw [← length_keys]
  exact (subperm_of_subset hnodup hsub).length_le

@[simp]
theorem len_modify (d : Dict κ α) (k : κ) (f : α → α) : (d.modify k f).len = d.len :=
  len_mapVals d _

theorem len_insert (h : d.lookup k = none) (v : α) : (d.insert k v).len = d.len + 1 := by
  have hk : k ∉ d.alist := AList.lookup_eq_none.mp h
  simp [len, insert, AList.insert_of_notMem hk]

theorem len_insert_old {old : α} (h : d.lookup k = some old) (v : α) :
    (d.insert k v).len = d.len := by
  have hk : k ∈ d.alist.keys := by
    have hs : (d.alist.lookup k).isSome := by
      rw [show d.alist.lookup k = some old from h]
      rfl
    exact AList.lookup_isSome.mp hs
  have hpos : 0 < d.alist.keys.length := length_pos_of_mem hk
  rw [len_eq_keys, len_eq_keys, insert, AList.keys_insert, length_cons,
    length_erase_of_mem hk]
  omega

theorem len_erase_le (d : Dict κ α) (k : κ) : (d.erase k).len ≤ d.len := by
  rw [len_eq_keys, len_eq_keys, erase, AList.keys_erase]
  exact length_erase_le

theorem len_erase_lt (h : d.lookup k = some v) : (d.erase k).len < d.len := by
  have hk : k ∈ d.alist.keys := by
    have hs : (d.alist.lookup k).isSome := by
      rw [show d.alist.lookup k = some v from h]
      rfl
    exact AList.lookup_isSome.mp hs
  have hpos : 0 < d.alist.keys.length := length_pos_of_mem hk
  rw [len_eq_keys, len_eq_keys, erase, AList.keys_erase, length_erase_of_mem hk]
  omega

end Dict
end VibeField
