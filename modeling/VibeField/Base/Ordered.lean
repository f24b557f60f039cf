import VibeField.Base.Dict

/-!
# Dictionaries in the order of their insertion

`put` writes a value under its key where the key stands already, and behind every other entry where
it does not; `ofList` puts the values of a list one after another, each under a key of its own.
-/

namespace VibeField

open List

universe u v

namespace Dict

variable {κ : Type u} {α : Type v} [DecidableEq κ] {d : Dict κ α} {k k' : κ} {v : α}

theorem nodupKeys_snoc {l : List (Sigma fun _ : κ => α)} (hl : l.NodupKeys)
    (hk : l.dlookup k = none) : (l ++ [(⟨k, v⟩ : Sigma fun _ : κ => α)]).NodupKeys := by
  rw [List.NodupKeys, List.keys, map_append, ← List.keys]
  refine List.Nodup.append hl (nodup_singleton k) ?_
  intro x hx hxk
  cases mem_singleton.mp hxk
  exact dlookup_eq_none.mp hk hx

def put (d : Dict κ α) (k : κ) (v : α) : Dict κ α :=
  if h : d.alist.entries.dlookup k = none then
    ⟨⟨d.alist.entries ++ [⟨k, v⟩], nodupKeys_snoc d.alist.nodupKeys h⟩⟩
  else d.modify k fun _ => v

theorem lookup_put (d : Dict κ α) (k k' : κ) (v : α) :
    (d.put k v).lookup k' = if k' = k then some v else d.lookup k' := by
  rw [put]
  split
  · rename_i hnone
    show (d.alist.entries ++ [(⟨k, v⟩ : Sigma fun _ : κ => α)]).dlookup k' = _
    rw [dlookup_append]
    by_cases h : k' = k
    · subst h
      rw [if_pos rfl, hnone, dlookup_cons_eq]
      rfl
    · rw [if_neg h, dlookup_cons_ne _ _ h]
      exact Option.or_none
  · rename_i hsome
    obtain ⟨old, hold⟩ := Option.ne_none_iff_exists'.mp hsome
    rw [lookup_modify]
    by_cases h : k' = k
    · subst h
      rw [if_pos rfl, if_pos rfl]
      show (d.alist.entries.dlookup k').map _ = _
      rw [hold]
      rfl
    · rw [if_neg h, if_neg h]

def ofList (f : α → κ) (l : List α) : Dict κ α := l.foldl (fun d a => d.put (f a) a) ∅

theorem lookup_foldl_put {f : α → κ} {l : List α} (hd : ∀ k v, d.lookup k = some v → f v = k)
    (h : (l.foldl (fun d a => d.put (f a) a) d).lookup k = some v) :
    f v = k ∧ (v ∈ l ∨ d.lookup k = some v) := by
  induction l generalizing d with
  | nil => exact ⟨hd k v h, .inr h⟩
  | cons a l ih =>
    have hput : ∀ k v, (d.put (f a) a).lookup k = some v → f v = k := by
      intro k v hk
      rw [lookup_put] at hk
      split at hk
      · cases hk
        exact Eq.symm ‹_›
      · exact hd k v hk
    obtain ⟨hkey, hmem⟩ := ih hput h
    refine ⟨hkey, ?_⟩
    rcases hmem with hmem | hmem
    · exact .inl (mem_cons_of_mem a hmem)
    · rw [lookup_put] at hmem
      split at hmem
      · cases hmem
        exact .inl mem_cons_self
      · exact .inr hmem

theorem lookup_ofList {f : α → κ} {l : List α} (h : (ofList f l).lookup k = some v) :
    f v = k ∧ v ∈ l := by
  obtain ⟨hkey, hmem⟩ := lookup_foldl_put (fun _ _ hnone => by cases hnone) h
  exact ⟨hkey, hmem.resolve_right fun hnone => by cases hnone⟩

/-! ## Rows -/

omit [DecidableEq κ] in
def rows (d : Dict κ α) : List (κ × α) := d.alist.entries.map fun e => (e.1, e.2)

def ofRows (l : List (κ × α)) : Dict κ α := l.foldl (fun d row => d.put row.1 row.2) ∅

theorem mem_rows : (k, v) ∈ d.rows ↔ d.lookup k = some v := by
  rw [← mem_entries_iff, rows, mem_map]
  constructor
  · rintro ⟨⟨k', v'⟩, he, heq⟩
    cases heq
    exact he
  · exact fun he => ⟨⟨k, v⟩, he, rfl⟩

theorem entries_put (h : d.lookup k = none) :
    (d.put k v).alist.entries = d.alist.entries ++ [⟨k, v⟩] := by
  have hnone : d.alist.entries.dlookup k = none := h
  rw [put, dif_pos hnone]

theorem entries_foldl_put {l : List (Sigma fun _ : κ => α)} (hl : l.NodupKeys)
    (hd : ∀ e ∈ l, d.lookup e.1 = none) :
    (l.foldl (fun d e => d.put e.1 e.2) d).alist.entries = d.alist.entries ++ l := by
  induction l generalizing d with
  | nil => simp
  | cons e l ih =>
    obtain ⟨hnot, hrest⟩ := nodupKeys_cons.mp hl
    rw [foldl_cons, ih hrest fun e' he' => ?_, entries_put (hd e mem_cons_self),
      append_assoc]
    · rfl
    · have hne : e'.1 ≠ e.1 := fun heq => hnot (heq ▸ mem_map_of_mem he')
      rw [lookup_put, if_neg hne]
      exact hd e' (mem_cons_of_mem e he')

theorem ofRows_rows (d : Dict κ α) : ofRows d.rows = d := by
  have hentries : (ofRows d.rows).alist.entries = d.alist.entries := by
    rw [ofRows, rows, foldl_map]
    exact (entries_foldl_put d.alist.nodupKeys fun _ _ => rfl).trans (nil_append _)
  obtain ⟨⟨entries, hnodup⟩⟩ := d
  cases hd : ofRows (rows ⟨⟨entries, hnodup⟩⟩) with
  | mk alist =>
    obtain ⟨entries', hnodup'⟩ := alist
    rw [hd] at hentries
    cases hentries
    rfl

/-! ## The oldest are dropped -/

def dropOldestOf (max : Nat) : Nat → Dict κ α → Dict κ α
  | 0, d => d
  | fuel + 1, d =>
    if max < d.len then
      match d.keys with
      | [] => d
      | oldest :: _ => dropOldestOf max fuel (d.erase oldest)
    else d

def dropOldest (max : Nat) (d : Dict κ α) : Dict κ α := dropOldestOf max d.len d

theorem dropOldest_of_le {max : Nat} (h : d.len ≤ max) : d.dropOldest max = d := by
  rw [dropOldest]
  cases d.len with
  | zero => rfl
  | succ fuel => 
    rw [dropOldestOf, if_neg (Nat.not_lt.mpr h)]

end Dict
end VibeField
