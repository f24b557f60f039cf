import Mathlib.Algebra.BigOperators.Group.Finset.Basic
import Mathlib.Algebra.GroupWithZero.Nat
import Mathlib.Algebra.Order.BigOperators.Group.Finset
import VibeField.Base.Dict

/-!
# Sums over a dictionary

A total over the entries of a dictionary, read off its lookups: what one rewritten
or added entry changes, and how a dictionary splits by a test.
-/

namespace VibeField.Dict

open Option

universe u v

variable {κ : Type u} {α : Type v}

def sum (d : Dict κ α) (f : α → Nat) : Nat := (d.values.map f).sum

theorem sum_retain (d : Dict κ α) (p : κ → α → Bool) (f : α → Nat) :
    d.sum f = (d.retain p).sum f + (d.retain fun k v => !p k v).sum f := by
  simp only [sum, values, retain, List.map_map]
  induction d.alist.entries with
  | nil => rfl
  | cons e rest ih => by_cases hp : p e.1 e.2 = true <;> simp [hp, ih] <;> omega

variable [DecidableEq κ]

omit [DecidableEq κ] in
theorem nodup_keys (d : Dict κ α) : d.keys.Nodup := d.alist.nodupKeys

def keysWhere (d : Dict κ α) (p : α → Bool) : List κ :=
  (d.alist.entries.filter fun e => p e.2).map Sigma.fst

variable {d : Dict κ α} {k : κ}

theorem mem_keysWhere {p : α → Bool} {v : α} (h : d.lookup k = some v)
    (hp : p v = true) : k ∈ d.keysWhere p :=
  List.mem_map.mpr ⟨⟨k, v⟩, List.mem_filter.mpr ⟨mem_entries_iff.mpr h, hp⟩, rfl⟩

omit [DecidableEq κ] in
theorem length_keysWhere (d : Dict κ α) (p : α → Bool) :
    (d.keysWhere p).length = d.sum fun v => (p v).toNat := by
  simp only [keysWhere, sum, values, List.length_map, List.map_map]
  induction d.alist.entries with
  | nil => rfl
  | cons e rest ih =>
    cases hp : p e.2 with
    | true => simp [hp, ih, Nat.add_comm]
    | false => simp [hp, ih]

theorem sum_eq_keys (d : Dict κ α) (f : α → Nat) :
    d.sum f = ∑ k ∈ d.keys.toFinset, ((d.lookup k).map f).getD 0 := by
  rw [List.sum_toFinset _ d.nodup_keys, sum, values, keys, AList.keys, List.keys, List.map_map,
    List.map_map]
  refine congrArg List.sum (List.map_congr_left fun e he => ?_)
  have hl : d.lookup e.1 = some e.2 := mem_entries_iff.mp he
  simp [hl]

theorem sum_congr {β : Type v} {e : Dict κ β} {f : α → Nat} {g : β → Nat}
    (h : ∀ k, (d.lookup k).map f = (e.lookup k).map g) : d.sum f = e.sum g := by
  have hkeys : d.keys.toFinset = e.keys.toFinset := by
    ext k
    have hk := congrArg Option.isSome (h k)
    rw [isSome_map, isSome_map] at hk
    rw [List.mem_toFinset, List.mem_toFinset, mem_keys, mem_keys, ← isSome_iff_exists,
      ← isSome_iff_exists, hk]
  rw [sum_eq_keys, sum_eq_keys, hkeys]
  exact Finset.sum_congr rfl fun k _ => by rw [h k]

theorem sum_insert_new (h : d.lookup k = none) (v : α) (f : α → Nat) :
    (d.insert k v).sum f = d.sum f + f v := by
  have hk : k ∉ d.alist := AList.lookup_eq_none.mp h
  simp [sum, values, insert, AList.insert_of_notMem hk, Nat.add_comm]

theorem sum_modify {v : α} (h : d.lookup k = some v) (g : α → α)
    (f : α → Nat) : (d.modify k g).sum f + f v = d.sum f + f (g v) := by
  have hk : k ∈ d.keys.toFinset := List.mem_toFinset.mpr (mem_keys.mpr ⟨v, h⟩)
  have hkeys : (d.modify k g).keys.toFinset = d.keys.toFinset := by
    ext k'
    rw [List.mem_toFinset, List.mem_toFinset, mem_keys, mem_keys, lookup_modify]
    split
    · cases d.lookup k' <;> simp
    · rfl
  rw [sum_eq_keys, sum_eq_keys, hkeys, ← Finset.sum_erase_add _ _ hk, ← Finset.sum_erase_add _ _ hk,
    Finset.sum_congr rfl fun k' hk' => by
      rw [lookup_modify, if_neg (Finset.ne_of_mem_erase hk')]]
  simp only [lookup_modify, if_true, h, map_some, getD_some]
  omega

theorem sum_insert_old {old : α} (h : d.lookup k = some old) (v : α)
    (f : α → Nat) : (d.insert k v).sum f + f old = d.sum f + f v := by
  have hsame : (d.insert k v).sum f = (d.modify k fun _ => v).sum f := by
    refine sum_congr fun k' => ?_
    rw [lookup_insert, lookup_modify]
    split
    · next hk =>
      rw [hk, h]
      rfl
    · rfl
  rw [hsame]
  exact sum_modify h _ f

theorem sum_erase {v : α} (h : d.lookup k = some v) (f : α → Nat) :
    (d.erase k).sum f + f v = d.sum f := by
  have hnone : (d.erase k).lookup k = none := by rw [lookup_erase, if_pos rfl]
  rw [← sum_insert_new hnone v f]
  refine sum_congr fun k' => ?_
  rw [lookup_insert, lookup_erase]
  split
  · next hk => rw [hk, h]
  · rfl

end VibeField.Dict
