import Mathlib.Data.List.Dedup
import Mathlib.Data.List.Sort
import Mathlib.Order.Basic

/-!
# Maps where the last writer wins

A map is the writes it has heard of.  Each has a stamp, a count and the peer that made it, and the
value of a key is the one written with the greatest stamp.  What a map reads depends on which writes
it has heard of, not on their order.
-/

namespace VibeField

open List Option

universe u

structure Write (κ : Type u) (ν : Type u) (P : Type u) where
  key : κ
  value : ν
  lamport : Nat
  peer : P
  deriving DecidableEq

namespace Write

variable {κ ν P : Type u}

def nextLamport (ws : List (Write κ ν P)) : Nat :=
  ws.foldr (fun w n => max (w.lamport + 1) n) 0

/-- No two writes have one stamp. -/
def Distinct (ws : List (Write κ ν P)) : Prop :=
  ∀ a ∈ ws, ∀ b ∈ ws, a.lamport = b.lamport → a.peer = b.peer → a = b

variable {ws vs : List (Write κ ν P)} {a b c w : Write κ ν P} {k : κ}

theorem lt_nextLamport (h : w ∈ ws) : w.lamport < nextLamport ws := by
  induction ws with
  | nil => cases h
  | cons v rest ih =>
    show w.lamport < max (v.lamport + 1) (nextLamport rest)
    rcases mem_cons.mp h with rfl | h
    · exact Nat.lt_of_lt_of_le (Nat.lt_succ_self _) (Nat.le_max_left _ _)
    · exact Nat.lt_of_lt_of_le (ih h) (Nat.le_max_right _ _)

section Stamps

variable [LinearOrder P]

/-- The order of stamps. -/
def Before (a b : Write κ ν P) : Prop :=
  a.lamport < b.lamport ∨ a.lamport = b.lamport ∧ a.peer < b.peer

instance (a b : Write κ ν P) : Decidable (Before a b) :=
  inferInstanceAs (Decidable (a.lamport < b.lamport ∨ a.lamport = b.lamport ∧ a.peer < b.peer))

theorem not_before_self : ¬ Before a a := by
  rintro (h | ⟨-, h⟩)
  · exact Nat.lt_irrefl _ h
  · exact lt_irrefl _ h

theorem Before.trans (h : Before a b) (h' : Before b c) : Before a c := by
  rcases h with h | ⟨h, hp⟩
  · rcases h' with h' | ⟨h', -⟩
    · exact Or.inl (Nat.lt_trans h h')
    · exact Or.inl (h' ▸ h)
  · rcases h' with h' | ⟨h', hp'⟩
    · exact Or.inl (h ▸ h')
    · exact Or.inr ⟨h.trans h', lt_trans hp hp'⟩

theorem before_or_before (h : ¬ (a.lamport = b.lamport ∧ a.peer = b.peer)) :
    Before a b ∨ Before b a := by
  rcases Nat.lt_trichotomy a.lamport b.lamport with hl | hl | hl
  · exact Or.inl (Or.inl hl)
  · rcases lt_trichotomy a.peer b.peer with hp | hp | hp
    · exact Or.inl (Or.inr ⟨hl, hp⟩)
    · exact absurd ⟨hl, hp⟩ h
    · exact Or.inr (Or.inr ⟨hl.symm, hp⟩)
  · exact Or.inr (Or.inl hl)

end Stamps

variable [DecidableEq κ] [LinearOrder P]

def newest : List (Write κ ν P) → κ → Option (Write κ ν P)
  | [], _ => none
  | w :: rest, k =>
    if w.key = k then
      match newest rest k with
      | none => some w
      | some v => if v.Before w then some w else some v
    else newest rest k

def read (ws : List (Write κ ν P)) (k : κ) : Option ν := (newest ws k).map Write.value

def entries (ws : List (Write κ ν P)) : List (κ × ν) :=
  (ws.map Write.key).dedup.filterMap fun k => (read ws k).map fun v => (k, v)

theorem newest_mem (h : newest ws k = some w) : w ∈ ws ∧ w.key = k := by
  induction ws generalizing w with
  | nil => cases h
  | cons v rest ih =>
    rw [newest] at h
    split at h
    · next hk =>
      split at h
      · obtain rfl := some.inj h
        exact ⟨mem_cons_self, hk⟩
      · next u hu =>
        split at h
        · obtain rfl := some.inj h
          exact ⟨mem_cons_self, hk⟩
        · obtain rfl := some.inj h
          exact ⟨mem_cons_of_mem _ (ih hu).1, (ih hu).2⟩
    · exact ⟨mem_cons_of_mem _ (ih h).1, (ih h).2⟩

theorem newest_eq_none (h : newest ws k = none) (hw : w ∈ ws) : w.key ≠ k := by
  induction ws with
  | nil => cases hw
  | cons v rest ih =>
    rw [newest] at h
    split at h
    · split at h
      · cases h
      · split at h <;> cases h
    · next hk =>
      rcases mem_cons.mp hw with rfl | hw
      · exact hk
      · exact ih h hw

theorem newest_max (h : newest ws k = some w) (ha : a ∈ ws) (hk : a.key = k) : ¬ Before w a := by
  induction ws generalizing w with
  | nil => cases ha
  | cons v rest ih =>
    rw [newest] at h
    split at h
    · split at h
      · next hnone =>
        obtain rfl := some.inj h
        rcases mem_cons.mp ha with rfl | ha
        · exact not_before_self
        · exact absurd hk (newest_eq_none hnone ha)
      · next u hu =>
        split at h
        · next hlt =>
          obtain rfl := some.inj h
          rcases mem_cons.mp ha with rfl | ha
          · exact not_before_self
          · exact fun hb => ih hu ha (hlt.trans hb)
        · next hge =>
          obtain rfl := some.inj h
          rcases mem_cons.mp ha with rfl | ha
          · exact hge
          · exact ih hu ha
    · next hne =>
      rcases mem_cons.mp ha with rfl | ha
      · exact absurd hk hne
      · exact ih h ha

theorem exists_newest (ha : a ∈ ws) : ∃ w, newest ws a.key = some w := by
  cases h : newest ws a.key with
  | none => exact absurd rfl (newest_eq_none h ha)
  | some w => exact ⟨w, rfl⟩

theorem newest_congr (hws : Distinct ws) (h : ∀ w, w ∈ ws ↔ w ∈ vs) (k : κ) :
    newest ws k = newest vs k := by
  cases hw : newest ws k with
  | none =>
    cases hv : newest vs k with
    | none => rfl
    | some v =>
      obtain ⟨hm, hk⟩ := newest_mem hv
      exact absurd hk (newest_eq_none hw ((h v).mpr hm))
  | some w =>
    obtain ⟨hm, hk⟩ := newest_mem hw
    cases hv : newest vs k with
    | none => exact absurd hk (newest_eq_none hv ((h w).mp hm))
    | some v =>
      obtain ⟨hm', hk'⟩ := newest_mem hv
      have hvw := newest_max hw ((h v).mpr hm') hk'
      have hwv := newest_max hv ((h w).mp hm) hk
      by_cases hsame : w.lamport = v.lamport ∧ w.peer = v.peer
      · rw [hws w hm v ((h v).mpr hm') hsame.1 hsame.2]
      · rcases before_or_before hsame with hb | hb
        · exact absurd hb hvw
        · exact absurd hb hwv

theorem read_congr (hws : Distinct ws) (h : ∀ w, w ∈ ws ↔ w ∈ vs) (k : κ) :
    read ws k = read vs k := by
  rw [read, read, newest_congr hws h]

theorem exists_read (ha : a ∈ ws) : ∃ w ∈ ws, w.key = a.key ∧ read ws a.key = some w.value := by
  obtain ⟨w, hw⟩ := exists_newest ha
  obtain ⟨hm, hk⟩ := newest_mem hw
  refine ⟨w, hm, hk, ?_⟩
  rw [read, hw]
  rfl

theorem mem_entries {v : ν} : (k, v) ∈ entries ws ↔ read ws k = some v := by
  unfold entries
  rw [mem_filterMap]
  constructor
  · rintro ⟨k', -, heq⟩
    obtain ⟨v', hv', heq⟩ := map_eq_some_iff.mp heq
    obtain ⟨rfl, rfl⟩ := Prod.mk.inj heq
    exact hv'
  · intro hread
    obtain ⟨w, hw, rfl⟩ := map_eq_some_iff.mp hread
    obtain ⟨hm, rfl⟩ := newest_mem hw
    refine ⟨w.key, mem_dedup.mpr (List.mem_map_of_mem hm), ?_⟩
    rw [hread]
    rfl

theorem nodup_entries : ((entries ws).map Prod.fst).Nodup := by
  have aux (ks : List κ) : List.Sublist
      ((ks.filterMap fun k => (read ws k).map fun v => (k, v)).map Prod.fst) ks := by
    induction ks with
    | nil => exact List.Sublist.slnil
    | cons k rest ih =>
      rw [filterMap_cons]
      cases read ws k with
      | none => exact ih.cons k
      | some v => exact ih.cons_cons k
  exact (aux _).nodup (nodup_dedup _)

theorem entries_perm (hws : Distinct ws) (h : ∀ w, w ∈ ws ↔ w ∈ vs) :
    (entries ws).Perm (entries vs) := by
  refine (perm_ext_iff_of_nodup nodup_entries.of_map nodup_entries.of_map).mpr ?_
  rintro ⟨k, v⟩
  rw [mem_entries, mem_entries, read_congr hws h]

end Write
end VibeField
