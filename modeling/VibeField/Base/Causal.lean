import Mathlib.Data.Finset.Card
import Mathlib.Data.Finset.SDiff
import Mathlib.Data.Finset.Lattice.Basic
import Mathlib.Data.Finset.Union
import Mathlib.Logic.Function.Iterate

/-!
# Causally closed documents

An operation depends on earlier ones.  A document holds a closed set of operations, and
those it has heard of whose dependencies it lacks: these are pending, and are applied once
what they wait for arrives.  Its root is what it keeps as a state only, without the history.
-/

namespace VibeField

universe u

/-- Operations and what each is built on; the rank grows along every dependency. -/
class Causal (Op : Type u) where
  deps : Op → List Op
  rank : Op → Nat
  rank_lt {o d : Op} : d ∈ deps o → rank d < rank o

namespace Causal

variable {Op : Type u} [Causal Op]

/-- Every operation comes with what it is built on. -/
def Closed (s : Finset Op) : Prop := ∀ o ∈ s, ∀ d ∈ deps o, d ∈ s

theorem closed_empty : Closed (∅ : Finset Op) := fun o ho => absurd ho (Finset.notMem_empty o)

variable [DecidableEq Op]

instance (s : Finset Op) : Decidable (Closed s) :=
  inferInstanceAs (Decidable (∀ o ∈ s, ∀ d ∈ deps o, d ∈ s))

theorem Closed.union {s t : Finset Op} (hs : Closed s) (ht : Closed t) : Closed (s ∪ t) := by
  intro o ho d hd
  rcases Finset.mem_union.mp ho with ho | ho
  · exact Finset.mem_union_left t (hs o ho d hd)
  · exact Finset.mem_union_right s (ht o ho d hd)

theorem Closed.insert {s : Finset Op} {o : Op} (hs : Closed s) (ho : ∀ d ∈ deps o, d ∈ s) :
    Closed (insert o s) := by
  intro o' ho' d hd
  rcases Finset.mem_insert.mp ho' with rfl | ho'
  · exact Finset.mem_insert_of_mem (ho d hd)
  · exact Finset.mem_insert_of_mem (hs o' ho' d hd)

def ready (s p : Finset Op) : Finset Op := p.filter fun o => ∀ d ∈ deps o, d ∈ s

def advance (p s : Finset Op) : Finset Op := s ∪ ready s p

def absorb (s p : Finset Op) : Finset Op := (advance p)^[p.card] s

section Advance

variable {s t p q : Finset Op} {o : Op}

theorem mem_ready : o ∈ ready s p ↔ o ∈ p ∧ ∀ d ∈ deps o, d ∈ s := Finset.mem_filter

theorem mem_advance : o ∈ advance p s ↔ o ∈ s ∨ (o ∈ p ∧ ∀ d ∈ deps o, d ∈ s) := by
  rw [advance, Finset.mem_union, mem_ready]

theorem subset_advance : s ⊆ advance p s := Finset.subset_union_left

theorem advance_iterate_fixed (n : Nat) (h : (p \ s).card ≤ n) :
    advance p ((advance p)^[n] s) = (advance p)^[n] s := by
  induction n generalizing s with
  | zero =>
    have hsub : p ⊆ s := by
      rw [← Finset.sdiff_eq_empty_iff_subset]
      exact Finset.card_eq_zero.mp (Nat.le_zero.mp h)
    refine Finset.Subset.antisymm ?_ subset_advance
    intro o ho
    rcases mem_advance.mp ho with ho | ho
    · exact ho
    · exact hsub ho.1
  | succ n ih =>
    rw [Function.iterate_succ_apply]
    by_cases hs : advance p s = s
    · rw [hs, Function.iterate_fixed hs n, hs]
    · apply ih
      have hlt : (p \ advance p s).card < (p \ s).card := by
        apply Finset.card_lt_card
        refine ⟨Finset.sdiff_subset_sdiff (Finset.Subset.refl p) subset_advance, fun hback => hs ?_⟩
        refine Finset.Subset.antisymm ?_ subset_advance
        intro o ho
        rcases mem_advance.mp ho with hos | hop
        · exact hos
        · by_contra hns
          exact (Finset.mem_sdiff.mp (hback (Finset.mem_sdiff.mpr ⟨hop.1, hns⟩))).2 ho
      omega

theorem subset_iterate (n : Nat) : s ⊆ (advance p)^[n] s := by
  induction n generalizing s with
  | zero => exact Finset.Subset.refl s
  | succ n ih => exact Finset.Subset.trans subset_advance ih

end Advance

section Absorb

variable {s t p q : Finset Op} {o : Op}

theorem subset_absorb : s ⊆ absorb s p := subset_iterate _

theorem mem_absorb (ho : o ∈ p) (hd : ∀ d ∈ deps o, d ∈ absorb s p) : o ∈ absorb s p := by
  have hfix : advance p (absorb s p) = absorb s p :=
    advance_iterate_fixed _ (Finset.card_le_card Finset.sdiff_subset)
  rw [← hfix]
  exact mem_advance.mpr (.inr ⟨ho, hd⟩)

theorem absorb_induction {motive : Op → Prop} (hold : ∀ o ∈ s, motive o)
    (hnew : ∀ o ∈ p, (∀ d ∈ deps o, motive d) → motive o) (ho : o ∈ absorb s p) : motive o := by
  have hrounds : ∀ n, ∀ t : Finset Op, (∀ o ∈ t, motive o) →
      ∀ o ∈ (advance p)^[n] t, motive o := by
    intro n
    induction n with
    | zero => exact fun t ht => ht
    | succ n ih =>
      intro t ht
      apply ih
      intro o ho
      rcases mem_advance.mp ho with ho | ho
      · exact ht o ho
      · exact hnew o ho.1 fun d hd => ht d (ho.2 d hd)
  exact hrounds _ s hold o ho

theorem absorb_subset : absorb s p ⊆ s ∪ p := by
  intro o ho
  refine absorb_induction (motive := fun o => o ∈ s ∪ p) ?_ ?_ ho
  · exact fun o ho => Finset.mem_union_left p ho
  · exact fun o ho _ => Finset.mem_union_right s ho

theorem Closed.absorb (h : Closed s) : Closed (absorb s p) := by
  intro o ho
  have hboth : o ∈ Causal.absorb s p ∧ ∀ d ∈ deps o, d ∈ Causal.absorb s p := by
    refine absorb_induction
      (motive := fun o => o ∈ Causal.absorb s p ∧ ∀ d ∈ deps o, d ∈ Causal.absorb s p)
      ?_ ?_ ho
    · exact fun o ho => ⟨subset_absorb ho, fun d hd => subset_absorb (h o ho d hd)⟩
    · intro o ho hd
      have hdeps : ∀ d ∈ deps o, d ∈ Causal.absorb s p := fun d hmem => (hd d hmem).1
      exact ⟨mem_absorb ho hdeps, hdeps⟩
  exact hboth.2

theorem subset_absorb_of_closed (ht : Closed t) (hsub : t ⊆ s ∪ p) : t ⊆ absorb s p := by
  have hrank : ∀ n, ∀ o ∈ t, rank o < n → o ∈ absorb s p := by
    intro n
    induction n with
    | zero => exact fun o _ hn => absurd hn (Nat.not_lt_zero _)
    | succ n ih =>
      intro o ho hn
      rcases Finset.mem_union.mp (hsub ho) with hs | hp
      · exact subset_absorb hs
      · refine mem_absorb hp fun d hd => ih d (ht o ho d hd) ?_
        have := rank_lt hd
        omega
  exact fun o ho => hrank (rank o + 1) o ho (Nat.lt_succ_self _)

theorem absorb_eq (ht : Closed t) (hs : s ⊆ t) (hp : p ⊆ t) (hsub : t ⊆ s ∪ p) :
    absorb s p = t :=
  Finset.Subset.antisymm (Finset.Subset.trans absorb_subset (Finset.union_subset hs hp))
    (subset_absorb_of_closed ht hsub)

theorem absorb_sdiff (ht : Closed t) (hs : s ⊆ t) : absorb s (t \ s) = t :=
  absorb_eq ht hs Finset.sdiff_subset (by rw [Finset.union_sdiff_of_subset hs])

end Absorb

end Causal

open Causal

/-- Each author's operations come in order: who holds one holds the author's earlier ones. -/
class Authored (Op : Type u) [DecidableEq Op] [Causal Op] where
  earlier : Op → Finset Op
  earlier_subset {s : Finset Op} {o : Op} : Closed s → o ∈ s → earlier o ⊆ s

def provenVersion {Op : Type u} [DecidableEq Op] [Causal Op] [Authored Op] (u : Finset Op) :
    Finset Op :=
  u ∪ u.biUnion Authored.earlier

theorem provenVersion_subset {Op : Type u} [DecidableEq Op] [Causal Op] [Authored Op]
    {s u : Finset Op} (hs : Closed s) (hu : u ⊆ s) : provenVersion u ⊆ s := by
  apply Finset.union_subset hu
  intro p hp
  obtain ⟨o, ho, hpo⟩ := Finset.mem_biUnion.mp hp
  exact Authored.earlier_subset hs (hu ho) hpo

/-- What a document is stored or sent as when whole: the history above a root. -/
structure Snapshot (Op : Type u) [DecidableEq Op] [Causal Op] where
  root : Finset Op
  version : Finset Op
  root_closed : Closed root
  closed : Closed version
  rooted : root ⊆ version

structure Doc (Op : Type u) [DecidableEq Op] [Causal Op] where
  root : Finset Op
  version : Finset Op
  pending : Finset Op
  root_closed : Closed root
  closed : Closed version
  rooted : root ⊆ version
  /-- what is pending waits for something -/
  waits : ∀ o ∈ pending, o ∉ version ∧ ∃ d ∈ deps o, d ∉ version

namespace Doc

variable {Op : Type u} [DecidableEq Op] [Causal Op]

def empty : Doc Op where
  root := ∅
  version := ∅
  pending := ∅
  root_closed := closed_empty
  closed := closed_empty
  rooted := Finset.Subset.refl _
  waits := fun o ho => absurd ho (Finset.notMem_empty o)

def ofSnapshot (b : Snapshot Op) : Doc Op where
  root := b.root
  version := b.version
  pending := ∅
  root_closed := b.root_closed
  closed := b.closed
  rooted := b.rooted
  waits := fun o ho => absurd ho (Finset.notMem_empty o)

def snapshot (d : Doc Op) : Snapshot Op where
  root := d.root
  version := d.version
  root_closed := d.root_closed
  closed := d.closed
  rooted := d.rooted

/-- Apply what is causally ready; the rest is pending. -/
def receive (d : Doc Op) (p : Finset Op) : Doc Op where
  root := d.root
  version := absorb d.version (d.pending ∪ p)
  pending := (d.pending ∪ p) \ absorb d.version (d.pending ∪ p)
  root_closed := d.root_closed
  closed := d.closed.absorb
  rooted := Finset.Subset.trans d.rooted subset_absorb
  waits := by
    intro o ho
    obtain ⟨hp, hn⟩ := Finset.mem_sdiff.mp ho
    refine ⟨hn, ?_⟩
    by_contra hall
    refine hn (mem_absorb hp fun d' hd' => ?_)
    by_contra hd
    exact hall ⟨d', hd', hd⟩

def receiveSnapshot (d : Doc Op) (b : Snapshot Op) : Doc Op :=
  if d.version = ∅ then (ofSnapshot b).receive d.pending
  else d.receive (b.version \ b.root)

def exportSince (d : Doc Op) (v : Finset Op) : Finset Op := d.version \ v

section Receive

variable {d : Doc Op} {p : Finset Op} {b : Snapshot Op}

theorem version_receive : (d.receive p).version = absorb d.version (d.pending ∪ p) := rfl

theorem subset_receive : d.version ⊆ (d.receive p).version := subset_absorb

theorem closed_subset_receive {c : Finset Op} (hc : Closed c)
    (hsub : c ⊆ d.version ∪ (d.pending ∪ p)) : c ⊆ (d.receive p).version :=
  subset_absorb_of_closed hc hsub

theorem pending_receive : (d.receive p).pending = (d.pending ∪ p) \ (d.receive p).version := rfl

theorem pending_receive_eq_empty (hd : d.pending = ∅) (hp : p ⊆ (d.receive p).version) :
    (d.receive p).pending = ∅ := by
  rw [pending_receive, hd, Finset.empty_union]
  exact Finset.sdiff_eq_empty_iff_subset.mpr hp

theorem version_receive_sdiff {c : Finset Op} (hd : d.pending = ∅) (hc : Closed c)
    (hsub : d.version ⊆ c) : (d.receive (c \ d.version)).version = c := by
  rw [version_receive, hd, Finset.empty_union]
  exact absorb_sdiff hc hsub

theorem pending_receive_sdiff {c : Finset Op} (hd : d.pending = ∅) (hc : Closed c)
    (hsub : d.version ⊆ c) : (d.receive (c \ d.version)).pending = ∅ := by
  apply pending_receive_eq_empty hd
  rw [version_receive_sdiff hd hc hsub]
  exact Finset.sdiff_subset

theorem subset_receiveSnapshot : d.version ⊆ (d.receiveSnapshot b).version := by
  rw [receiveSnapshot]
  split
  · next h =>
    rw [h]
    exact Finset.empty_subset _
  · exact subset_receive

theorem snapshot_subset (h : d.version = ∅ ∨ b.root ⊆ d.version) :
    b.version ⊆ (d.receiveSnapshot b).version := by
  rw [receiveSnapshot]
  split
  · exact subset_receive (d := ofSnapshot b)
  · next hne =>
    have hroot : b.root ⊆ d.version := h.resolve_left hne
    apply closed_subset_receive b.closed
    intro o ho
    by_cases hr : o ∈ b.root
    · exact Finset.mem_union_left _ (hroot hr)
    · exact Finset.mem_union_right _ (Finset.mem_union_right _ (Finset.mem_sdiff.mpr ⟨ho, hr⟩))

end Receive

end Doc
end VibeField
