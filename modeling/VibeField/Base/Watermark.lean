import VibeField.Base.Dict

/-!
# Watermarks that are kept for a while

Per key, the highest generation seen and the instant it was first seen.  A mark
only rises, and it may be dropped once a fixed time has passed since it was
raised.  A generation below the mark is stale.
-/

namespace VibeField

universe u

/-- The highest generation seen, and when it was first accepted. -/
structure HighWater where
  generation : Nat
  firstAcceptedAtMs : Nat
  deriving DecidableEq, Repr

namespace HighWater

def raised (old : Option HighWater) (mark : HighWater) : HighWater :=
  match old with
  | none => mark
  | some h => if mark.generation > h.generation then mark else h

def raises (old : Option HighWater) (generation : Nat) : Bool :=
  match old with
  | none => true
  | some h => generation > h.generation

theorem raised_of_raises {old : Option HighWater} {mark : HighWater}
    (h : raises old mark.generation = true) : raised old mark = mark := by
  cases old with
  | none => rfl
  | some m =>
    have hlt : mark.generation > m.generation := by simpa [raises] using h
    rw [raised, if_pos hlt]

theorem raised_of_not_raises {old : Option HighWater} {mark : HighWater}
    (h : raises old mark.generation = false) : old = some (raised old mark) := by
  cases old with
  | none => cases h
  | some m =>
    have hle : ¬ mark.generation > m.generation := by simpa [raises] using h
    rw [raised, if_neg hle]

theorem le_raised (old : Option HighWater) (mark : HighWater) :
    mark.generation ≤ (raised old mark).generation := by
  cases old with
  | none => exact Nat.le_refl _
  | some m =>
    rw [raised]
    split
    · exact Nat.le_refl _
    · omega

theorem raised_mono {m : HighWater} (mark : HighWater) :
    m.generation ≤ (raised (some m) mark).generation := by
  rw [raised]
  split
  · omega
  · exact Nat.le_refl _

end HighWater

abbrev Watermarks (κ : Type u) := Dict κ HighWater

namespace Watermarks

variable {κ : Type u} [DecidableEq κ]

def raise (d : Watermarks κ) (k : κ) (mark : HighWater) : Watermarks κ :=
  match d.lookup k with
  | none => d.insert k mark
  | some h => if mark.generation > h.generation then d.insert k mark else d

def generationOf (d : Watermarks κ) (k : κ) : Option Nat := (d.lookup k).map HighWater.generation

def below (d : Watermarks κ) (k : κ) (generation : Nat) : Bool :=
  (d.lookup k).any fun h => generation < h.generation

def prune (d : Watermarks κ) (ttl now : Nat) : Watermarks κ :=
  d.retain fun _ h => decide (now < h.firstAcceptedAtMs + ttl)

theorem lookup_raise (d : Watermarks κ) (k k' : κ) (mark : HighWater) :
    (d.raise k mark).lookup k' =
      if k' = k then some (HighWater.raised (d.lookup k) mark) else d.lookup k' := by
  unfold raise
  cases hk : d.lookup k with
  | none => exact Dict.lookup_insert d k k' mark
  | some h =>
    dsimp only [HighWater.raised]
    split
    · exact Dict.lookup_insert d k k' mark
    · by_cases hkk : k' = k
      · rw [if_pos hkk, hkk, hk]
      · rw [if_neg hkk]

theorem lookup_prune (d : Watermarks κ) (ttl now : Nat) (k : κ) :
    (d.prune ttl now).lookup k =
      (d.lookup k).filter fun h => decide (now < h.firstAcceptedAtMs + ttl) :=
  Dict.lookup_retain d _ k

variable {d : Watermarks κ}

theorem lookup_of_prune {ttl now : Nat} {k : κ} {h : HighWater}
    (hp : (d.prune ttl now).lookup k = some h) : d.lookup k = some h := by
  rw [lookup_prune] at hp
  exact (Option.filter_eq_some_iff.mp hp).1

theorem expired_of_prune {ttl now : Nat} {k : κ} {h : HighWater}
    (hd : d.lookup k = some h) (hp : (d.prune ttl now).lookup k = none) :
    h.firstAcceptedAtMs + ttl ≤ now := by
  rw [lookup_prune, hd, Option.filter_eq_none_iff] at hp
  simpa using hp h rfl

theorem below_iff {k : κ} {generation : Nat} :
    d.below k generation = true ↔ ∃ h, d.lookup k = some h ∧ generation < h.generation := by
  cases hk : d.lookup k with
  | none => simp [below, hk]
  | some h => simp [below, hk]

theorem generationOf_eq_some {k : κ} {g : Nat} :
    d.generationOf k = some g ↔ ∃ h, d.lookup k = some h ∧ h.generation = g := by
  rw [generationOf, Option.map_eq_some_iff]

end Watermarks
end VibeField
