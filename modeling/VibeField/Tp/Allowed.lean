import VibeField.Tp.Final
import Mathlib.Tactic.ByContra

/-!
# What an allowed input says

An input becomes allowed in a recompute only.  Its right, its presentation and its
demand stay what the recompute read until the next operation that moves one of them,
which recomputes or closes the input itself.  The view and the expiry may move past
it: the gate reads both again.
-/

namespace VibeField.Tp

open Activation
namespace Activation

variable {a b : Activation} {m : Moment}

/-- What an allowed input vouches for. -/
structure Vouched (a : Activation) : Prop where
  right : a.hasRight .input = true
  presentation : a.presentation = .presenting
  demand : a.demand = .live

structure Grounds (a : Activation) (m : Moment) : Prop extends Vouched a where
  view : a.view ≠ none
  margin : m.nowMs + attachRenewalMarginMs < a.grantExpiresAtMs

theorem of_computedInput (h : a.computedInput m = .allowed) : a.Grounds m := by
  unfold computedInput at h
  split at h
  · cases h
  · split at h
    · cases h
    · next hright =>
      split at h
      · cases h
      · next hpresenting =>
        split at h
        · cases h
        · next hlive =>
          split at h
          · cases h
          · next hmargin =>
            rw [not_or, not_not] at hlive
            exact ⟨⟨by simpa using hright, hpresenting, hlive.1⟩, hlive.2,
              Nat.lt_of_not_le hmargin⟩
      · cases h

/-- What an allowed input vouches for stays. -/
structure SameGrounds (a b : Activation) : Prop where
  rights : b.rights = a.rights
  presentation : b.presentation = a.presentation
  demand : a.demand = .live → b.demand = .live

theorem Vouched.same (h : a.Vouched) (hs : SameGrounds a b) : b.Vouched :=
  ⟨by unfold hasRight; rw [hs.rights]; exact h.right, hs.presentation.trans h.presentation,
    hs.demand h.demand⟩

theorem Grounds.same (h : a.Grounds m) (hs : SameGrounds a b) (hview : b.view = a.view)
    (hexpiry : b.grantExpiresAtMs = a.grantExpiresAtMs) : b.Grounds m :=
  ⟨h.toVouched.same hs, by rw [hview]; exact h.view, by rw [hexpiry]; exact h.margin⟩

theorem grounds_recompute (h : (a.recomputeInput m).input = .allowed) :
    (a.recomputeInput m).Grounds m :=
  (of_computedInput h).same ⟨rfl, rfl, id⟩ rfl rfl

theorem opened_not_allowed (m : Moment) (i : AttachControlInput) :
    (i.opened m).input ≠ .allowed := by
  have hinput : (i.opened m).input =
      if AttachRight.input ∈ i.claims.rights then .suspended .pending else .revoked .notGranted :=
    rfl
  rw [hinput]
  split <;> simp

end Activation

theorem Touch.allows {t : ActivationTable} {m : Moment} {x : ActivationId} {op : Op}
    {a b : Activation} {es : List Effect} (h : Touch t m x op (some a) (some b) es)
    (hb : b.input = .allowed) :
    (a.input = .allowed ∧ a.SameGrounds b) ∨ b.Grounds m := by
  cases h with
  | kept => exact .inl ⟨hb, rfl, rfl, id⟩
  | reattached i =>
    unfold Activation.reattached at hb ⊢
    split at hb
    · next hnewer =>
      rw [if_pos hnewer]
      exact .inr ((grounds_recompute hb).same ⟨rfl, rfl, id⟩ rfl rfl)
    · next hsame =>
      rw [if_neg hsame]
      exact .inl ⟨hb, rfl, rfl, id⟩
  | framed | viewed | unviewed | repaired | sent => exact .inl ⟨hb, rfl, rfl, id⟩
  | demanded leg msg =>
    unfold Activation.demanded at hb ⊢
    dsimp only at hb ⊢
    split at hb
    · cases hb
    · next hlive =>
      rw [if_neg hlive]
      refine .inl ⟨hb, rfl, rfl, fun _ => ?_⟩
      by_contra hnone
      exact hlive ⟨hnone, hb⟩
  | acknowledged leg msg =>
    have hallowed : (a.acknowledged m msg.appliedContent).input = .allowed →
        (a.acknowledged m msg.appliedContent).Grounds m := grounds_recompute
    unfold Activation.sceneApplied at hb ⊢
    dsimp only at hb ⊢
    split at hb <;> rename_i hdue
    · rw [if_pos hdue]
      exact .inr ((hallowed hb).same ⟨rfl, rfl, id⟩ rfl rfl)
    · rw [if_neg hdue]
      exact .inr (hallowed hb)
  | stopped =>
    unfold Activation.presentationStopped at hb ⊢
    split at hb
    · next hexited =>
      rw [if_pos hexited]
      exact .inl ⟨hb, rfl, rfl, id⟩
    · next hexited =>
      rw [if_neg hexited]
      split at hb
      · next hstopped =>
        rw [if_pos hstopped]
        exact .inl ⟨hb, rfl, rfl, id⟩
      · next hstopped =>
        rw [if_neg hstopped]
        exact .inr ((grounds_recompute (m := m) hb).same ⟨rfl, rfl, id⟩ rfl rfl)
  | exited =>
    unfold Activation.sessionExited at hb ⊢
    split at hb
    · next hexited =>
      rw [if_pos hexited]
      exact .inl ⟨hb, rfl, rfl, id⟩
    · cases hb
  | recomputed =>
    unfold ActivationTable.recomputed at hb ⊢
    split at hb <;> rename_i hchanged
    · rw [if_pos hchanged]
      exact .inr ((grounds_recompute hb).same ⟨rfl, rfl, id⟩ rfl rfl)
    · rw [if_neg hchanged]
      exact .inr (grounds_recompute hb)

theorem ActivationTable.vouched_of_allowed {t : ActivationTable} {x : ActivationId}
    {a : Activation} {cellBootId : String} (h : (machine cellBootId).Reachable t)
    (ha : t.get x = some a) (hallowed : a.input = .allowed) : a.Vouched := by
  refine every_activation (P := fun a => a.input = .allowed → a.Vouched) (fun m i hopen => ?_)
    (fun htouch hP hb => ?_) h ha hallowed
  · exact absurd hopen (opened_not_allowed m i)
  · rcases htouch.allows hb with ⟨hallowed, hsame⟩ | hgrounds
    · exact (hP hallowed).same hsame
    · exact hgrounds.toVouched

end VibeField.Tp
