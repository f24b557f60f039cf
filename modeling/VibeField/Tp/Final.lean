import VibeField.Tp.Touch

/-!
# Exit and revocation are final

An activation is ended when its session's exit was told to it: its presentation is
stopped by the exit and its input revoked.  No operation takes an ended activation back,
and none reopens an input that was revoked, as long as the activation is in the table.
A later activation under the same id is another one.
-/

namespace VibeField.Tp

open Option Activation
namespace Activation

def InputRevoked (a : Activation) : Prop := ∃ r, a.input = .revoked r

structure Ended (a : Activation) : Prop where
  presentation : a.presentation = .stopped .exited
  input : a.InputRevoked

theorem InputRevoked.not_allowed {a : Activation} (h : a.InputRevoked) : a.input ≠ .allowed := by
  obtain ⟨r, hr⟩ := h
  rw [hr]
  simp

theorem InputRevoked.recompute {a b : Activation} (h : a.InputRevoked) (m : Moment)
    (hb : b.input = a.input) : (b.recomputeInput m).InputRevoked := by
  obtain ⟨r, hr⟩ := h
  exact ⟨r, by simp [recomputeInput, computedInput, hb, hr]⟩

theorem InputRevoked.renew {a : Activation} (h : a.InputRevoked) (claims : AttachClaims) :
    (a.renewGrant claims).InputRevoked := by
  obtain ⟨r, hr⟩ := h
  unfold InputRevoked
  simp only [renewGrant, hr]
  split
  · exact ⟨_, rfl⟩
  · exact ⟨r, rfl⟩

end Activation

namespace Touch

variable {t : ActivationTable} {m : Moment} {x : ActivationId} {op : Op} {a b : Activation}
  {es : List Effect}

theorem inputRevoked (h : Touch t m x op (some a) (some b) es) (ha : a.InputRevoked) :
    b.InputRevoked := by
  have hnot := ha.not_allowed
  cases h with
  | kept => exact ha
  | reattached i _ hx hgeneration hclient hknown hkey =>
    unfold Activation.reattached
    split
    · exact (ha.renew i.claims).recompute m rfl
    · exact ha
  | framed | viewed | unviewed | repaired | sent => exact ha
  | demanded leg msg =>
    unfold Activation.demanded
    dsimp only
    rw [if_neg fun h => hnot h.2]
    exact ha
  | acknowledged leg msg =>
    have hb : (a.acknowledged m msg.appliedContent).InputRevoked := ha.recompute m rfl
    unfold Activation.sceneApplied
    dsimp only
    split <;> exact hb
  | stopped =>
    unfold Activation.presentationStopped
    split
    · exact ha
    · split
      · exact ha
      · exact ha.recompute (b := { a with
          presentation := .stopped .overload, resumeRevision := none }) m rfl
  | exited =>
    unfold Activation.sessionExited
    split
    · exact ha
    · exact ⟨.exited, rfl⟩
  | recomputed =>
    unfold ActivationTable.recomputed
    split <;> exact ha.recompute m rfl

theorem exited_stays (h : Touch t m x op (some a) (some b) es)
    (ha : a.presentation = .stopped .exited) : b.presentation = .stopped .exited := by
  cases h with
  | kept | framed | viewed | unviewed | repaired | sent => exact ha
  | reattached i =>
    unfold Activation.reattached
    split <;> exact ha
  | demanded leg msg =>
    unfold Activation.demanded
    dsimp only
    split <;> exact ha
  | acknowledged leg msg =>
    have hb : (a.acknowledged m msg.appliedContent).presentation = .stopped .exited := by
      simp [Activation.acknowledged, recomputeInput, meetsSeed,
        meetsResume, ha]
    unfold Activation.sceneApplied
    dsimp only
    split <;> exact hb
  | stopped =>
    unfold Activation.presentationStopped
    rw [if_pos ha]
    exact ha
  | exited =>
    unfold Activation.sessionExited
    rw [if_pos ha]
    exact ha
  | recomputed =>
    unfold ActivationTable.recomputed
    split <;> exact ha

theorem ended (h : Touch t m x op (some a) (some b) es) (ha : a.Ended) : b.Ended :=
  ⟨h.exited_stays ha.presentation, h.inputRevoked ha.input⟩

end Touch

namespace ActivationTable

variable {t u : ActivationTable} {x : ActivationId} {a b : Activation} {cellBootId : String}

theorem every_activation {P : Activation → Prop}
    (hopened : ∀ m i, P (AttachControlInput.opened i m))
    (hkept : ∀ {t m x op a b es}, Touch t m x op (some a) (some b) es → P a → P b)
    (h : (machine cellBootId).Reachable t) (ha : t.get x = some a) : P a := by
  have hall : t.WellIndexed ∧ ∀ x a, t.get x = some a → P a := by
    refine h.invariant (P := fun t => t.WellIndexed ∧ ∀ x a, t.get x = some a → P a)
      ⟨WellIndexed.new cellBootId, fun x a ha => by cases ha⟩ ?_
    rintro t ⟨m, op⟩ u ⟨hw, hall⟩ hnext
    obtain rfl := some.inj hnext
    refine ⟨hw.apply m op, fun x b hb => ?_⟩
    have htouch := touch_apply hw m op x
    rw [hb] at htouch
    cases ha : t.get x with
    | none =>
      rw [ha] at htouch
      generalize hes : driven x _ = es at htouch
      cases htouch with
      | opened i _ _ => exact hopened m i
    | some a =>
      rw [ha] at htouch
      exact hkept htouch (hall x a ha)
  exact hall.2 x a ha

theorem kept_along {P : Activation → Prop}
    (hkept : ∀ {t m x op a b es}, Touch t m x op (some a) (some b) es → P a → P b)
    (ht : (machine cellBootId).Reachable t) (ha : t.get x = some a) (hP : P a)
    (hu : (machine cellBootId).Follows (fun v => (v.get x).isSome) t u) (hb : u.get x = some b) :
    P b := by
  have hall : (machine cellBootId).Reachable u ∧ ∃ b, u.get x = some b ∧ P b := by
    refine hu.invariant
      (P := fun u => (machine cellBootId).Reachable u ∧ ∃ b, u.get x = some b ∧ P b)
      ⟨ht, a, ha, hP⟩ ?_
    rintro t e u ⟨hr, a, ha, hPa⟩ hnext hkeep
    refine ⟨hr.next hnext, ?_⟩
    obtain ⟨b, hb⟩ := isSome_iff_exists.mp hkeep
    have htouch := touch_apply (WellIndexed.reachable hr) e.1 e.2 x
    rw [show (t.apply e.1 e.2).1 = u from some.inj hnext, ha, hb] at htouch
    exact ⟨b, hb, hkept htouch hPa⟩
  obtain ⟨-, c, hc, hPc⟩ := hall
  obtain rfl := some.inj (hb.symm.trans hc)
  exact hPc

theorem ended_of_exited (h : (machine cellBootId).Reachable t) (ha : t.get x = some a)
    (hexited : a.presentation = .stopped .exited) : a.Ended := by
  refine ⟨hexited, every_activation (P := fun a =>
    a.presentation = .stopped .exited → a.InputRevoked) (fun m i hopen => by cases hopen) ?_ h ha
      hexited⟩
  intro t m x op a b es htouch hP hb
  by_cases hexited : a.presentation = .stopped .exited
  · exact htouch.inputRevoked (hP hexited)
  · cases htouch with
    | kept | framed | viewed | unviewed | repaired | sent => exact absurd hb hexited
    | reattached i =>
      unfold Activation.reattached at hb
      split at hb <;> exact absurd hb hexited
    | demanded leg msg =>
      unfold Activation.demanded at hb
      dsimp only at hb
      split at hb <;> exact absurd hb hexited
    | acknowledged leg msg =>
      have hp : (a.acknowledged m msg.appliedContent).presentation = .stopped .exited := by
        unfold Activation.sceneApplied at hb
        dsimp only at hb
        split at hb <;> exact hb
      simp only [Activation.acknowledged, recomputeInput] at hp
      split at hp
      · cases hp
      · exact absurd hp hexited
    | stopped =>
      unfold Activation.presentationStopped at hb
      rw [if_neg hexited] at hb
      split at hb
      · exact absurd hb hexited
      · cases hb
    | exited =>
      unfold Activation.sessionExited
      rw [if_neg hexited]
      exact ⟨.exited, rfl⟩
    | recomputed =>
      unfold ActivationTable.recomputed at hb
      split at hb <;> exact absurd hb hexited

theorem ended_sessionExited (h : (machine cellBootId).Reachable t) (ha : t.get x = some a)
    (m : Moment) : ∃ b, (t.apply m (.sessionExited a.sessionId)).1.get x = some b ∧ b.Ended := by
  simp only [apply, sessionExited, get_mapVals, ha, map_some]
  refine ⟨_, rfl, ?_⟩
  by_cases hexited : a.presentation = .stopped .exited
  · rw [if_neg (by simp [exitsNow, hexited])]
    exact ended_of_exited h ha hexited
  · rw [if_pos (by simp [exitsNow, hexited])]
    simp only [Activation.sessionExited, if_neg hexited]
    exact ⟨rfl, .exited, rfl⟩

/-- The table's exits and revocations are for good. -/
structure Final (cellBootId : String) (t : ActivationTable) : Prop where
  exit : ∀ m x a, t.get x = some a → ∀ u,
    (machine cellBootId).Follows (fun v => (v.get x).isSome)
      (t.apply m (.sessionExited a.sessionId)).1 u →
    ∀ b, u.get x = some b → b.presentation ≠ .presenting ∧ b.input ≠ .allowed
  revocation : ∀ x a r, t.get x = some a → a.input = .revoked r → ∀ u,
    (machine cellBootId).Follows (fun v => (v.get x).isSome) t u →
    ∀ b, u.get x = some b → b.input ≠ .allowed

theorem final_of_reachable (h : (machine cellBootId).Reachable t) : Final cellBootId t := by
  constructor
  · intro m x a ha u hu b hb
    obtain ⟨c, hc, hended⟩ := ended_sessionExited h ha m
    have hb := kept_along (P := Activation.Ended) Touch.ended
      (h.next (e := (m, .sessionExited a.sessionId)) rfl) hc hended hu hb
    exact ⟨by rw [hb.presentation]; simp, hb.input.not_allowed⟩
  · intro x a r ha hr u hu b hb
    exact (kept_along (P := Activation.InputRevoked) Touch.inputRevoked h ha ⟨r, hr⟩ hu
      hb).not_allowed

/-- An activation that presents and may type, from its attach to its first applied
scene. -/
theorem final_presenting :
    ∃ t : ActivationTable, ((t.get "a").any fun a =>
      a.presentation == .presenting && a.input == .allowed) = true ∧ Final "boot" t := by
  obtain ⟨t, hreach, hp⟩ := Machine.exists_of_run (M := machine "boot")
    (fun t => (t.get "a").any fun a => a.presentation == .presenting && a.input == .allowed)
    Sample.presents (by decide)
  exact ⟨t, hp, final_of_reachable hreach⟩

end ActivationTable
end VibeField.Tp
