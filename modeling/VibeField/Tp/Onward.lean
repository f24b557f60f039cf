import VibeField.Tp.Final

/-!
# What an activation does not take back

While an activation is held, whose it is stays as it was opened, its counters only go on,
and what it may do changes with a newer grant only.
-/

namespace VibeField.Tp

structure Onward (a b : Activation) : Prop where
  whose : b.clientId = a.clientId ∧ b.connectionSetId = a.connectionSetId ∧
    b.sessionId = a.sessionId ∧ b.leaseEpoch = a.leaseEpoch
  grant : a.grantGeneration ≤ b.grantGeneration
  renewed : b.grantGeneration = a.grantGeneration →
    b.rights = a.rights ∧ b.grantExpiresAtMs = a.grantExpiresAtMs ∧ b.face = a.face
  demand : a.demandSequence ≤ b.demandSequence
  status : a.statusSequence ≤ b.statusSequence
  token : ∀ token, a.resumeToken = some token → b.resumeToken = some token
  seed : ∀ revision, a.seedRevision = some revision → b.seedRevision = some revision

variable {a b c : Activation}

theorem Onward.refl (a : Activation) : Onward a a :=
  ⟨⟨rfl, rfl, rfl, rfl⟩, Nat.le_refl _, fun _ => ⟨rfl, rfl, rfl⟩, Nat.le_refl _, Nat.le_refl _,
    fun _ => id, fun _ => id⟩

theorem Onward.trans (h : Onward a b) (h' : Onward b c) : Onward a c where
  whose := by simp only [h'.whose, h.whose, and_self]
  grant := Nat.le_trans h.grant h'.grant
  renewed := by
    intro he
    have hle := h.grant
    have hle' := h'.grant
    obtain ⟨hrights, hexpiry, hface⟩ := h.renewed (by omega)
    obtain ⟨hrights', hexpiry', hface'⟩ := h'.renewed (by omega)
    exact ⟨hrights'.trans hrights, hexpiry'.trans hexpiry, hface'.trans hface⟩
  demand := Nat.le_trans h.demand h'.demand
  status := Nat.le_trans h.status h'.status
  token := fun token ht => h'.token token (h.token token ht)
  seed := fun revision hr => h'.seed revision (h.seed revision hr)

theorem Touch.onward {t : ActivationTable} {m : Moment} {x : ActivationId} {op : Op}
    {es : List Effect} (h : Touch t m x op (some a) (some b) es) : Onward a b := by
  have hkept : Onward a a := .refl a
  cases h with
  | kept | viewed | unviewed | repaired => exact { hkept with }
  | reattached i =>
    unfold Activation.reattached
    split
    · next hnewer =>
      exact { hkept with
        grant := Nat.le_of_lt hnewer
        renewed := fun he => absurd he (Nat.ne_of_gt hnewer)
        status := Nat.le_succ _ }
    · exact { hkept with }
  | framed i a trf =>
    refine { hkept with token := fun token ht => ?_ }
    show some (a.resumeToken.getD i.resumeToken) = _
    rw [ht]
    rfl
  | demanded leg msg a hx hcaller hfresh =>
    have hdemand : a.demandSequence ≤ msg.demandSequence := by
      simp only [Activation.demandSeen, Bool.and_eq_false_iff, decide_eq_false_iff_not,
        bne_eq_false_iff_eq] at hfresh
      omega
    unfold Activation.demanded
    dsimp only
    split
    · exact { hkept with demand := hdemand, status := Nat.le_succ _ }
    · exact { hkept with demand := hdemand }
  | acknowledged =>
    unfold Activation.sceneApplied
    dsimp only
    split
    · exact { hkept with status := Nat.le_succ _ }
    · exact { hkept with }
  | sent revision seed a =>
    refine { hkept with seed := fun r hr => ?_ }
    show (if seed && a.seedRevision.isNone then some revision else a.seedRevision) = _
    simp [hr]
  | stopped =>
    unfold Activation.presentationStopped
    split
    · exact hkept
    · split
      · exact { hkept with }
      · exact { hkept with status := Nat.le_succ _ }
  | exited =>
    unfold Activation.sessionExited
    split
    · exact hkept
    · exact { hkept with status := Nat.le_succ _ }
  | recomputed =>
    unfold ActivationTable.recomputed
    split
    · exact { hkept with status := Nat.le_succ _ }
    · exact { hkept with }

namespace ActivationTable

variable {t u : ActivationTable} {x : ActivationId} {cellBootId : String}

theorem onward_of_follows (ht : (machine cellBootId).Reachable t) (ha : t.get x = some a)
    (hu : (machine cellBootId).Follows (fun v => (v.get x).isSome) t u) (hb : u.get x = some b) :
    Onward a b :=
  kept_along (fun htouch h => h.trans htouch.onward) ht ha (.refl a) hu hb

theorem onward_framed : ∃ t u : ActivationTable, ∃ a b, t.get "a" = some a ∧
    u.get "a" = some b ∧ a.resumeToken = none ∧ b.resumeToken.isSome ∧ Onward a b := by
  obtain ⟨t, hreach, hp⟩ := Machine.exists_of_run (M := machine "boot")
    (fun t => (t.get "a").any (·.resumeToken.isNone) &&
      ((t.apply Sample.moment (.attachFrames (Sample.attachFrames 2 "s1" "a" 1))).1.get "a").any
        (·.resumeToken.isSome)) (Sample.presents.take 1) (by decide)
  obtain ⟨ha, hb⟩ := Bool.and_eq_true_iff.mp hp
  obtain ⟨a, ha, hnone⟩ := (Option.any_eq_true _ _).mp ha
  obtain ⟨b, hb, hsome⟩ := (Option.any_eq_true _ _).mp hb
  have hkeep : Machine.Follows (M := machine "boot") (fun v => (v.get "a").isSome) t _ :=
    .next (e := (Sample.moment, .attachFrames (Sample.attachFrames 2 "s1" "a" 1))) .refl rfl
      (Option.isSome_iff_exists.mpr ⟨b, hb⟩)
  exact ⟨t, _, a, b, ha, hb, Option.isNone_iff_eq_none.mp hnone, hsome,
    onward_of_follows hreach ha hkeep hb⟩

end ActivationTable
end VibeField.Tp
