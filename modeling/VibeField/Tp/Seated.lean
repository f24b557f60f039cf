import VibeField.Tp.Leases

/-!
# The holder is seated

Every call but a verb's finalization leaves a session's seat as it is or empties it.
A finalization seats a destination it has just looked up.  So the holder of a seat is
always an activation of the table, of the holder's client and the seat's session, with
its view attached and the geometry right.
-/

namespace VibeField.Tp

/-- The seat stays, or its holder leaves it. -/
def GeometryLease.Yields (l l' : GeometryLease) : Prop :=
  l' = l ∨ (l.holder.isSome = true ∧ l' = l.vacate)

namespace GeometryLease.Yields

variable {k l n : GeometryLease}

theorem refl (l : GeometryLease) : l.Yields l := .inl rfl

theorem trans (h : k.Yields l) (g : l.Yields n) : k.Yields n := by
  rcases h with rfl | ⟨hheld, rfl⟩
  · exact g
  · rcases g with rfl | ⟨hheld', -⟩
    · exact .inr ⟨hheld, rfl⟩
    · cases hheld'

theorem holder {r : HolderRecord} (h : k.Yields l) (hl : l.holder = some r) : l = k := by
  rcases h with rfl | ⟨-, rfl⟩
  · rfl
  · cases hl

theorem revision_le (h : k.Yields l) : k.revision ≤ l.revision := by
  rcases h with rfl | ⟨-, rfl⟩
  · exact Nat.le_refl _
  · exact Nat.le_succ _

theorem holder_moves (h : k.Yields l) (hne : l.holder ≠ k.holder) : k.revision < l.revision := by
  rcases h with rfl | ⟨-, rfl⟩
  · exact absurd rfl hne
  · exact Nat.lt_succ_self _

theorem committed (h : k.Yields l) : l.committed = k.committed := by
  rcases h with rfl | ⟨-, rfl⟩ <;> rfl

theorem nextGeneration (h : k.Yields l) : l.nextGeneration = k.nextGeneration := by
  rcases h with rfl | ⟨-, rfl⟩ <;> rfl

end GeometryLease.Yields

namespace ActivationTable

variable {t u : ActivationTable} {m : Moment} {x y : ActivationId} {op : Op} {a b : Activation}

/-! ## What a call does to the seats -/

/-- Every seat of the table stays or empties. -/
def SeatsYield (t u : ActivationTable) : Prop := ∀ s, (t.lease s).Yields (u.lease s)

namespace SeatsYield

theorem of_lease (h : ∀ s, u.lease s = t.lease s) : SeatsYield t u := fun s => by
  rw [h]
  exact .refl _

theorem of_geometry (h : u.geometry = t.geometry) : SeatsYield t u :=
  of_lease (lease_of_geometry h)

theorem trans {v : ActivationTable} (h : SeatsYield t u) (k : SeatsYield u v) : SeatsYield t v :=
  fun s => (h s).trans (k s)

theorem vacate {s : SessionId} (h : (t.lease s).holder.isSome = true) :
    SeatsYield t (t.setLease s (t.lease s).vacate) := by
  intro s'
  rw [lease_setLease]
  split
  · next hs =>
    subst hs
    exact .inr ⟨h, rfl⟩
  · exact .refl _

theorem holder_of_holdsSeat {s : SessionId} (h : t.holdsSeat s x = true) :
    ∃ r, (t.lease s).holder = some r ∧ r.activationId = x := by
  obtain ⟨l, hl, hany⟩ := (Option.any_eq_true _ _).mp h
  obtain ⟨r, hr, hx⟩ := (Option.any_eq_true _ _).mp hany
  exact ⟨r, by rw [lease, hl]; exact hr, eq_of_beq hx⟩

theorem release (t : ActivationTable) (s : SessionId) (x : ActivationId) :
    SeatsYield t (t.releaseGeometryIfHeld s x).1 := by
  rw [releaseGeometryIfHeld]
  split
  · next hheld =>
    obtain ⟨r, hr, -⟩ := holder_of_holdsSeat hheld
    exact vacate (by rw [hr]; rfl)
  · exact of_geometry rfl

theorem closeAccount (t : ActivationTable) (a : Activation) : SeatsYield t (t.closeAccount a) := by
  refine of_geometry ?_
  unfold ActivationTable.closeAccount
  split <;> rfl

theorem invalidate (t : ActivationTable) (m : Moment) (x : ActivationId) (r : Reason) :
    SeatsYield t (t.invalidate m x r).1 := by
  cases hx : t.get x with
  | none =>
    rw [invalidate_none t m r hx]
    exact of_geometry rfl
  | some a =>
    simp only [ActivationTable.invalidate, hx]
    have hforgot : SeatsYield t (t.forget a x) := of_geometry rfl
    exact (hforgot.trans (release _ _ _)).trans (closeAccount _ _)

theorem invalidateAll (m : Moment) (r : Reason) :
    ∀ (ids : List ActivationId) (t : ActivationTable), SeatsYield t (t.invalidateAll m r ids).1
  | [], _ => of_geometry rfl
  | id :: rest, t => (invalidate t m id r).trans (invalidateAll m r rest _)

theorem recomputeAll (t : ActivationTable) (m : Moment) : SeatsYield t (t.recomputeAll m).1 :=
  of_geometry rfl

theorem openControl (t : ActivationTable) (m : Moment) (i : AttachControlInput)
    (before : List Effect) : SeatsYield t (t.openControl m i before).1 := by
  refine of_geometry ?_
  rw [ActivationTable.openControl]
  split
  · rfl
  · split <;> rfl

theorem reattachControl (t : ActivationTable) (m : Moment) (i : AttachControlInput)
    (a : Activation) : SeatsYield t (t.reattachControl m i a).1 := by
  simp only [ActivationTable.reattachControl]
  have hmodified : SeatsYield t (t.modify i.activationId fun _ => a.reattached m i.leg i.claims) :=
    of_geometry rfl
  split
  · exact of_geometry rfl
  · split
    · exact hmodified.trans (release _ _ _)
    · exact hmodified

theorem attachControl (t : ActivationTable) (m : Moment) (i : AttachControlInput) :
    SeatsYield t (t.attachControl m i).1 := by
  rw [ActivationTable.attachControl]
  split
  · exact of_geometry rfl
  · split
    · exact of_geometry rfl
    · split
      · exact openControl t m i []
      · split
        · split
          · exact of_geometry rfl
          · exact reattachControl t m i _
        · split
          · exact (invalidate t m _ .replaced).trans (openControl _ m i _)
          · exact of_geometry rfl

theorem releaseGeometry (t : ActivationTable) (leg : LegRef) (msg : ReleaseGeometry) :
    SeatsYield t (t.releaseGeometry leg msg).1 := by
  rw [ActivationTable.releaseGeometry]
  split
  · next l _ hl =>
    have hlease : t.lease msg.sessionId = l := by rw [lease, hl]; rfl
    split
    · next hnamed =>
      rw [← hlease] at hnamed ⊢
      obtain ⟨r, hr, -⟩ := (Option.any_eq_true _ _).mp hnamed
      exact vacate (by rw [hr]; rfl)
    · exact of_geometry rfl
  · exact of_geometry rfl

end SeatsYield

def finalizes : Op → Bool
  | .geometryFinalize _ _ _ => true
  | _ => false

theorem seatsYield_apply (t : ActivationTable) (m : Moment) (hop : finalizes op = false) :
    SeatsYield t (t.apply m op).1 := by
  cases hmoves : op.movesSeats with
  | false => exact .of_geometry (geometry_apply t m hmoves)
  | true =>
    cases op with
    | attachControl i => exact .attachControl t m i
    | viewDetached y =>
      rw [apply, viewDetached]
      split
      · exact .of_geometry rfl
      · next a ha =>
        have hmodified : SeatsYield t (t.modify y fun _ => a.viewDetached) := .of_geometry rfl
        exact hmodified.trans (.release _ _ _)
    | sessionRemoved s => exact .invalidateAll m _ _ t
    | claimGeometry leg msg => exact .of_lease (lease_claim t leg msg _)
    | transferGeometry leg msg => exact .of_lease (lease_transfer t leg msg _)
    | geometryFinalize leg proceed outcome => cases hop
    | releaseGeometry leg msg => exact .releaseGeometry t leg msg
    | legClosed c =>
      exact (SeatsYield.invalidateAll m .legDead (t.idsWhere (ridesLeg c)) t).trans
        (.of_geometry rfl)
    | revokeClient c => exact .invalidateAll m _ _ t
    | tick =>
      rw [apply, tick]
      exact ((SeatsYield.invalidateAll m _ _ t).trans (.invalidateAll m _ _ _)).trans
        (.recomputeAll _ m)
    | _ => cases hmoves

/-! ## What a call does to the holders -/

/-- The activation may sit in the session's seat as `r`. -/
structure Sits (a : Activation) (s : SessionId) (r : HolderRecord) : Prop where
  client : a.clientId = r.clientId
  session : a.sessionId = s
  view : a.view ≠ none
  right : a.hasRight .geometry = true

/-- Every holder of a seat sits in it. -/
def Seated (t : ActivationTable) : Prop :=
  ∀ s r, (t.lease s).holder = some r → ∃ a, t.get r.activationId = some a ∧ Sits a s r

theorem Sits.same {s : SessionId} {r : HolderRecord} (h : Sits a s r)
    (hclient : b.clientId = a.clientId) (hsession : b.sessionId = a.sessionId)
    (hview : a.view ≠ none → b.view ≠ none) (hrights : b.rights = a.rights) : Sits b s r :=
  ⟨hclient.trans h.client, hsession.trans h.session, hview h.view,
    by unfold Activation.hasRight; rw [hrights]; exact h.right⟩

def unseats : Op → Bool
  | .attachControl _ | .viewDetached _ | .sessionRemoved _ | .legClosed _ | .revokeClient _
  | .tick => true
  | _ => false

theorem touch_sits {es : List Effect} {s : SessionId} {r : HolderRecord} {o : Option Activation}
    (htouch : Touch t m x op (some a) o es) (hop : unseats op = false) (h : Sits a s r) :
    ∃ b, o = some b ∧ Sits b s r := by
  cases htouch with
  | kept => exact ⟨a, rfl, h⟩
  | reattached | unviewed | recomputed | lost => cases hop
  | framed => exact ⟨_, rfl, h.same rfl rfl id rfl⟩
  | viewed v epoch => exact ⟨_, rfl, h.same rfl rfl (fun _ => Option.some_ne_none _) rfl⟩
  | demanded leg msg =>
    refine ⟨_, rfl, h.same ?_ ?_ ?_ ?_⟩ <;> unfold Activation.demanded <;> dsimp only <;> split
    all_goals first | rfl | exact id
  | repaired => exact ⟨_, rfl, h.same rfl rfl id rfl⟩
  | acknowledged leg msg =>
    refine ⟨_, rfl, h.same ?_ ?_ ?_ ?_⟩ <;> unfold Activation.sceneApplied <;> dsimp only <;> split
    all_goals first | rfl | exact id
  | sent => exact ⟨_, rfl, h.same rfl rfl id rfl⟩
  | stopped =>
    refine ⟨_, rfl, ?_⟩
    unfold Activation.presentationStopped
    split
    · exact h
    · split <;> exact h.same rfl rfl id rfl
  | exited =>
    refine ⟨_, rfl, ?_⟩
    unfold Activation.sessionExited
    split
    · exact h
    · exact h.same rfl rfl id rfl
  | removed op a hremoves =>
    cases op with
    | attachControl | sessionRemoved | legClosed | revokeClient | tick => cases hop
    | _ => cases hremoves

namespace Seated

theorem new (cellBootId : String) : Seated (.new cellBootId) := fun _ _ h => by cases h

theorem keep (h : Seated t) (hyield : SeatsYield t u)
    (hkeep : ∀ s r a, (u.lease s).holder = some r → t.get r.activationId = some a → Sits a s r →
      ∃ b, u.get r.activationId = some b ∧ Sits b s r) : Seated u := by
  intro s r hr
  have hsame : u.lease s = t.lease s := (hyield s).holder hr
  obtain ⟨a, ha, hsits⟩ := h s r (hsame ▸ hr)
  exact hkeep s r a hr ha hsits

theorem of_get (h : Seated t) (hyield : SeatsYield t u) (hget : ∀ x, u.get x = t.get x) :
    Seated u :=
  h.keep hyield fun _ r a _ ha hsits => ⟨a, (hget r.activationId).trans ha, hsits⟩

theorem holder_released {s : SessionId} {r : HolderRecord}
    (hr : ((t.releaseGeometryIfHeld s x).1.lease s).holder = some r) : r.activationId ≠ x := by
  rw [releaseGeometryIfHeld] at hr
  split at hr
  · rw [lease_setLease, if_pos rfl] at hr
    cases hr
  · next hfree =>
    rintro rfl
    have hheld : t.holdsSeat s r.activationId = true := by
      unfold holdsSeat
      unfold lease at hr
      cases hl : t.geometry.lookup s with
      | none =>
        rw [hl] at hr
        cases hr
      | some l =>
        rw [hl] at hr
        have hl' : l.holder = some r := hr
        simp [hl']
    exact hfree hheld

theorem invalidate (h : Seated t) (m : Moment) (x : ActivationId) (reason : Reason) :
    Seated (t.invalidate m x reason).1 := by
  refine h.keep (.invalidate t m x reason) fun s r a hr ha hsits => ?_
  refine ⟨a, ?_, hsits⟩
  rw [get_invalidate, if_neg]
  · exact ha
  · rintro rfl
    -- its seat was released as it left
    simp only [ActivationTable.invalidate, ha] at hr
    have hlease := lease_of_geometry
      (u := (((t.forget a r.activationId).releaseGeometryIfHeld a.sessionId
        r.activationId).1.closeAccount a))
      (t := ((t.forget a r.activationId).releaseGeometryIfHeld a.sessionId r.activationId).1)
      (by unfold closeAccount; split <;> rfl) s
    rw [hlease, ← hsits.session] at hr
    exact holder_released hr rfl

theorem invalidateAll (m : Moment) (reason : Reason) :
    ∀ (ids : List ActivationId) {t : ActivationTable}, Seated t →
      Seated (t.invalidateAll m reason ids).1
  | [], _, h => h
  | id :: rest, _, h => invalidateAll m reason rest (h.invalidate m id reason)

theorem openControl (h : Seated t) (m : Moment) (i : AttachControlInput) (before : List Effect) :
    Seated (t.openControl m i before).1 := by
  refine h.keep (.openControl t m i before) fun s r a _ ha hsits => ⟨a, ?_, hsits⟩
  rw [ActivationTable.openControl]
  split
  · exact ha
  · split
    · exact ha
    · next hfree =>
      refine (Dict.lookup_insert t.byId i.activationId r.activationId (i.opened m)).trans ?_
      rw [if_neg]
      · exact ha
      · intro hx
        rw [← hx, ha] at hfree
        exact hfree rfl

theorem reattachControl (h : Seated t) (m : Moment) (i : AttachControlInput)
    (ha : t.get i.activationId = some a) (hsession : i.claims.sessionId = a.sessionId) :
    Seated (t.reattachControl m i a).1 := by
  refine h.keep (.reattachControl t m i a) fun s r c hr hc hsits => ?_
  simp only [ActivationTable.reattachControl] at hr ⊢
  split at hr
  · next hrollback =>
    rw [if_pos hrollback]
    exact ⟨c, hc, hsits⟩
  · next hcurrent =>
    rw [if_neg hcurrent]
    have hget := get_rewritten ha (a.reattached m i.leg i.claims) r.activationId
    have hid := SameIdentity.reattached a m i.leg i.claims
    have hview : (a.reattached m i.leg i.claims).view = a.view := by
      unfold Activation.reattached
      split <;> rfl
    by_cases hx : r.activationId = i.activationId
    · rw [if_pos hx] at hget
      obtain rfl : a = c := Option.some.inj (ha.symm.trans (hx ▸ hc))
      have hstill : (a.reattached m i.leg i.claims).hasRight .geometry = true →
          Sits (a.reattached m i.leg i.claims) s r := fun hright =>
        ⟨hid.clientId.trans hsits.client, hid.sessionId.trans hsits.session,
          hview ▸ hsits.view, hright⟩
      split at hr
      · rw [hsession, hsits.session, ← hx] at hr
        exact absurd rfl (holder_released hr)
      · next hkeeps =>
        rw [if_neg hkeeps]
        refine ⟨_, hget, hstill ?_⟩
        by_contra hlost
        refine hkeeps ⟨?_, hsits.right, hlost⟩
        by_contra hsame
        refine hlost ?_
        unfold Activation.reattached
        rw [if_neg hsame]
        exact hsits.right
    · rw [if_neg hx] at hget
      refine ⟨c, ?_, hsits⟩
      split
      · rw [(sameIndexes_release _ _ _).get]
        exact hget.trans hc
      · exact hget.trans hc

theorem attachControl (h : Seated t) (hw : t.WellIndexed) (m : Moment) (i : AttachControlInput) :
    Seated (t.attachControl m i).1 := by
  have hend := attachControl_end t hw m i
  generalize t.attachControl m i = r at hend
  cases hend with
  | refused code retryable => exact h
  | own a ha _ _ hkey => exact h.reattachControl m i ha (congrArg Prod.snd hkey)
  | free _ _ _ => exact h.openControl m i []
  | replaced existing _ => exact (h.invalidate m existing .replaced).openControl m i _

theorem viewDetached (h : Seated t) (x : ActivationId) : Seated (t.viewDetached x).1 := by
  rw [ActivationTable.viewDetached]
  split
  · exact h
  · next a ha =>
    have hmodified : SeatsYield t (t.modify x fun _ => a.viewDetached) := .of_geometry rfl
    refine h.keep (hmodified.trans (.release _ _ _)) fun s r c hr hc hsits => ⟨c, ?_, hsits⟩
    rw [(sameIndexes_release _ _ _).get, get_rewritten ha, if_neg]
    · exact hc
    · rintro rfl
      obtain rfl : a = c := Option.some.inj (ha.symm.trans hc)
      rw [← hsits.session] at hr
      exact holder_released hr rfl

theorem apply (h : Seated t) (hw : t.WellIndexed) (m : Moment) (hop : finalizes op = false) :
    Seated (t.apply m op).1 := by
  cases hun : unseats op with
  | false =>
    refine h.keep (seatsYield_apply t m hop) fun s r a _ ha hsits => ?_
    have htouch := touch_apply (m := m) hw op r.activationId
    rw [ha] at htouch
    exact touch_sits htouch hun hsits
  | true =>
    cases op with
    | attachControl i => exact h.attachControl hw m i
    | viewDetached y => exact h.viewDetached y
    | sessionRemoved s => exact invalidateAll m _ _ h
    | legClosed c =>
      exact (invalidateAll m .legDead (t.idsWhere (ridesLeg c)) h).of_get (.of_geometry rfl)
        fun _ => rfl
    | revokeClient c => exact invalidateAll m _ _ h
    | tick =>
      rw [ActivationTable.apply, tick]
      refine (invalidateAll m _ _ (invalidateAll m _ _ h)).keep (.recomputeAll _ m) ?_
      intro s r a _ ha hsits
      refine ⟨recomputed m a, ?_, ?_⟩
      · refine (get_mapVals _ _ _).trans ?_
        rw [ha]
        rfl
      · have hid := SameIdentity.recomputed a m
        refine hsits.same hid.clientId hid.sessionId ?_ ?_ <;> unfold recomputed <;> split
        all_goals first | rfl | exact id
    | _ => cases hun

end Seated

end ActivationTable
end VibeField.Tp
