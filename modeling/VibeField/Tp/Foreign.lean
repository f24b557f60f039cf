import VibeField.Tp.Op

/-!
# Operations from elsewhere

An operation names the activation it is about.  Where that activation rides another
connection, or belongs to another client, the operation changes nothing.  Attaches
are told apart by the client and its connection set, since attaching is how an
activation comes to ride a leg.
-/

namespace VibeField.Tp

/-- The operation names an activation of the table that rides another connection, or,
where the operation attaches a leg, one of another client or connection set. -/
def Op.foreign (t : ActivationTable) : Op → Bool
  | .attachControl i => (t.get i.activationId).any fun a => a.clientId != i.set.clientId
  | .attachFrames i => (t.get i.activationId).any fun a =>
      a.clientId != i.set.clientId || a.connectionSetId != i.set.connectionSetId
  | .declareDemand leg msg => offControl t leg msg.activationId
  | .requestScene leg msg => offFrames t leg msg.activationId
  | .sceneApplied leg msg => offFrames t leg msg.activationId
  | .claimGeometry leg msg => offControl t leg msg.activationId
  | .transferGeometry leg msg => offControl t leg msg.activationId
  | .releaseGeometry leg msg => offControl t leg msg.activationId
  | _ => false
where
  offControl (t : ActivationTable) (leg : LegRef) (x : ActivationId) : Bool :=
    (t.get x).any fun a => a.control.connectionId != leg.connectionId
  offFrames (t : ActivationTable) (leg : LegRef) (x : ActivationId) : Bool :=
    (t.get x).any fun a => !a.frames.any fun f => f.connectionId == leg.connectionId

def Op.replacing (t : ActivationTable) : Op → Prop
  | .attachControl i => ∃ existing, i.replaces t existing = true
  | _ => False

namespace ActivationTable

variable {t : ActivationTable} {leg : LegRef} {x : ActivationId}

theorem verbCaller_offControl (h : Op.foreign.offControl t leg x = true) (s : SessionId) :
    t.verbCaller leg x s = none := by
  obtain ⟨a, ha, hne⟩ := (Option.any_eq_true _ _).mp h
  have hne' : (a.control.connectionId == leg.connectionId) = false := by simpa using hne
  simp [verbCaller, ha, Option.filter, hne']

theorem ackTarget_offFrames {msg : SceneApplied}
    (h : Op.foreign.offFrames t leg msg.activationId = true) : t.ackTarget leg msg = none := by
  obtain ⟨a, ha, hoff⟩ := (Option.any_eq_true _ _).mp h
  rw [Bool.not_eq_true'] at hoff
  simp only [ackTarget, ha, Option.filter, hoff, Bool.false_and, Bool.false_eq_true, if_false]

theorem attachControl_foreign (h : t.WellIndexed) {m : Moment} {i : AttachControlInput}
    (hforeign : Op.foreign t (.attachControl i) = true)
    (hreplaces : ¬ Op.replacing t (.attachControl i)) : (t.attachControl m i).1 = t := by
  obtain ⟨a, ha, hne⟩ := (Option.any_eq_true _ _).mp hforeign
  have hend := attachControl_end t h m i
  generalize t.attachControl m i = r at hend
  cases hend with
  | refused code retryable => rfl
  | own b hb _ _ hkey =>
    obtain rfl := Option.some.inj (ha.symm.trans hb)
    have hclient : i.set.clientId = a.clientId := congrArg Prod.fst hkey
    simp [hclient] at hne
  | free _ _ _ =>
    rw [openControl]
    split
    · rfl
    · rw [ha]
      rfl
  | replaced existing hr => exact absurd ⟨existing, hr⟩ hreplaces

theorem attachFrames_foreign {i : AttachFramesInput}
    (hforeign : Op.foreign t (.attachFrames i) = true) : (t.attachFrames i).1 = t := by
  obtain ⟨a, ha, hne⟩ := (Option.any_eq_true _ _).mp hforeign
  have htarget : ∃ e, t.framesTarget i = .error e := by
    unfold framesTarget
    split
    · exact ⟨_, rfl⟩
    · rw [ha]
      dsimp only
      rw [if_pos]
      · exact ⟨_, rfl⟩
      · rw [Bool.or_eq_true, bne_iff_ne, bne_iff_ne] at hne
        exact hne.elim .inl fun hset => .inr (.inl hset)
  obtain ⟨e, he⟩ := htarget
  rw [attachFrames, he]

theorem apply_foreign (h : t.WellIndexed) (m : Moment) {op : Op} (hforeign : op.foreign t = true)
    (hreplaces : ¬ op.replacing t) : (t.apply m op).1 = t := by
  cases op with
  | attachControl i => exact attachControl_foreign h hforeign hreplaces
  | attachFrames i => exact attachFrames_foreign hforeign
  | declareDemand leg msg =>
    simp only [apply, declareDemand, verbCaller_offControl hforeign]
  | requestScene leg msg =>
    obtain ⟨a, ha, hoff⟩ := (Option.any_eq_true _ _).mp hforeign
    have hrepair : a.mayRepair leg msg m.nowMs = false := by
      rw [Bool.not_eq_true'] at hoff
      unfold Activation.mayRepair
      cases hf : a.frames with
      | none => rfl
      | some f =>
        rw [hf, Option.any_some] at hoff
        simp [hoff]
    simp [apply, requestScene, ha, hrepair]
  | sceneApplied leg msg => simp only [apply, sceneApplied, ackTarget_offFrames hforeign]
  | claimGeometry leg msg =>
    simp only [apply, claimGeometry, verbCaller_offControl hforeign, Option.filter_none]
  | transferGeometry leg msg =>
    simp only [apply, transferGeometry, verbCaller_offControl hforeign]
  | releaseGeometry leg msg =>
    simp only [apply, releaseGeometry, verbCaller_offControl hforeign]
  | _ => cases hforeign

/-- The keys and the ids name each other, the cap holds, and what comes from elsewhere
changes nothing. -/
structure Indexed (t : ActivationTable) : Prop where
  bijective : ∀ key x, t.byKey.lookup key = some x ↔
    ∃ a, t.get x = some a ∧ (a.clientId, a.sessionId) = key
  ids : ∀ x a, t.get x = some a → a.activationId = x
  size : t.byId.len ≤ t.maxActivations
  foreign : ∀ m (op : Op), op.foreign t = true → ¬ op.replacing t → (t.apply m op).1 = t

theorem indexed_of_reachable {cellBootId : String} (h : (machine cellBootId).Reachable t) :
    Indexed t := by
  have hw := WellIndexed.reachable h
  refine ⟨fun key x => ⟨hw.keyed, ?_⟩, fun x a ha => hw.ids ha, hw.size,
    fun m op hforeign hreplaces => apply_foreign hw m hforeign hreplaces⟩
  rintro ⟨a, ha, rfl⟩
  exact hw.keys ha

/-- A table with an activation, which another client's connection names. -/
theorem indexed_attached :
    ∃ t : ActivationTable, (t.get "a").isSome = true ∧
      Op.foreign t (.releaseGeometry (Sample.leg 7)
        { sessionId := "s1"
          activationId := "a"
          holder := { clientId := "win:1", viewId := "a", holderGeneration := 1 } }) = true ∧
      Indexed t := by
  obtain ⟨t, hreach, hp⟩ := Machine.exists_of_run (M := machine "boot")
    (fun t => (t.get "a").any fun a => a.control.connectionId != 7)
    [(Sample.moment, .attachControl (Sample.attach 1 "s1" "a" none))] (by decide)
  obtain ⟨a, ha, -⟩ := (Option.any_eq_true _ _).mp hp
  exact ⟨t, by rw [ha]; rfl, hp, indexed_of_reachable hreach⟩

/-- A client attaches its activation again on another leg, and the activation moves
there. -/
theorem reattach_moves :
    ¬ ∀ t, (machine "boot").Reachable t → ∀ m i a, t.get i.activationId = some a →
      a.control.connectionId ≠ i.leg.connectionId → (t.attachControl m i).1 = t := by
  intro hall
  obtain ⟨t, hreach, hp⟩ := Machine.exists_of_run (M := machine "boot")
    (fun t => (t.get "a").any fun a => a.control.connectionId == 1 &&
      (((t.attachControl Sample.moment (Sample.attach 2 "s1" "a" none)).1.get "a").any fun b =>
        b.control.connectionId == 2))
    [(Sample.moment, .attachControl (Sample.attach 1 "s1" "a" none))] (by decide)
  obtain ⟨a, ha, hmoved⟩ := (Option.any_eq_true _ _).mp hp
  rw [Bool.and_eq_true, beq_iff_eq] at hmoved
  obtain ⟨hone, hmoved⟩ := hmoved
  have hkept := hall t hreach Sample.moment (Sample.attach 2 "s1" "a" none) a ha
    (by rw [hone]; decide)
  rw [hkept, ha, Option.any_some, beq_iff_eq, hone] at hmoved
  cases hmoved

end ActivationTable
end VibeField.Tp
