import VibeField.Tp.Touch

/-!
# What an operation tells of one activation

`Tells` lists it, as `Touch` lists what an operation does to the record: nothing while
the lease stands, one status that carries the record after the operation, or the revoked
lease of an activation that leaves.
-/

namespace VibeField.Tp

open List Option Activation

def Effect.statusOf (x : ActivationId) : Effect → Option CellActivationStatus
  | .send _ (.cellActivationStatus status) => if status.activationId = x then some status else none
  | _ => none

def statuses (x : ActivationId) (es : List Effect) : List CellActivationStatus :=
  es.filterMap (Effect.statusOf x)

@[simp]
theorem statuses_nil (x : ActivationId) : statuses x [] = [] := rfl

@[simp]
theorem statuses_append (x : ActivationId) (es fs : List Effect) :
    statuses x (es ++ fs) = statuses x es ++ statuses x fs :=
  filterMap_append

@[simp]
theorem statuses_statusSent (x : ActivationId) (a : Activation) (es : List Effect) :
    statuses x (a.statusSent :: es) =
      (if a.activationId = x then [a.status] else []) ++ statuses x es := by
  by_cases hx : a.activationId = x <;>
    simp [statuses, statusSent, Effect.statusOf, Activation.status, hx]

theorem statuses_cons {x : ActivationId} {e : Effect} (he : e.statusOf x = none)
    (es : List Effect) : statuses x (e :: es) = statuses x es := by
  rw [statuses, filterMap_cons_none he]
  rfl

theorem statuses_eq_nil {x : ActivationId} {es : List Effect}
    (h : ∀ e ∈ es, e.statusOf x = none) : statuses x es = [] :=
  filterMap_eq_nil_iff.mpr h

theorem statuses_map (x : ActivationId) (f : Activation → Activation)
    (hf : ∀ a, (f a).activationId = a.activationId) (l : List Activation) :
    statuses x (l.map fun a => (f a).statusSent) =
      (l.filter fun a => a.activationId = x).map fun a => (f a).status := by
  induction l with
  | nil => rfl
  | cons a rest ih =>
    rw [map_cons, statuses_statusSent, ih, hf]
    by_cases hx : a.activationId = x <;> simp [hx]

/-- The lease stands: nothing a status carries of it moved. -/
structure SameLease (a b : Activation) : Prop where
  presentation : b.presentation = a.presentation
  input : b.input = a.input
  statusSequence : b.statusSequence = a.statusSequence
  leaseEpoch : b.leaseEpoch = a.leaseEpoch

structure NextLease (a b : Activation) : Prop where
  statusSequence : b.statusSequence = a.statusSequence + 1
  leaseEpoch : b.leaseEpoch = a.leaseEpoch

def Op.loses (t : ActivationTable) (x : ActivationId) : Op → Prop
  | .attachControl i => i.replaces t x = true ∧ (t.get i.activationId).isSome = true
  | _ => False

/-- What an operation does to the lease of `x`, and the statuses it sends of `x`. -/
inductive Tells (t : ActivationTable) (m : Moment) (x : ActivationId) :
    Op → Option Activation → Option Activation → List CellActivationStatus → Prop
  | absent (op : Op) : Tells t m x op none none []
  | opened (i : AttachControlInput) (hx : i.activationId = x) :
      Tells t m x (.attachControl i) none (some (i.opened m)) []
  | quiet (op : Op) (a b : Activation) (hsame : SameLease a b) :
      Tells t m x op (some a) (some b) []
  | told (op : Op) (a b : Activation) (hnext : NextLease a b) :
      Tells t m x op (some a) (some b) [b.status]
  | revoked (op : Op) (a : Activation) (r : Reason) :
      Tells t m x op (some a) none
        (if m.outClosed a.control.connectionId then [] else [(a.revoked r).status])
  | lost (op : Op) (a : Activation) (hloses : op.loses t x) : Tells t m x op (some a) none []

namespace ActivationTable

variable {t : ActivationTable}

/-! ## The statuses of the parts -/

@[simp]
theorem statuses_seatAnnouncements (t : ActivationTable) (s : SessionId) (x : ActivationId) :
    statuses x (t.seatAnnouncements s) = [] := by
  rw [seatAnnouncements]
  split
  · rfl
  · refine statuses_eq_nil fun e he => ?_
    obtain ⟨a, -, rfl⟩ := List.mem_map.mp he
    rfl

@[simp]
theorem statuses_seatStateTo (t : ActivationTable) (s : SessionId) (leg : LegRef)
    (x : ActivationId) : statuses x (t.seatStateTo s leg) = [] := by
  rw [seatStateTo]
  split
  · cases t.seatState s <;> rfl
  · rfl

@[simp]
theorem statuses_release (t : ActivationTable) (s : SessionId) (y x : ActivationId) :
    statuses x (t.releaseGeometryIfHeld s y).2 = [] := by
  rw [releaseGeometryIfHeld]
  split
  · exact statuses_seatAnnouncements _ _ _
  · rfl

def revocationTold (m : Moment) (r : Reason) (a : Activation) : List CellActivationStatus :=
  if m.outClosed a.control.connectionId then [] else [(a.revoked r).status]

theorem statuses_revocation (a : Activation) (m : Moment) (r : Reason) (x : ActivationId) :
    statuses x (a.revocationEffects m r) =
      if a.activationId = x then revocationTold m r a else [] := by
  have hrest : statuses x ((a.view.map fun v => a.detachesView v.1).toList ++
      if a.pumpRunning then [.stopPump a.activationId] else []) = [] := by
    cases a.view <;> cases a.pumpRunning <;> rfl
  rw [revocationEffects, append_assoc, statuses_append, hrest, append_nil,
    revocationTold]
  split
  · split <;> rfl
  · rw [statuses_statusSent, statuses_nil, append_nil]
    rfl

theorem statuses_invalidate (h : t.WellIndexed) (m : Moment) (r : Reason) (y x : ActivationId) :
    statuses x (t.invalidate m y r).2 =
      if x = y then ((t.get y).map (revocationTold m r)).getD [] else [] := by
  cases hy : t.get y with
  | none =>
    rw [invalidate_none t m r hy]
    split <;> rfl
  | some a =>
    simp only [invalidate, hy, statuses_append, statuses_release, statuses_revocation, h.ids hy,
      nil_append, map_some, getD_some, eq_comm (a := x)]

theorem statuses_invalidateAll (m : Moment) (r : Reason) (x : ActivationId) :
    ∀ (ids : List ActivationId) {t : ActivationTable}, t.WellIndexed →
      statuses x (t.invalidateAll m r ids).2 =
        if x ∈ ids then ((t.get x).map (revocationTold m r)).getD [] else []
  | [], _, _ => rfl
  | id :: rest, t, h => by
    rw [invalidateAll, statuses_append, statuses_invalidate h,
      statuses_invalidateAll m r x rest (h.invalidate m id r), get_invalidate]
    by_cases hid : x = id
    · subst hid
      simp
    · by_cases hrest : x ∈ rest <;> simp [hid, hrest]

theorem statuses_values (h : t.WellIndexed) (x : ActivationId) (p : Activation → Bool)
    (f : Activation → Activation) (hf : ∀ a, (f a).activationId = a.activationId) :
    statuses x ((t.byId.values.filter p).map fun a => (f a).statusSent) =
      ((t.get x).toList.filter p).map fun a => (f a).status := by
  rw [statuses_map x f hf, List.filter_filter]
  simp only [Bool.and_comm (decide _)]
  rw [← List.filter_filter, Dict.values_filter_key fun k v hv => h.ids hv]
  rfl

/-! ## Every operation tells as listed -/

variable {m : Moment} {op : Op} {u : ActivationTable} {es : List Effect} {x y : ActivationId}
  {a b : Activation}

theorem tells_still (hget : u.get x = t.get x) : Tells t m x op (t.get x) (u.get x) [] := by
  rw [hget]
  cases t.get x with
  | none => exact .absent op
  | some a => exact .quiet op a a ⟨rfl, rfl, rfl, rfl⟩

theorem tells_keep (hget : u.get x = t.get x) (hes : statuses x es = []) :
    Tells t m x op (t.get x) (u.get x) (statuses x es) := by
  rw [hes]
  exact tells_still hget

theorem tells_rewrite (ha : t.get y = some a)
    (hget : ∀ x, u.get x = if x = y then some b else t.get x)
    (hother : ∀ x, x ≠ y → statuses x es = [])
    (hy : SameLease a b ∧ statuses y es = [] ∨ NextLease a b ∧ statuses y es = [b.status])
    (x : ActivationId) : Tells t m x op (t.get x) (u.get x) (statuses x es) := by
  by_cases hxy : x = y
  · subst hxy
    rw [hget, if_pos rfl, ha]
    rcases hy with ⟨hsame, hnil⟩ | ⟨hnext, hone⟩
    · exact hnil ▸ .quiet op a b hsame
    · exact hone ▸ .told op a b hnext
  · exact tells_keep (by rw [hget, if_neg hxy]) (hother x hxy)

theorem tells_reattach (h : t.WellIndexed) (i : AttachControlInput)
    (ha : t.get i.activationId = some a) (x : ActivationId) :
    Tells t m x (.attachControl i) (t.get x) ((t.reattachControl m i a).1.get x)
      (statuses x (t.reattachControl m i a).2) := by
  by_cases hrollback : i.claims.grantGeneration < a.grantGeneration
  · rw [reattachControl, if_pos hrollback]
    exact tells_keep rfl rfl
  · have hid : (a.reattached m i.leg i.claims).activationId = i.activationId :=
      (SameIdentity.reattached a m i.leg i.claims).activationId.trans (h.ids ha)
    have hstatuses : ∀ x, statuses x (t.reattachControl m i a).2 =
        if i.claims.grantGeneration > a.grantGeneration then
          if i.activationId = x then [(a.reattached m i.leg i.claims).status] else []
        else [] := by
      intro x
      have hreply : (Effect.send i.leg
          (a.reattached m i.leg i.claims).controlLegAttached).statusOf x = none := rfl
      simp only [reattachControl, if_neg hrollback]
      split <;> split <;> split <;>
        simp [statuses_cons hreply, hid]
    refine tells_rewrite (b := a.reattached m i.leg i.claims) ha (fun x => ?_) (fun x hx => ?_) ?_ x
    · rw [← get_rewritten ha]
      simp only [reattachControl, if_neg hrollback]
      split
      · rw [(sameIndexes_release _ _ _).get]
      · rfl
    · rw [hstatuses, if_neg (Ne.symm hx), ite_self]
    · rw [hstatuses, if_pos rfl]
      by_cases hrenewed : i.claims.grantGeneration > a.grantGeneration
      · rw [if_pos hrenewed]
        refine .inr ⟨?_, rfl⟩
        rw [Activation.reattached, if_pos hrenewed]
        exact ⟨rfl, rfl⟩
      · rw [if_neg hrenewed]
        refine .inl ⟨?_, rfl⟩
        rw [Activation.reattached, if_neg hrenewed]
        exact ⟨rfl, rfl, rfl, rfl⟩

theorem tells_open (t₀ : ActivationTable) (i : AttachControlInput) (before : List Effect)
    (x : ActivationId) (hx : t.get x = t₀.get x) (hbefore : statuses x before = []) :
    Tells t₀ m x (.attachControl i) (t₀.get x) ((t.openControl m i before).1.get x)
      (statuses x (t.openControl m i before).2) := by
  rw [openControl]
  split
  · exact tells_keep hx rfl
  · split
    · exact tells_keep hx rfl
    · next hid =>
      have hnone : t.get i.activationId = none := by simpa using hid
      have hreply : (Effect.send i.leg (i.opened m).controlLegAttached).statusOf x = none := rfl
      have hview : statuses x (if (i.opened m).demand = .live then
          [(i.opened m).attachesView (i.opened m).writesView] else []) = [] := by
        split <;> rfl
      simp only [statuses_append, statuses_cons hreply, statuses_seatStateTo, hbefore, hview,
        append_nil]
      rw [show ({ t with
          byKey := t.byKey.insert i.key i.activationId
          byId := t.byId.insert i.activationId (i.opened m) } : ActivationTable).get x =
            if x = i.activationId then some (i.opened m) else t.get x from
        Dict.lookup_insert t.byId i.activationId x (i.opened m)]
      split
      · next hxi =>
        rw [← hx, hxi, hnone]
        exact .opened i rfl
      · exact tells_still hx

theorem tells_replace (h : t.WellIndexed) (i : AttachControlInput) (existing : ActivationId)
    (hr : i.replaces t existing = true) (x : ActivationId) :
    Tells t m x (.attachControl i) (t.get x)
      (((t.invalidate m existing .replaced).1.openControl m i
        (t.invalidate m existing .replaced).2).1.get x)
      (statuses x ((t.invalidate m existing .replaced).1.openControl m i
        (t.invalidate m existing .replaced).2).2) := by
  obtain ⟨hclient, hknown, hkey, hne, hreplaces⟩ := replaces_iff.mp hr
  obtain ⟨a, ha, -⟩ := h.keyed hkey
  have hgone := get_invalidate t m .replaced existing
  have hsaid := statuses_invalidate h m .replaced existing
  by_cases hx : x = existing
  · subst hx
    -- the replaced activation: its revoked lease is dropped only where the id is taken
    rw [openControl, if_neg (room_after_invalidate h m .replaced ha), ha]
    split
    · next htaken =>
      rw [hgone, if_pos rfl]
      refine .lost _ a ⟨hr, ?_⟩
      rwa [hgone, if_neg (Ne.symm hne)] at htaken
    · have hreply : (Effect.send i.leg (i.opened m).controlLegAttached).statusOf x = none := rfl
      have hview : statuses x (if (i.opened m).demand = .live then
          [(i.opened m).attachesView (i.opened m).writesView] else []) = [] := by
        split <;> rfl
      simp only [statuses_append, statuses_cons hreply, statuses_seatStateTo, hsaid, if_pos, ha,
        map_some, getD_some, hview, append_nil]
      rw [show ({ (t.invalidate m x .replaced).1 with
          byKey := (t.invalidate m x .replaced).1.byKey.insert i.key i.activationId
          byId := (t.invalidate m x .replaced).1.byId.insert i.activationId (i.opened m) } :
            ActivationTable).get x =
            if x = i.activationId then some (i.opened m)
            else (t.invalidate m x .replaced).1.get x from
        Dict.lookup_insert _ i.activationId x (i.opened m), if_neg hne, hgone, if_pos rfl]
      exact .revoked _ a .replaced
  · exact tells_open t i _ x (by rw [hgone, if_neg hx]) (by rw [hsaid, if_neg hx])

theorem tells_attachControl (h : t.WellIndexed) (i : AttachControlInput) (x : ActivationId) :
    Tells t m x (.attachControl i) (t.get x) ((t.attachControl m i).1.get x)
      (statuses x (t.attachControl m i).2) := by
  have hend := attachControl_end t h m i
  generalize t.attachControl m i = r at hend
  cases hend with
  | refused code retryable => exact tells_keep rfl rfl
  | own a ha _ _ _ => exact tells_reattach h i ha x
  | free _ _ _ => exact tells_open t i [] x rfl rfl
  | replaced existing hr => exact tells_replace h i existing hr x

theorem tells_quiet (ha : t.get y = some a)
    (hget : ∀ x, u.get x = if x = y then some b else t.get x) (hsame : SameLease a b) (hes : ∀ x, statuses x es = []) (x : ActivationId) :
    Tells t m x op (t.get x) (u.get x) (statuses x es) :=
  tells_rewrite ha hget (fun x _ => hes x) (.inl ⟨hsame, hes y⟩) x

theorem tells_attachFrames (i : AttachFramesInput) (x : ActivationId) :
    Tells t m x (.attachFrames i) (t.get x) ((t.attachFrames i).1.get x)
      (statuses x (t.attachFrames i).2) := by
  rw [attachFrames]
  split
  · exact tells_keep rfl rfl
  · next a trf htarget =>
    have ha := framesTarget_get htarget
    have hsame := sameIndexes_resolve t i.claims.sessionId i.sessionEpoch
    refine tells_quiet (b := a.framesAttached i.leg trf i.resumeToken
      (t.resolveSceneEpoch i.claims.sessionId i.sessionEpoch).2) ha (fun x => ?_)
      ⟨rfl, rfl, rfl, rfl⟩ (fun x => ?_) x
    · rw [get_openAccount, get_rewritten ((hsame.get _).trans ha), hsame.get]
    · dsimp only
      split <;> split <;> rfl

theorem tells_viewAttached (y : ActivationId) (v : ViewId) (epoch : Nat) (x : ActivationId) :
    Tells t m x (.viewAttached y v epoch) (t.get x) ((t.viewAttached y v epoch).1.get x)
      (statuses x (t.viewAttached y v epoch).2) := by
  rw [viewAttached]
  split
  · exact tells_keep rfl rfl
  · next a ha =>
    refine tells_quiet (b := a.viewAttached v epoch) ha (get_rewritten ha _)
      ⟨rfl, rfl, rfl, rfl⟩ (fun x => ?_) x
    dsimp only
    split <;> rfl

theorem tells_viewDetached (y x : ActivationId) :
    Tells t m x (.viewDetached y) (t.get x) ((t.viewDetached y).1.get x)
      (statuses x (t.viewDetached y).2) := by
  rw [viewDetached]
  split
  · exact tells_keep rfl rfl
  · next a ha =>
    refine tells_quiet (b := a.viewDetached) ha (fun x => ?_) ⟨rfl, rfl, rfl, rfl⟩
      (fun x => statuses_release _ _ _ _) x
    rw [(sameIndexes_release _ _ _).get, get_rewritten ha]

theorem statuses_demandEffects (a : Activation) (msg : DeclareDemand) (x : ActivationId) :
    statuses x (a.demandEffects m msg) =
      if (msg.demand ≠ .live ∧ a.input = .allowed) ∧ a.activationId = x then
        [(a.demanded m msg).status] else [] := by
  by_cases hlive : msg.demand = .live
  · rw [if_neg fun hboth => hboth.1.1 hlive, Activation.demandEffects, hlive]
    split
    · rfl
    · split <;> rfl
    · next hnot _ => exact absurd rfl hnot
  · have hid := (SameIdentity.demanded a m msg).activationId
    have hview : ∀ v : Option (ViewId × Nat), statuses x (v.map fun v =>
        (a.demanded m msg).detachesView v.1).toList = [] := by
      intro v
      cases v <;> rfl
    have heffects : a.demandEffects m msg =
        (if a.input = .allowed then [(a.demanded m msg).statusSent] else []) ++
          (a.view.map fun v => (a.demanded m msg).detachesView v.1).toList ++
            [.wakePump a.activationId] := by
      rw [Activation.demandEffects]
      split
      · next hmsg => exact absurd hmsg hlive
      · next hmsg _ => exact absurd hmsg hlive
      · rfl
    have hwake : statuses x [Effect.wakePump a.activationId] = [] := rfl
    rw [heffects, statuses_append, statuses_append, hview, hwake, append_nil, append_nil]
    by_cases hopen : a.input = .allowed
    · rw [if_pos hopen, statuses_statusSent, hid, statuses_nil, append_nil]
      simp only [ne_eq, hlive, not_false_eq_true, hopen, and_self, true_and]
    · rw [if_neg hopen, if_neg fun hboth => hopen hboth.1.2]
      rfl

theorem tells_declareDemand (h : t.WellIndexed) (leg : LegRef) (msg : DeclareDemand)
    (x : ActivationId) :
    Tells t m x (.declareDemand leg msg) (t.get x) ((t.declareDemand m leg msg).1.get x)
      (statuses x (t.declareDemand m leg msg).2) := by
  rw [declareDemand]
  split
  · exact tells_keep rfl rfl
  · next a hcaller =>
    have ha := verbCaller_get hcaller
    have hreply : ∀ x, (Effect.send leg (.demandAccepted msg.demandSequence)).statusOf x = none :=
      fun _ => rfl
    simp only
    split
    · exact tells_keep rfl rfl
    · refine tells_rewrite (b := a.demanded m msg) ha (get_rewritten ha _) (fun x hx => ?_) ?_ x
      · rw [statuses_cons (hreply x), statuses_demandEffects, h.ids ha,
          if_neg fun hboth => hx hboth.2.symm]
      · rw [statuses_cons (hreply _), statuses_demandEffects, h.ids ha]
        by_cases hclose : msg.demand ≠ .live ∧ a.input = .allowed
        · rw [if_pos ⟨hclose, rfl⟩]
          refine .inr ⟨?_, rfl⟩
          simp only [Activation.demanded, if_pos hclose]
          exact ⟨rfl, rfl⟩
        · rw [if_neg fun hboth => hclose hboth.1]
          refine .inl ⟨?_, rfl⟩
          simp only [Activation.demanded, if_neg hclose]
          exact ⟨rfl, rfl, rfl, rfl⟩

theorem tells_requestScene (leg : LegRef) (msg : RequestScene) (nowMs : Nat) (x : ActivationId) :
    Tells t m x (.requestScene leg msg) (t.get x) ((t.requestScene leg msg nowMs).1.get x)
      (statuses x (t.requestScene leg msg nowMs).2) := by
  rw [requestScene]
  split
  · exact tells_keep rfl rfl
  · next a ha =>
    split
    · exact tells_quiet (b := a.repaired) ha
        (get_rewritten ha _) ⟨rfl, rfl, rfl, rfl⟩ (fun _ => rfl) x
    · exact tells_keep rfl rfl

theorem tells_sceneApplied (h : t.WellIndexed) (leg : LegRef) (msg : SceneApplied)
    (x : ActivationId) :
    Tells t m x (.sceneApplied leg msg) (t.get x) ((t.sceneApplied m leg msg).1.get x)
      (statuses x (t.sceneApplied m leg msg).2) := by
  rw [sceneApplied]
  split
  · exact tells_keep rfl rfl
  · next a htarget =>
    have ha := ackTarget_get htarget
    have hid : (a.sceneApplied m msg.appliedContent).activationId = msg.activationId :=
      (SameIdentity.sceneApplied a m msg.appliedContent).activationId.trans (h.ids ha)
    refine tells_rewrite ha (get_rewritten ha _) (fun x hx => ?_) ?_ x
    · dsimp only
      split
      · rw [statuses_statusSent, hid, if_neg (Ne.symm hx)]
        rfl
      · rfl
    · dsimp only
      by_cases hdue : a.statusDue (a.acknowledged m msg.appliedContent) m = true
      · rw [if_pos hdue, statuses_statusSent, hid, if_pos rfl]
        refine .inr ⟨?_, rfl⟩
        simp only [Activation.sceneApplied, if_pos hdue]
        exact ⟨rfl, rfl⟩
      · rw [if_neg hdue]
        refine .inl ⟨?_, rfl⟩
        have hunmoved := hdue
        simp only [statusDue, Bool.or_eq_true, bne_iff_ne, not_or, not_not] at hunmoved
        simp only [Activation.sceneApplied, if_neg hdue]
        exact ⟨hunmoved.1.1, hunmoved.1.2, rfl, rfl⟩

theorem tells_unitSent (y : ActivationId) (revision : Nat) (seed : Bool) (x : ActivationId) :
    Tells t m x (.unitSent y revision seed) (t.get x) ((t.unitSent m y revision seed).1.get x)
      (statuses x (t.unitSent m y revision seed).2) := by
  cases ha : t.get y with
  | none =>
    refine tells_keep ?_ rfl
    rw [unitSent, get_modify]
    split
    · next h => rw [h, ha]; rfl
    · rfl
  | some a =>
    refine tells_quiet (b := a.unitSent m revision seed) ha (fun x => ?_) ⟨rfl, rfl, rfl, rfl⟩
      (fun _ => rfl) x
    rw [unitSent, get_modify]
    split
    · next h => rw [h, ha]; rfl
    · rfl

theorem tells_presentationStopped (h : t.WellIndexed) (y x : ActivationId) :
    Tells t m x (.presentationStopped y) (t.get x)
      ((t.presentationStopped m y .overload).1.get x)
      (statuses x (t.presentationStopped m y .overload).2) := by
  rw [presentationStopped]
  split
  · exact tells_keep rfl rfl
  · next a ha =>
    have hid : (a.presentationStopped m .overload).activationId = y :=
      (SameIdentity.presentationStopped a m .overload).activationId.trans (h.ids ha)
    refine tells_rewrite ha (get_rewritten ha _) (fun x hx => ?_) ?_ x
    · dsimp only
      split
      · rfl
      · rw [statuses_statusSent, hid, if_neg (Ne.symm hx)]
        rfl
    · dsimp only
      unfold Activation.presentationStopped at hid ⊢
      by_cases hexited : a.presentation = .stopped .exited
      · rw [if_pos hexited, if_pos (.inl hexited)]
        exact .inl ⟨⟨rfl, rfl, rfl, rfl⟩, rfl⟩
      · by_cases hstopped : a.presentation = .stopped .overload
        · rw [if_neg hexited, if_pos hstopped, if_pos (.inr hstopped)]
          exact .inl ⟨⟨rfl, rfl, rfl, rfl⟩, rfl⟩
        · rw [if_neg hexited, if_neg hstopped] at hid
          rw [if_neg hexited, if_neg hstopped, if_neg (not_or.mpr ⟨hexited, hstopped⟩),
            statuses_statusSent, hid, if_pos rfl]
          exact .inr ⟨⟨rfl, rfl⟩, rfl⟩

theorem tells_sessionExited (h : t.WellIndexed) (s : SessionId) (x : ActivationId) :
    Tells t m x (.sessionExited s) (t.get x) ((t.sessionExited m s).1.get x)
      (statuses x (t.sessionExited m s).2) := by
  rw [sessionExited, get_mapVals, statuses_values h x _ _ fun a =>
    (SameIdentity.sessionExited a m).activationId]
  cases t.get x with
  | none => exact .absent _
  | some a =>
    by_cases hexit : exitsNow s a = true
    · have hpresentation : a.presentation ≠ .stopped .exited := by
        simp only [exitsNow, Bool.and_eq_true, bne_iff_ne] at hexit
        exact hexit.2
      simp only [map_some, if_pos hexit, toList_some, filter_cons_of_pos hexit,
        filter_nil, map_cons, map_nil]
      refine .told _ _ _ ?_
      rw [Activation.sessionExited, if_neg hpresentation]
      exact ⟨rfl, rfl⟩
    · simp only [map_some, if_neg hexit, toList_some, filter_cons_of_neg hexit,
        filter_nil, map_nil]
      exact .quiet _ _ _ ⟨rfl, rfl, rfl, rfl⟩

theorem tells_invalidateWhere (h : t.WellIndexed) (r : Reason) (p : Activation → Bool)
    (hget : u.get x = (t.invalidateAll m r (t.idsWhere p)).1.get x)
    (hes : statuses x es = statuses x (t.invalidateAll m r (t.idsWhere p)).2) :
    Tells t m x op (t.get x) (u.get x) (statuses x es) := by
  rw [hget, hes, get_invalidateAll, statuses_invalidateAll m r x _ h]
  by_cases hx : x ∈ t.idsWhere p
  · obtain ⟨a, ha, -⟩ := (mem_idsWhere h).mp hx
    rw [if_pos hx, if_pos hx, ha]
    exact .revoked op a r
  · rw [if_neg hx, if_neg hx]
    exact tells_still rfl

theorem tells_tick (h : t.WellIndexed) (x : ActivationId) :
    Tells t m x .tick (t.get x) ((t.tick m).1.get x) (statuses x (t.tick m).2) := by
  have h₁ := WellIndexed.invalidateAll m .rightRevoked (t.idsWhere (grantExpired m)) h
  have h₂ := WellIndexed.invalidateAll m .attachDeadline
    ((t.invalidateAll m .rightRevoked (t.idsWhere (grantExpired m))).1.idsWhere (attachOverdue
      (t.invalidateAll m .rightRevoked (t.idsWhere (grantExpired m))).1.attachDeadline m)) h₁
  simp only [tick, recomputeAll, statuses_append, get_mapVals]
  rw [statuses_values h₂ x _ _ fun a => (SameIdentity.recomputed a m).activationId]
  rw [get_invalidateAll, statuses_invalidateAll m _ x _ h, statuses_invalidateAll m _ x _ h₁]
  generalize hdl : (t.invalidateAll m .rightRevoked (t.idsWhere (grantExpired m))).1 = t₁ at *
  by_cases hx : x ∈ t.idsWhere (grantExpired m)
  · have hnone : t₁.get x = none := by rw [← hdl, get_invalidateAll, if_pos hx]
    obtain ⟨a, ha, -⟩ := (mem_idsWhere h).mp hx
    have hnot : x ∉ t₁.idsWhere (attachOverdue t₁.attachDeadline m) := fun hmem => by
      obtain ⟨b, hb, -⟩ := (mem_idsWhere h₁).mp hmem
      rw [hnone] at hb
      cases hb
    rw [if_pos hx, if_neg hnot, if_neg hnot, hnone, ha]
    simp only [append_nil, map_none, toList_none, filter_nil, map_nil]
    exact .revoked _ a .rightRevoked
  · have hget : t₁.get x = t.get x := by rw [← hdl, get_invalidateAll, if_neg hx]
    rw [if_neg hx, nil_append]
    by_cases hy : x ∈ t₁.idsWhere (attachOverdue t₁.attachDeadline m)
    · obtain ⟨a, ha, -⟩ := (mem_idsWhere h₁).mp hy
      rw [if_pos hy, if_pos hy, ha, ← hget, ha]
      simp only [map_none, toList_none, filter_nil, map_nil,
        append_nil]
      exact .revoked _ a .attachDeadline
    · rw [if_neg hy, if_neg hy, hget, nil_append]
      cases t.get x with
      | none => exact .absent _
      | some a =>
        rw [map_some, toList_some]
        by_cases hmoved : (a.recomputeInput m).input ≠ a.input
        · rw [filter_cons_of_pos (by simpa using hmoved), filter_nil]
          refine .told _ _ _ ?_
          rw [recomputed, if_pos hmoved]
          exact ⟨rfl, rfl⟩
        · rw [filter_cons_of_neg (by simpa using hmoved), filter_nil]
          refine .quiet _ _ _ ?_
          rw [recomputed, if_neg hmoved]
          exact ⟨rfl, not_not.mp hmoved, rfl, rfl⟩

theorem statuses_claim (t : ActivationTable) (leg : LegRef) (msg : ClaimGeometry) (nowMs : Nat)
    (x : ActivationId) : statuses x (t.claimGeometry leg msg nowMs).2.effects = [] := by
  rw [claimGeometry]
  split
  · rfl
  · split
    · rfl
    · split
      · rfl
      · simp only
        split
        · rfl
        · split <;> rfl

theorem statuses_transfer (t : ActivationTable) (leg : LegRef) (msg : TransferGeometry)
    (nowMs : Nat) (x : ActivationId) :
    statuses x (t.transferGeometry leg msg nowMs).2.effects = [] := by
  rw [transferGeometry]
  split
  · rfl
  · split
    · rfl
    · split
      · rfl
      · simp only
        split
        · rfl
        · split <;> rfl

theorem statuses_commitLease (l : GeometryLease) (leg : LegRef) (proceed : GeometryProceed)
    (outcome : GeometryOutcome) (live : Bool) (x : ActivationId) :
    statuses x (l.commitLease leg proceed outcome live).2 = [] := by
  unfold GeometryLease.commitLease
  split
  · rfl
  · split
    · rfl
    · split <;> rfl
    · split
      · rfl
      · split <;> rfl

theorem statuses_finalize (t : ActivationTable) (leg : LegRef) (proceed : GeometryProceed)
    (outcome : GeometryOutcome) (nowMs : Nat) (x : ActivationId) :
    statuses x (t.geometryFinalize leg proceed outcome nowMs).2 = [] := by
  simp only [geometryFinalize]
  split
  · exact statuses_commitLease _ _ _ _ _ _
  · rw [statuses_append, statuses_commitLease, statuses_seatAnnouncements]
    rfl

theorem statuses_releaseGeometry (t : ActivationTable) (leg : LegRef) (msg : ReleaseGeometry)
    (x : ActivationId) : statuses x (t.releaseGeometry leg msg).2 = [] := by
  rw [releaseGeometry]
  split
  · split
    · exact statuses_seatAnnouncements _ _ _
    · rfl
  · rfl

theorem tells_apply (h : t.WellIndexed) (m : Moment) (op : Op) (x : ActivationId) :
    Tells t m x op (t.get x) ((t.apply m op).1.get x) (statuses x (t.apply m op).2) := by
  cases op with
  | openCredit c epoch windows reserve => exact tells_keep rfl rfl
  | attachControl i => exact tells_attachControl h i x
  | attachFrames i => exact tells_attachFrames i x
  | viewAttached y v epoch => exact tells_viewAttached y v epoch x
  | viewDetached y => exact tells_viewDetached y x
  | declareDemand leg msg => exact tells_declareDemand h leg msg x
  | requestScene leg msg => exact tells_requestScene leg msg _ x
  | sceneApplied leg msg => exact tells_sceneApplied h leg msg x
  | unitSent y revision seed => exact tells_unitSent y revision seed x
  | presentationStopped y => exact tells_presentationStopped h y x
  | sessionExited s => exact tells_sessionExited h s x
  | sessionRemoved s => exact tells_invalidateWhere h .removed _ rfl rfl
  | creditReturned c credit =>
    simp only [apply, creditReturned]
    split
    · exact tells_keep rfl rfl
    · refine tells_keep rfl (statuses_eq_nil fun e he => ?_)
      obtain ⟨y, -, rfl⟩ := List.mem_map.mp he
      rfl
  | tryAdmit c y bytes cls =>
    simp only [apply, tryAdmit]
    split <;> exact tells_keep rfl rfl
  | canAdmit c y bytes cls =>
    simp only [apply, canAdmit]
    split <;> exact tells_keep rfl rfl
  | claimGeometry leg msg =>
    exact tells_keep ((WellIndexed.sameIndexes_claim t leg msg _).get x) (statuses_claim _ _ _ _ _)
  | transferGeometry leg msg =>
    exact tells_keep ((WellIndexed.sameIndexes_transfer t leg msg _).get x)
      (statuses_transfer _ _ _ _ _)
  | geometryFinalize leg proceed outcome =>
    exact tells_keep ((WellIndexed.sameIndexes_finalize t leg _ _ _).get x)
      (statuses_finalize _ _ _ _ _ _)
  | releaseGeometry leg msg =>
    exact tells_keep ((WellIndexed.sameIndexes_releaseGeometry t leg msg).get x)
      (statuses_releaseGeometry _ _ _ _)
  | legClosed c => exact tells_invalidateWhere h .legDead _ rfl rfl
  | revokeClient c => exact tells_invalidateWhere h .rightRevoked _ rfl rfl
  | tick => exact tells_tick h x
  | pruneModelGenerations live => exact tells_keep rfl rfl

end ActivationTable
end VibeField.Tp
