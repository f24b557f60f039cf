import VibeField.Tp.Op

/-!
# What an operation does to one activation

`Touch` lists it: an operation keeps the record of `x`, opens it, rewrites it in
one of eleven ways, or removes it.  Beside the record it says which effects of
the operation drive `x`'s view or its pump, in their order.  Every invariant of
an activation is proved from this list and never from the operations.
-/

namespace VibeField.Tp

open List Option Dict Activation

def Effect.drives (x : ActivationId) : Effect → Bool
  | .attachView y _ _ _ _ => y == x
  | .detachView y _ _ _ => y == x
  | .startPump y => y == x
  | .stopPump y => y == x
  | _ => false

def driven (x : ActivationId) (es : List Effect) : List Effect := es.filter (Effect.drives x)

@[simp]
theorem driven_nil (x : ActivationId) : driven x [] = [] := rfl

@[simp]
theorem driven_append (x : ActivationId) (es fs : List Effect) :
    driven x (es ++ fs) = driven x es ++ driven x fs :=
  filter_append es fs

@[simp]
theorem driven_send (x : ActivationId) (leg : LegRef) (msg : CellMessage) (es : List Effect) :
    driven x (.send leg msg :: es) = driven x es := rfl

@[simp]
theorem driven_statusSent (x : ActivationId) (a : Activation) (es : List Effect) :
    driven x (a.statusSent :: es) = driven x es := rfl

@[simp]
theorem driven_wake (x y : ActivationId) (es : List Effect) :
    driven x (.wakePump y :: es) = driven x es := rfl

theorem driven_eq_nil {x : ActivationId} {es : List Effect}
    (h : ∀ e ∈ es, e.drives x = false) : driven x es = [] :=
  filter_eq_nil_iff.mpr fun e he => by rw [h e he]; exact Bool.false_ne_true

@[simp]
theorem driven_map_status (x : ActivationId) (f : Activation → Activation)
    (l : List Activation) : driven x (l.map fun a => (f a).statusSent) = [] :=
  driven_eq_nil fun e he => by
    obtain ⟨a, -, rfl⟩ := List.mem_map.mp he
    rfl

@[simp]
theorem driven_map_wake (x : ActivationId) (l : List ActivationId) :
    driven x (l.map .wakePump) = [] :=
  driven_eq_nil fun e he => by
    obtain ⟨a, -, rfl⟩ := List.mem_map.mp he
    rfl

namespace Activation

def releasedEffects (a : Activation) : List Effect :=
  (a.view.map fun v => a.detachesView v.1).toList ++
    (if a.pumpRunning then [.stopPump a.activationId] else [])

def openedEffects (a : Activation) : List Effect :=
  if a.demand = .live then [a.attachesView a.writesView] else []

def demandedEffects (a : Activation) (msg : DeclareDemand) : List Effect :=
  match a.demand, msg.demand with
  | .live, .live => []
  | _, .live => if a.view = none then [a.attachesView a.writesView] else []
  | _, _ => (a.view.map fun v => a.detachesView v.1).toList

def framedEffects (a : Activation) (leg : LegRef) (epoch : SceneEpoch) : List Effect :=
  (if a.stopsPump epoch then [.stopPump a.activationId] else []) ++
    (if a.startsPump leg epoch then [.startPump a.activationId] else [])

def viewedEffects (a : Activation) : List Effect :=
  if a.frames.isSome && !a.pumpRunning then [.startPump a.activationId] else []

end Activation

def Op.removes (t : ActivationTable) (m : Moment) (a : Activation) : Op → Bool
  | .attachControl i => i.replaces t a.activationId
  | .sessionRemoved s => a.sessionId == s
  | .legClosed c => ActivationTable.ridesLeg c a
  | .revokeClient c => a.clientId == c
  | .tick =>
    ActivationTable.grantExpired m a || ActivationTable.attachOverdue t.attachDeadline m a
  | _ => false

/-- What an operation does to the record of `x`, and the effects that drive `x`. -/
inductive Touch (t : ActivationTable) (m : Moment) (x : ActivationId) :
    Op → Option Activation → Option Activation → List Effect → Prop
  | kept (op : Op) (r : Option Activation) : Touch t m x op r r []
  | opened (i : AttachControlInput) (hx : i.activationId = x) (hopens : i.opens t = true) :
      Touch t m x (.attachControl i) none (some (i.opened m)) (i.opened m).openedEffects
  | reattached (i : AttachControlInput) (a : Activation) (hx : i.activationId = x)
      (hgeneration : ¬ i.claims.grantGeneration < a.grantGeneration)
      (hclient : i.claims.clientId = i.set.clientId) (hknown : i.sessionKnown = true)
      (hkey : i.key = (a.clientId, a.sessionId)) :
      Touch t m x (.attachControl i) (some a) (some (a.reattached m i.leg i.claims)) []
  | framed (i : AttachFramesInput) (a : Activation) (trf : TrfIdentity) (hx : i.activationId = x)
      (htarget : t.framesTarget i = .ok (a, trf)) :
      Touch t m x (.attachFrames i) (some a)
        (some (a.framesAttached i.leg trf i.resumeToken
          (t.resolveSceneEpoch i.claims.sessionId i.sessionEpoch).2))
        (a.framedEffects i.leg (t.resolveSceneEpoch i.claims.sessionId i.sessionEpoch).2)
  | viewed (v : ViewId) (epoch : Nat) (a : Activation) :
      Touch t m x (.viewAttached x v epoch) (some a) (some (a.viewAttached v epoch))
        a.viewedEffects
  | unviewed (a : Activation) :
      Touch t m x (.viewDetached x) (some a) (some a.viewDetached) []
  | demanded (leg : LegRef) (msg : DeclareDemand) (a : Activation) (hx : msg.activationId = x)
      (hcaller : t.verbCaller leg msg.activationId msg.sessionId = some a)
      (hfresh : a.demandSeen msg = false) :
      Touch t m x (.declareDemand leg msg) (some a) (some (a.demanded m msg))
        (a.demandedEffects msg)
  | repaired (leg : LegRef) (msg : RequestScene) (a : Activation) :
      Touch t m x (.requestScene leg msg) (some a) (some a.repaired) []
  | acknowledged (leg : LegRef) (msg : SceneApplied) (a : Activation)
      (hx : msg.activationId = x) (htarget : t.ackTarget leg msg = some a) :
      Touch t m x (.sceneApplied leg msg) (some a)
        (some (a.sceneApplied m msg.appliedContent)) []
  | sent (revision : Nat) (seed : Bool) (a : Activation) :
      Touch t m x (.unitSent x revision seed) (some a) (some (a.unitSent m revision seed)) []
  | stopped (a : Activation) :
      Touch t m x (.presentationStopped x) (some a) (some (a.presentationStopped m .overload)) []
  | exited (s : SessionId) (a : Activation) (hs : a.sessionId = s) :
      Touch t m x (.sessionExited s) (some a) (some (a.sessionExited m)) []
  | recomputed (a : Activation) :
      Touch t m x .tick (some a) (some (ActivationTable.recomputed m a)) []
  | removed (op : Op) (a : Activation) (hremoves : op.removes t m a = true) :
      Touch t m x op (some a) none a.releasedEffects
  /-- the replacement's own id is taken by another key, and the removal says
  nothing -/
  | lost (i : AttachControlInput) (a : Activation) (hreplaces : i.replaces t x = true)
      (htaken : (t.get i.activationId).isSome) :
      Touch t m x (.attachControl i) (some a) none []

namespace ActivationTable

variable {t : ActivationTable}

/-! ## The effects that drive an activation -/

@[simp]
theorem driven_seatAnnouncements (t : ActivationTable) (s : SessionId) (x : ActivationId) :
    driven x (t.seatAnnouncements s) = [] := by
  rw [seatAnnouncements]
  split
  · rfl
  · refine driven_eq_nil fun e he => ?_
    obtain ⟨a, -, rfl⟩ := List.mem_map.mp he
    rfl

@[simp]
theorem driven_seatStateTo (t : ActivationTable) (s : SessionId) (leg : LegRef)
    (x : ActivationId) : driven x (t.seatStateTo s leg) = [] := by
  rw [seatStateTo]
  split
  · cases t.seatState s <;> rfl
  · rfl

@[simp]
theorem driven_release (t : ActivationTable) (s : SessionId) (y x : ActivationId) :
    driven x (t.releaseGeometryIfHeld s y).2 = [] := by
  rw [releaseGeometryIfHeld]
  split
  · exact driven_seatAnnouncements _ _ _
  · rfl

theorem driven_releasedEffects (a : Activation) (x : ActivationId) :
    driven x a.releasedEffects = if a.activationId = x then a.releasedEffects else [] := by
  cases hv : a.view <;> cases hp : a.pumpRunning <;> by_cases hx : a.activationId = x <;>
    simp [releasedEffects, detachesView, driven, Effect.drives, hv, hp, hx]

theorem driven_revocation (a : Activation) (m : Moment) (r : Reason) (x : ActivationId) :
    driven x (a.revocationEffects m r) = if a.activationId = x then a.releasedEffects else [] := by
  rw [← driven_releasedEffects, revocationEffects, releasedEffects,
    append_assoc, driven_append]
  split <;> rfl

theorem driven_invalidate (h : t.WellIndexed) (m : Moment) (r : Reason) (y x : ActivationId) :
    driven x (t.invalidate m y r).2 =
      if x = y then ((t.get y).map releasedEffects).getD [] else [] := by
  cases hy : t.get y with
  | none =>
    rw [invalidate_none t m r hy]
    split <;> rfl
  | some a =>
    simp only [invalidate, hy, driven_append, driven_release, driven_revocation, h.ids hy,
      nil_append, map_some, getD_some, eq_comm (a := x)]

theorem driven_invalidateAll (m : Moment) (r : Reason) (x : ActivationId) :
    ∀ (ids : List ActivationId) {t : ActivationTable}, t.WellIndexed →
      driven x (t.invalidateAll m r ids).2 =
        if x ∈ ids then ((t.get x).map releasedEffects).getD [] else []
  | [], _, _ => rfl
  | id :: rest, t, h => by
    rw [invalidateAll, driven_append, driven_invalidate h,
      driven_invalidateAll m r x rest (h.invalidate m id r), get_invalidate]
    by_cases hid : x = id
    · subst hid
      simp
    · by_cases hrest : x ∈ rest <;> simp [hid, hrest]

theorem driven_demandEffects (a : Activation) (m : Moment) (msg : DeclareDemand)
    (x : ActivationId) :
    driven x (a.demandEffects m msg) =
      if a.activationId = x then a.demandedEffects msg else [] := by
  have hid := SameIdentity.demanded a m msg
  have hw : (a.demanded m msg).writesView = a.writesView := by
    rw [Activation.demanded]
    split <;> rfl
  cases hd : a.demand <;> cases hm : msg.demand <;> cases hv : a.view <;>
    by_cases hi : a.input = .allowed <;> by_cases hx : a.activationId = x <;>
    simp [Activation.demandEffects, Activation.demandedEffects, attachesView,
      detachesView, driven, Effect.drives, statusSent, hid.activationId,
      hid.clientId, hid.sessionId, hw, hd, hm, hv, hi, hx]

theorem mem_idsWhere (h : t.WellIndexed) {p : Activation → Bool} {x : ActivationId} :
    x ∈ t.idsWhere p ↔ ∃ a, t.get x = some a ∧ p a = true := by
  rw [idsWhere, List.mem_map]
  constructor
  · rintro ⟨a, ha, rfl⟩
    obtain ⟨hval, hp⟩ := mem_filter.mp ha
    obtain ⟨y, hy⟩ := mem_values.mp hval
    have hyx : a.activationId = y := h.ids hy
    exact ⟨a, by rw [hyx]; exact hy, hp⟩
  · rintro ⟨a, ha, hp⟩
    exact ⟨a, mem_filter.mpr ⟨mem_values.mpr ⟨x, ha⟩, hp⟩, h.ids ha⟩

/-! ## Every operation touches as listed -/

variable {m : Moment} {op : Op} {u : ActivationTable} {es : List Effect} {x y : ActivationId}
  {a b : Activation}

theorem touch_keep (hget : u.get x = t.get x) (hes : driven x es = []) :
    Touch t m x op (t.get x) (u.get x) (driven x es) := by
  rw [hget, hes]
  exact .kept op _

theorem touch_rewrite (ha : t.get y = some a)
    (hget : ∀ x, u.get x = if x = y then some b else t.get x)
    (hes : ∀ x, x ≠ y → driven x es = [])
    (hy : Touch t m y op (some a) (some b) (driven y es)) (x : ActivationId) :
    Touch t m x op (t.get x) (u.get x) (driven x es) := by
  by_cases hxy : x = y
  · subst hxy
    rw [hget, if_pos rfl, ha]
    exact hy
  · exact touch_keep (by rw [hget, if_neg hxy]) (hes x hxy)

theorem get_rewritten (ha : t.get y = some a) (b : Activation) (x : ActivationId) :
    (t.modify y fun _ => b).get x = if x = y then some b else t.get x := by
  rw [get_modify]
  split
  · next h => rw [h, ha]; rfl
  · rfl

theorem touch_reattach (i : AttachControlInput)
    (ha : t.get i.activationId = some a) (hclient : i.claims.clientId = i.set.clientId)
    (hknown : i.sessionKnown = true) (hkey : i.key = (a.clientId, a.sessionId))
    (x : ActivationId) :
    Touch t m x (.attachControl i) (t.get x) ((t.reattachControl m i a).1.get x)
      (driven x (t.reattachControl m i a).2) := by
  have hdriven : ∀ x, driven x (t.reattachControl m i a).2 = [] := by
    intro x
    simp only [reattachControl]
    split
    · rfl
    · split <;> simp only [driven_append, driven_send, driven_release, append_nil] <;>
        split <;> split <;> simp
  by_cases hrollback : i.claims.grantGeneration < a.grantGeneration
  · refine touch_keep ?_ (hdriven x)
    rw [reattachControl, if_pos hrollback]
  · refine touch_rewrite (b := a.reattached m i.leg i.claims) ha (fun x => ?_)
      (fun x _ => hdriven x) ?_ x
    · rw [← get_rewritten ha]
      simp only [reattachControl, if_neg hrollback]
      split
      · rw [(sameIndexes_release _ _ _).get]
      · rfl
    · rw [hdriven]
      exact .reattached i a rfl hrollback hclient hknown hkey

theorem driven_openedEffects (a : Activation) (x : ActivationId) :
    driven x a.openedEffects = if a.activationId = x then a.openedEffects else [] := by
  by_cases hd : a.demand = .live <;> by_cases hx : a.activationId = x <;>
    simp [openedEffects, attachesView, driven, Effect.drives, hd, hx]

theorem touch_open (t₀ : ActivationTable) (i : AttachControlInput) (before : List Effect)
    (hopens : t.byId.len < t.maxActivations → t.get i.activationId = none → i.opens t₀ = true)
    (x : ActivationId) (hx : t.get x = t₀.get x) (hbefore : driven x before = []) :
    Touch t₀ m x (.attachControl i) (t₀.get x) ((t.openControl m i before).1.get x)
      (driven x (t.openControl m i before).2) := by
  rw [openControl]
  split
  · exact touch_keep hx rfl
  · next hroom =>
    split
    · exact touch_keep hx rfl
    · next hid =>
      have hnone : t.get i.activationId = none := by simpa using hid
      have hown : (i.opened m).activationId = i.activationId := rfl
      have hes : driven x (before ++ .send i.leg (i.opened m).controlLegAttached ::
          ({ t with
            byKey := t.byKey.insert i.key i.activationId
            byId := t.byId.insert i.activationId (i.opened m) } : ActivationTable).seatStateTo
              (i.opened m).sessionId i.leg ++ (i.opened m).openedEffects) =
          if x = i.activationId then (i.opened m).openedEffects else [] := by
        simp only [driven_append, driven_send, driven_seatStateTo, hbefore, nil_append,
          driven_openedEffects, hown, eq_comm (a := x)]
      rw [openedEffects] at hes
      rw [hes]
      rw [show ({ t with
          byKey := t.byKey.insert i.key i.activationId
          byId := t.byId.insert i.activationId (i.opened m) } : ActivationTable).get x =
            if x = i.activationId then some (i.opened m) else t.get x from
        lookup_insert t.byId i.activationId x (i.opened m)]
      split
      · next hxi =>
        rw [← hx, hxi, hnone]
        exact .opened i rfl (hopens (by omega) hnone)
      · rw [hx]
        exact .kept _ _

theorem room_after_invalidate (h : t.WellIndexed) (m : Moment) (r : Reason)
    (ha : t.get x = some a) :
    ¬ (t.invalidate m x r).1.byId.len ≥ (t.invalidate m x r).1.maxActivations := by
  have hsame := sameIndexes_invalidate t m r ha
  have hlt : (t.byId.erase x).len < t.byId.len := len_erase_lt ha
  have hsize := h.size
  rw [hsame.byId, hsame.maxActivations]
  show ¬ (t.byId.erase x).len ≥ t.maxActivations
  omega

theorem touch_replace (h : t.WellIndexed) (i : AttachControlInput) (existing : ActivationId)
    (hr : i.replaces t existing = true) (x : ActivationId) :
    Touch t m x (.attachControl i) (t.get x)
      (((t.invalidate m existing .replaced).1.openControl m i
        (t.invalidate m existing .replaced).2).1.get x)
      (driven x ((t.invalidate m existing .replaced).1.openControl m i
        (t.invalidate m existing .replaced).2).2) := by
  obtain ⟨hclient, hknown, hkey, hne, hreplaces⟩ := replaces_iff.mp hr
  obtain ⟨a, ha, -⟩ := h.keyed hkey
  have hgone := get_invalidate t m .replaced existing
  have hdrive := driven_invalidate h m .replaced existing
  by_cases hx : x = existing
  · subst hx
    -- the replaced activation: room is never short, so its effects are lost only to a taken id
    rw [openControl, if_neg (room_after_invalidate h m .replaced ha), ha]
    split
    · next htaken =>
      rw [hgone, if_pos rfl]
      refine .lost i a hr ?_
      rwa [hgone, if_neg (Ne.symm hne)] at htaken
    · simp only [driven_append, driven_send, driven_seatStateTo, hdrive, if_pos, ha,
        map_some, getD_some]
      have hopen := driven_openedEffects (i.opened m) x
      rw [if_neg (show ¬ (i.opened m).activationId = x from Ne.symm hne),
        openedEffects] at hopen
      have hself : i.replaces t a.activationId = true := by rw [h.ids ha]; exact hr
      rw [hopen, append_nil, append_nil]
      rw [show ({ (t.invalidate m x .replaced).1 with
          byKey := (t.invalidate m x .replaced).1.byKey.insert i.key i.activationId
          byId := (t.invalidate m x .replaced).1.byId.insert i.activationId (i.opened m) } :
            ActivationTable).get x =
            if x = i.activationId then some (i.opened m)
            else (t.invalidate m x .replaced).1.get x from
        lookup_insert _ i.activationId x (i.opened m), if_neg hne, hgone, if_pos rfl]
      exact .removed _ a hself
  · refine touch_open t i _ (fun _ hfree => ?_) x (by rw [hgone, if_neg hx])
      (by rw [hdrive, if_neg hx])
    rw [hgone, if_neg (Ne.symm hne)] at hfree
    simp [AttachControlInput.opens, hclient, hknown, hfree, hkey, hne, hreplaces]

theorem touch_attachControl (h : t.WellIndexed) (i : AttachControlInput) (x : ActivationId) :
    Touch t m x (.attachControl i) (t.get x) ((t.attachControl m i).1.get x)
      (driven x (t.attachControl m i).2) := by
  have hend := attachControl_end t h m i
  generalize t.attachControl m i = r at hend
  cases hend with
  | refused code retryable => exact touch_keep rfl rfl
  | own a ha hclient hknown hkey => exact touch_reattach i ha hclient hknown hkey x
  | free hclient hknown hkey =>
    refine touch_open t i [] (fun hroom hfree => ?_) x rfl rfl
    simp [AttachControlInput.opens, hclient, hknown, hfree, hkey, hroom]
  | replaced existing hr => exact touch_replace h i existing hr x

theorem driven_framedEffects (a : Activation) (leg : LegRef) (epoch : SceneEpoch)
    (x : ActivationId) :
    driven x (a.framedEffects leg epoch) =
      if a.activationId = x then a.framedEffects leg epoch else [] := by
  by_cases hx : a.activationId = x <;> cases hs : a.stopsPump epoch <;>
    cases hp : a.startsPump leg epoch <;>
    simp [framedEffects, driven, Effect.drives, hs, hp, hx]

theorem touch_attachFrames (h : t.WellIndexed) (i : AttachFramesInput) (x : ActivationId) :
    Touch t m x (.attachFrames i) (t.get x) ((t.attachFrames i).1.get x)
      (driven x (t.attachFrames i).2) := by
  rw [attachFrames]
  split
  · exact touch_keep rfl rfl
  · next a trf htarget =>
    have ha := framesTarget_get htarget
    have hsame := sameIndexes_resolve t i.claims.sessionId i.sessionEpoch
    have hdriven : ∀ (x : ActivationId) (e : Effect), driven x ([e] ++
        (if a.stopsPump (t.resolveSceneEpoch i.claims.sessionId i.sessionEpoch).2 then
          [.stopPump i.activationId] else []) ++
        (if a.startsPump i.leg (t.resolveSceneEpoch i.claims.sessionId i.sessionEpoch).2 then
          [.startPump i.activationId] else [])) = driven x [e] ++ driven x
          (a.framedEffects i.leg (t.resolveSceneEpoch i.claims.sessionId i.sessionEpoch).2) := by
      intro x e
      rw [append_assoc, driven_append, framedEffects, h.ids ha]
    refine touch_rewrite (b := a.framesAttached i.leg trf i.resumeToken
      (t.resolveSceneEpoch i.claims.sessionId i.sessionEpoch).2) ha (fun x => ?_)
      (fun x hx => ?_) ?_ x
    · rw [get_openAccount, get_rewritten ((hsame.get _).trans ha), hsame.get]
    · rw [hdriven, driven_send, driven_framedEffects, h.ids ha, if_neg (Ne.symm hx)]
      rfl
    · rw [hdriven, driven_send, driven_framedEffects, h.ids ha, if_pos rfl]
      exact .framed i a trf rfl htarget

theorem driven_viewed (h : t.WellIndexed) (ha : t.get y = some a) (x : ActivationId) :
    driven x (if a.frames.isSome && !a.pumpRunning then [Effect.startPump y] else [.wakePump y]) =
      if x = y then a.viewedEffects else [] := by
  have hy := h.ids ha
  by_cases hp : (a.frames.isSome && !a.pumpRunning) = true <;> by_cases hx : x = y
  · simp only [viewedEffects, hp, hx, hy, if_true, driven, Effect.drives,
      filter_cons, beq_self_eq_true, filter_nil]
  · have hx' : ¬ y = x := fun h => hx h.symm
    simp [hp, hx, hx', driven, Effect.drives]
  · simp only [viewedEffects, hp, hx, if_true]
    rfl
  · simp only [hp, hx]
    rfl

theorem get_viewAttached (t : ActivationTable) (y x : ActivationId) (v : ViewId) (epoch : Nat) :
    (t.viewAttached y v epoch).1.get x =
      if x = y then (t.get x).map (·.viewAttached v epoch) else t.get x := by
  cases hy : t.get y with
  | none =>
    simp only [viewAttached, hy]
    split
    · next hxy => rw [hxy, hy]; rfl
    · rfl
  | some a =>
    simp only [viewAttached, hy]
    rw [get_rewritten hy]
    split
    · next hxy => rw [hxy, hy]; rfl
    · rfl

theorem get_viewDetached (t : ActivationTable) (y x : ActivationId) :
    (t.viewDetached y).1.get x =
      if x = y then (t.get x).map Activation.viewDetached else t.get x := by
  cases hy : t.get y with
  | none =>
    simp only [viewDetached, hy]
    split
    · next hxy => rw [hxy, hy]; rfl
    · rfl
  | some a =>
    simp only [viewDetached, hy]
    rw [(sameIndexes_release _ _ _).get, get_rewritten hy]
    split
    · next hxy => rw [hxy, hy]; rfl
    · rfl

theorem driven_viewDetached (t : ActivationTable) (y x : ActivationId) :
    driven x (t.viewDetached y).2 = [] := by
  rw [viewDetached]
  split
  · rfl
  · exact driven_release _ _ _ _

theorem touch_viewAttached (h : t.WellIndexed) (y : ActivationId) (v : ViewId) (epoch : Nat)
    (x : ActivationId) :
    Touch t m x (.viewAttached y v epoch) (t.get x) ((t.viewAttached y v epoch).1.get x)
      (driven x (t.viewAttached y v epoch).2) := by
  rw [viewAttached]
  split
  · exact touch_keep rfl rfl
  · next a ha =>
    refine touch_rewrite ha (get_rewritten ha _) (fun x hx => ?_) ?_ x
    · rw [driven_viewed h ha, if_neg hx]
    · rw [driven_viewed h ha, if_pos rfl]
      exact .viewed v epoch a

theorem touch_viewDetached (y x : ActivationId) :
    Touch t m x (.viewDetached y) (t.get x) ((t.viewDetached y).1.get x)
      (driven x (t.viewDetached y).2) := by
  rw [viewDetached]
  split
  · exact touch_keep rfl rfl
  · next a ha =>
    refine touch_rewrite (b := a.viewDetached) ha (fun x => ?_)
      (fun x _ => driven_release _ _ _ _) ?_ x
    · rw [(sameIndexes_release _ _ _).get, get_rewritten ha]
    · rw [driven_release]
      exact .unviewed a

theorem touch_declareDemand (h : t.WellIndexed) (leg : LegRef) (msg : DeclareDemand)
    (x : ActivationId) :
    Touch t m x (.declareDemand leg msg) (t.get x) ((t.declareDemand m leg msg).1.get x)
      (driven x (t.declareDemand m leg msg).2) := by
  rw [declareDemand]
  split
  · exact touch_keep rfl rfl
  · next a hcaller =>
    have ha := verbCaller_get hcaller
    simp only
    split
    · exact touch_keep rfl rfl
    · next hseen =>
      refine touch_rewrite ha (get_rewritten ha _) (fun x hx => ?_) ?_ x
      · rw [driven_send, driven_demandEffects, h.ids ha, if_neg (Ne.symm hx)]
      · rw [driven_send, driven_demandEffects, h.ids ha, if_pos rfl]
        exact .demanded leg msg a rfl hcaller (Bool.eq_false_iff.mpr hseen)

theorem touch_requestScene (leg : LegRef) (msg : RequestScene) (nowMs : Nat) (x : ActivationId) :
    Touch t m x (.requestScene leg msg) (t.get x) ((t.requestScene leg msg nowMs).1.get x)
      (driven x (t.requestScene leg msg nowMs).2) := by
  rw [requestScene]
  split
  · exact touch_keep rfl rfl
  · next a ha =>
    split
    · exact touch_rewrite ha (get_rewritten ha _) (fun _ _ => rfl) (.repaired leg msg a) x
    · exact touch_keep rfl rfl

theorem touch_sceneApplied (leg : LegRef) (msg : SceneApplied) (x : ActivationId) :
    Touch t m x (.sceneApplied leg msg) (t.get x) ((t.sceneApplied m leg msg).1.get x)
      (driven x (t.sceneApplied m leg msg).2) := by
  rw [sceneApplied]
  split
  · exact touch_keep rfl rfl
  · next a htarget =>
    have ha := ackTarget_get htarget
    have hdriven : ∀ x, driven x (if a.statusDue (a.acknowledged m msg.appliedContent) m then
        [(a.sceneApplied m msg.appliedContent).statusSent] else []) = [] := by
      intro x
      split <;> rfl
    refine touch_rewrite ha (get_rewritten ha _) (fun x _ => hdriven x) ?_ x
    rw [hdriven]
    exact .acknowledged leg msg a rfl htarget

theorem touch_unitSent (y : ActivationId) (revision : Nat) (seed : Bool) (x : ActivationId) :
    Touch t m x (.unitSent y revision seed) (t.get x) ((t.unitSent m y revision seed).1.get x)
      (driven x (t.unitSent m y revision seed).2) := by
  cases ha : t.get y with
  | none =>
    refine touch_keep ?_ rfl
    rw [unitSent, get_modify]
    split
    · next h => rw [h, ha]; rfl
    · rfl
  | some a =>
    refine touch_rewrite (b := a.unitSent m revision seed) ha (fun x => ?_) (fun _ _ => rfl)
      (.sent revision seed a) x
    rw [unitSent, get_modify]
    split
    · next h => rw [h, ha]; rfl
    · rfl

theorem touch_presentationStopped (y x : ActivationId) :
    Touch t m x (.presentationStopped y) (t.get x)
      ((t.presentationStopped m y .overload).1.get x)
      (driven x (t.presentationStopped m y .overload).2) := by
  rw [presentationStopped]
  split
  · exact touch_keep rfl rfl
  · next a ha =>
    have hdriven : ∀ x, driven x (if a.presentation = .stopped .exited ∨
        a.presentation = .stopped .overload then []
        else [(a.presentationStopped m .overload).statusSent]) = [] := by
      intro x
      split <;> rfl
    refine touch_rewrite ha (get_rewritten ha _) (fun x _ => hdriven x) ?_ x
    rw [hdriven]
    exact .stopped a

theorem get_mapVals (t : ActivationTable) (f : ActivationId → Activation → Activation)
    (x : ActivationId) :
    ({ t with byId := t.byId.mapVals f } : ActivationTable).get x = (t.get x).map (f x) :=
  lookup_mapVals t.byId f x

theorem touch_sessionExited (s : SessionId) (x : ActivationId) :
    Touch t m x (.sessionExited s) (t.get x) ((t.sessionExited m s).1.get x)
      (driven x (t.sessionExited m s).2) := by
  rw [sessionExited, driven_map_status, get_mapVals]
  cases t.get x with
  | none => exact .kept _ _
  | some a =>
    by_cases hexit : exitsNow s a = true
    · have hs : a.sessionId = s := by
        simp only [exitsNow, Bool.and_eq_true, beq_iff_eq] at hexit
        exact hexit.1
      simp only [map_some, if_pos hexit]
      exact .exited s a hs
    · simp only [map_some, if_neg hexit]
      exact .kept _ _

theorem touch_invalidateWhere (h : t.WellIndexed) (r : Reason) (p : Activation → Bool)
    (hget : u.get x = (t.invalidateAll m r (t.idsWhere p)).1.get x)
    (hes : driven x es = driven x (t.invalidateAll m r (t.idsWhere p)).2)
    (hop : ∀ a, p a = true → op.removes t m a = true) :
    Touch t m x op (t.get x) (u.get x) (driven x es) := by
  rw [hget, hes, get_invalidateAll, driven_invalidateAll m r x _ h]
  by_cases hx : x ∈ t.idsWhere p
  · obtain ⟨a, ha, hp⟩ := (mem_idsWhere h).mp hx
    rw [if_pos hx, if_pos hx, ha]
    exact .removed op a (hop a hp)
  · rw [if_neg hx, if_neg hx]
    exact .kept op _

theorem attachDeadline_invalidate (t : ActivationTable) (m : Moment) (r : Reason)
    (x : ActivationId) : (t.invalidate m x r).1.attachDeadline = t.attachDeadline := by
  rw [invalidate]
  split
  · rfl
  · simp only [closeAccount, releaseGeometryIfHeld]
    split <;> split <;> rfl

theorem attachDeadline_invalidateAll (m : Moment) (r : Reason) :
    ∀ (ids : List ActivationId) (t : ActivationTable),
      (t.invalidateAll m r ids).1.attachDeadline = t.attachDeadline
  | [], _ => rfl
  | id :: rest, t => by
    rw [invalidateAll, attachDeadline_invalidateAll m r rest, attachDeadline_invalidate]

theorem touch_tick (h : t.WellIndexed) (x : ActivationId) :
    Touch t m x .tick (t.get x) ((t.tick m).1.get x) (driven x (t.tick m).2) := by
  have h₁ := WellIndexed.invalidateAll m .rightRevoked (t.idsWhere (grantExpired m)) h
  simp only [tick, recomputeAll, driven_append, driven_map_status, append_nil, get_mapVals]
  rw [get_invalidateAll, driven_invalidateAll m _ x _ h, driven_invalidateAll m _ x _ h₁]
  generalize hdl : (t.invalidateAll m .rightRevoked (t.idsWhere (grantExpired m))).1 = t₁ at *
  have hdeadline : t₁.attachDeadline = t.attachDeadline := by
    rw [← hdl]
    exact attachDeadline_invalidateAll m _ _ t
  by_cases hx : x ∈ t.idsWhere (grantExpired m)
  · have hnone : t₁.get x = none := by rw [← hdl, get_invalidateAll, if_pos hx]
    obtain ⟨a, ha, hp⟩ := (mem_idsWhere h).mp hx
    have hnot : x ∉ t₁.idsWhere (attachOverdue t₁.attachDeadline m) := fun hmem => by
      obtain ⟨b, hb, -⟩ := (mem_idsWhere h₁).mp hmem
      rw [hnone] at hb
      cases hb
    rw [if_pos hx, if_neg hnot, if_neg hnot, hnone, ha, append_nil]
    exact .removed _ a (by simp [Op.removes, hp])
  · have hget : t₁.get x = t.get x := by rw [← hdl, get_invalidateAll, if_neg hx]
    rw [if_neg hx, nil_append]
    by_cases hy : x ∈ t₁.idsWhere (attachOverdue t₁.attachDeadline m)
    · obtain ⟨a, ha, hp⟩ := (mem_idsWhere h₁).mp hy
      rw [if_pos hy, if_pos hy, ha, ← hget, ha]
      refine .removed _ a ?_
      rw [hdeadline] at hp
      simp [Op.removes, hp]
    · rw [if_neg hy, if_neg hy, hget]
      cases t.get x with
      | none => exact .kept _ _
      | some a => exact .recomputed a

theorem driven_claim (t : ActivationTable) (leg : LegRef) (msg : ClaimGeometry) (nowMs : Nat)
    (x : ActivationId) : driven x (t.claimGeometry leg msg nowMs).2.effects = [] := by
  rw [claimGeometry]
  split
  · rfl
  · split
    · rfl
    · split
      · rfl
      · simp only
        split
        · rfl
        · split <;> rfl

theorem driven_transfer (t : ActivationTable) (leg : LegRef) (msg : TransferGeometry)
    (nowMs : Nat) (x : ActivationId) :
    driven x (t.transferGeometry leg msg nowMs).2.effects = [] := by
  rw [transferGeometry]
  split
  · rfl
  · split
    · rfl
    · split
      · rfl
      · simp only
        split
        · rfl
        · split <;> rfl

theorem driven_commitLease (l : GeometryLease) (leg : LegRef) (proceed : GeometryProceed)
    (outcome : GeometryOutcome) (live : Bool) (x : ActivationId) :
    driven x (l.commitLease leg proceed outcome live).2 = [] := by
  unfold GeometryLease.commitLease
  split
  · rfl
  · split
    · rfl
    · split <;> rfl
    · split
      · rfl
      · split <;> rfl

theorem driven_finalize (t : ActivationTable) (leg : LegRef) (proceed : GeometryProceed)
    (outcome : GeometryOutcome) (nowMs : Nat) (x : ActivationId) :
    driven x (t.geometryFinalize leg proceed outcome nowMs).2 = [] := by
  simp only [geometryFinalize]
  split
  · exact driven_commitLease _ _ _ _ _ _
  · rw [driven_append, driven_commitLease, driven_seatAnnouncements]
    rfl

theorem driven_releaseGeometry (t : ActivationTable) (leg : LegRef) (msg : ReleaseGeometry)
    (x : ActivationId) : driven x (t.releaseGeometry leg msg).2 = [] := by
  rw [releaseGeometry]
  split
  · split
    · exact driven_seatAnnouncements _ _ _
    · rfl
  · rfl

theorem touch_apply (h : t.WellIndexed) (m : Moment) (op : Op) (x : ActivationId) :
    Touch t m x op (t.get x) ((t.apply m op).1.get x) (driven x (t.apply m op).2) := by
  cases op with
  | openCredit c epoch windows reserve => exact touch_keep rfl rfl
  | attachControl i => exact touch_attachControl h i x
  | attachFrames i => exact touch_attachFrames h i x
  | viewAttached y v epoch => exact touch_viewAttached h y v epoch x
  | viewDetached y => exact touch_viewDetached y x
  | declareDemand leg msg => exact touch_declareDemand h leg msg x
  | requestScene leg msg => exact touch_requestScene leg msg _ x
  | sceneApplied leg msg => exact touch_sceneApplied leg msg x
  | unitSent y revision seed => exact touch_unitSent y revision seed x
  | presentationStopped y => exact touch_presentationStopped y x
  | sessionExited s => exact touch_sessionExited s x
  | sessionRemoved s =>
    exact touch_invalidateWhere h .removed _ rfl rfl fun _ hp => hp
  | creditReturned c credit =>
    simp only [apply, creditReturned]
    split
    · exact touch_keep rfl rfl
    · exact touch_keep rfl (driven_map_wake _ _)
  | tryAdmit c y bytes cls =>
    simp only [apply, tryAdmit]
    split <;> exact touch_keep rfl rfl
  | canAdmit c y bytes cls =>
    simp only [apply, canAdmit]
    split <;> exact touch_keep rfl rfl
  | claimGeometry leg msg =>
    exact touch_keep ((WellIndexed.sameIndexes_claim t leg msg _).get x) (driven_claim _ _ _ _ _)
  | transferGeometry leg msg =>
    exact touch_keep ((WellIndexed.sameIndexes_transfer t leg msg _).get x)
      (driven_transfer _ _ _ _ _)
  | geometryFinalize leg proceed outcome =>
    exact touch_keep ((WellIndexed.sameIndexes_finalize t leg _ _ _).get x)
      (driven_finalize _ _ _ _ _ _)
  | releaseGeometry leg msg =>
    exact touch_keep ((WellIndexed.sameIndexes_releaseGeometry t leg msg).get x)
      (driven_releaseGeometry _ _ _ _)
  | legClosed c => exact touch_invalidateWhere h .legDead _ rfl rfl fun _ hp => hp
  | revokeClient c => exact touch_invalidateWhere h .rightRevoked _ rfl rfl fun _ hp => hp
  | tick => exact touch_tick h x
  | pruneModelGenerations live => exact touch_keep rfl rfl

end ActivationTable
end VibeField.Tp
