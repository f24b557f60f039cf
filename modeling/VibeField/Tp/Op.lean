import VibeField.Base.Machine
import VibeField.Tp.Lease

/-!
# The operations and the indexes

Every call the door makes on the table is one `Op`, and `apply` performs it.  The
two indexes agree in every reachable table: a record is stored under its own id,
its key names it, and every key names a record of that key.
-/

namespace VibeField.Tp

open Option Dict

inductive Op where
  | openCredit (connectionId : ConnectionId) (creditEpoch : Nat) (windows : ReceiverCapacities)
      (urgentReserve : Nat)
  | attachControl (input : AttachControlInput)
  | attachFrames (input : AttachFramesInput)
  | viewAttached (activationId : ActivationId) (viewId : ViewId) (epoch : Nat)
  | viewDetached (activationId : ActivationId)
  | declareDemand (leg : LegRef) (msg : DeclareDemand)
  | requestScene (leg : LegRef) (msg : RequestScene)
  | sceneApplied (leg : LegRef) (msg : SceneApplied)
  | unitSent (activationId : ActivationId) (revision : Nat) (seed : Bool)
  /-- the pump reports an overload stop, the one stop it reports -/
  | presentationStopped (activationId : ActivationId)
  | sessionExited (sessionId : SessionId)
  | sessionRemoved (sessionId : SessionId)
  | creditReturned (connectionId : ConnectionId) (credit : TransportCredit)
  | tryAdmit (connectionId : ConnectionId) (activationId : ActivationId) (bytes : Nat)
      (cls : UnitClass)
  | canAdmit (connectionId : ConnectionId) (activationId : ActivationId) (bytes : Nat)
      (cls : UnitClass)
  | claimGeometry (leg : LegRef) (msg : ClaimGeometry)
  | transferGeometry (leg : LegRef) (msg : TransferGeometry)
  | geometryFinalize (leg : LegRef) (proceed : GeometryProceed) (outcome : GeometryOutcome)
  | releaseGeometry (leg : LegRef) (msg : ReleaseGeometry)
  | legClosed (connectionId : ConnectionId)
  | revokeClient (clientId : ClientId)
  | tick
  | pruneModelGenerations (sessionIsLive : SessionId → Bool)

def GeometryDecision.effects : GeometryDecision → List Effect
  | .refuse effects => effects
  | .proceed _ => []

def AttachControlInput.replaces (t : ActivationTable) (i : AttachControlInput)
    (existing : ActivationId) : Bool :=
  i.claims.clientId == i.set.clientId && i.sessionKnown &&
    t.byKey.lookup i.key == some existing && existing != i.activationId &&
    i.msg.replacesActivationId == some existing

def AttachControlInput.opens (t : ActivationTable) (i : AttachControlInput) : Bool :=
  i.claims.clientId == i.set.clientId && i.sessionKnown && (t.get i.activationId).isNone &&
    match t.byKey.lookup i.key with
    | none => decide (t.byId.len < t.maxActivations)
    | some existing => existing != i.activationId && i.msg.replacesActivationId == some existing

namespace ActivationTable

def apply (t : ActivationTable) (m : Moment) : Op → ActivationTable × List Effect
  | .openCredit c epoch windows reserve => (t.openCredit c epoch windows reserve, [])
  | .attachControl i => t.attachControl m i
  | .attachFrames i => t.attachFrames i
  | .viewAttached x v epoch => t.viewAttached x v epoch
  | .viewDetached x => t.viewDetached x
  | .declareDemand leg msg => t.declareDemand m leg msg
  | .requestScene leg msg => t.requestScene leg msg m.nowMs
  | .sceneApplied leg msg => t.sceneApplied m leg msg
  | .unitSent x revision seed => t.unitSent m x revision seed
  | .presentationStopped x => t.presentationStopped m x .overload
  | .sessionExited s => t.sessionExited m s
  | .sessionRemoved s => t.sessionRemoved m s
  | .creditReturned c credit => t.creditReturned c credit
  | .tryAdmit c x bytes cls => ((t.tryAdmit c x bytes cls).1, [])
  | .canAdmit c x bytes cls => ((t.canAdmit c x bytes cls).1, [])
  | .claimGeometry leg msg =>
    let d := t.claimGeometry leg msg m.nowMs
    (d.1, d.2.effects)
  | .transferGeometry leg msg =>
    let d := t.transferGeometry leg msg m.nowMs
    (d.1, d.2.effects)
  | .geometryFinalize leg proceed outcome => t.geometryFinalize leg proceed outcome m.nowMs
  | .releaseGeometry leg msg => t.releaseGeometry leg msg
  | .legClosed c => t.legClosed m c
  | .revokeClient c => t.revokeClient m c
  | .tick => t.tick m
  | .pruneModelGenerations live => (t.pruneModelGenerations live, [])

def machine (cellBootId : String) : Machine ActivationTable (Moment × Op) where
  start := .new cellBootId
  next t e := some (t.apply e.1 e.2).1

/-! ## What a lookup reads after each part -/

variable (t : ActivationTable)

theorem get_modify (x y : ActivationId) (f : Activation → Activation) :
    (t.modify y f).get x = if x = y then (t.get x).map f else t.get x :=
  lookup_modify t.byId y x f

@[simp]
theorem get_openAccount (c : ConnectionId) (y x : ActivationId) :
    (t.openAccount c y).get x = t.get x := rfl

theorem get_forget (a : Activation) (y x : ActivationId) :
    (t.forget a y).get x = if x = y then none else t.get x :=
  lookup_erase t.byId y x

/-- The parts an operation may move while both indexes stand. -/
structure SameIndexes (t u : ActivationTable) : Prop where
  byId : u.byId = t.byId
  byKey : u.byKey = t.byKey
  maxActivations : u.maxActivations = t.maxActivations

namespace SameIndexes

variable {t u v : ActivationTable}

theorem refl (t : ActivationTable) : SameIndexes t t := ⟨rfl, rfl, rfl⟩

theorem trans (h : SameIndexes t u) (k : SameIndexes u v) : SameIndexes t v :=
  ⟨k.byId.trans h.byId, k.byKey.trans h.byKey, k.maxActivations.trans h.maxActivations⟩

theorem get (h : SameIndexes t u) (x : ActivationId) : u.get x = t.get x := by
  rw [ActivationTable.get, h.byId, ActivationTable.get]

end SameIndexes

theorem sameIndexes_release (s : SessionId) (x : ActivationId) :
    SameIndexes t (t.releaseGeometryIfHeld s x).1 := by
  rw [releaseGeometryIfHeld]
  split
  · exact ⟨rfl, rfl, rfl⟩
  · exact .refl t

theorem sameIndexes_closeAccount (a : Activation) : SameIndexes t (t.closeAccount a) := by
  rw [closeAccount]
  split
  · exact .refl t
  · exact ⟨rfl, rfl, rfl⟩

theorem sameIndexes_resolve (s : SessionId) (epoch : Nat) :
    SameIndexes t (t.resolveSceneEpoch s epoch).1 := by
  rw [resolveSceneEpoch]
  split
  · exact .refl t
  · exact ⟨rfl, rfl, rfl⟩

variable {a : Activation} {x : ActivationId}

theorem sameIndexes_invalidate (m : Moment) (r : Reason)
    (ha : t.get x = some a) : SameIndexes (t.forget a x) (t.invalidate m x r).1 := by
  simp only [invalidate, ha]
  exact (sameIndexes_release _ _ _).trans (sameIndexes_closeAccount _ _)

theorem invalidate_none (m : Moment) (r : Reason) (h : t.get x = none) :
    t.invalidate m x r = (t, []) := by
  simp only [invalidate, h]

theorem get_invalidate (m : Moment) (r : Reason) (y x : ActivationId) :
    (t.invalidate m y r).1.get x = if x = y then none else t.get x := by
  cases hy : t.get y with
  | none =>
    rw [invalidate_none t m r hy]
    by_cases hxy : x = y
    · rw [if_pos hxy, hxy, hy]
    · rw [if_neg hxy]
  | some a => rw [(sameIndexes_invalidate t m r hy).get, get_forget]

theorem get_invalidateAll (m : Moment) (r : Reason) (x : ActivationId) :
    ∀ (ids : List ActivationId) (t : ActivationTable),
      (t.invalidateAll m r ids).1.get x = if x ∈ ids then none else t.get x
  | [], t => by simp [invalidateAll]
  | id :: rest, t => by
    rw [invalidateAll, get_invalidateAll m r x rest, get_invalidate]
    by_cases hrest : x ∈ rest
    · simp [hrest]
    · by_cases hid : x = id
      · simp [hid]
      · simp [hrest, hid]

theorem verbCaller_get {t : ActivationTable} {leg : LegRef} {s : SessionId}
    (h : t.verbCaller leg x s = some a) : t.get x = some a :=
  (filter_eq_some_iff.mp h).1

theorem ackTarget_get {t : ActivationTable} {leg : LegRef} {msg : SceneApplied}
    (h : t.ackTarget leg msg = some a) : t.get msg.activationId = some a :=
  (filter_eq_some_iff.mp h).1

theorem framesTarget_get {t : ActivationTable} {i : AttachFramesInput}
    {trf : TrfIdentity} (h : t.framesTarget i = .ok (a, trf)) :
    t.get i.activationId = some a := by
  rw [framesTarget] at h
  split at h
  · cases h
  · split at h
    · cases h
    · next b hb =>
      split at h
      · cases h
      · split at h
        · cases h
        · split at h
          · cases h
          · cases h
            exact hb

/-! ## The indexes agree -/

/-- What an operation never rewrites in a record. -/
structure SameIdentity (a b : Activation) : Prop where
  activationId : b.activationId = a.activationId
  clientId : b.clientId = a.clientId
  connectionSetId : b.connectionSetId = a.connectionSetId
  sessionId : b.sessionId = a.sessionId

structure WellIndexed (t : ActivationTable) : Prop where
  ids : ∀ {x a}, t.get x = some a → a.activationId = x
  keys : ∀ {x a}, t.get x = some a → t.byKey.lookup (a.clientId, a.sessionId) = some x
  keyed : ∀ {k x}, t.byKey.lookup k = some x →
    ∃ a, t.get x = some a ∧ (a.clientId, a.sessionId) = k
  size : t.byId.len ≤ t.maxActivations

/-- The ways a control attach ends: refused with nothing done, on its own
activation, opening one under a free key, or replacing one. -/
inductive AttachEnd (t : ActivationTable) (m : Moment) (i : AttachControlInput) :
    ActivationTable × List Effect → Prop
  | refused (code : String) (retryable : Bool) : AttachEnd t m i (t, [i.refused code retryable])
  | own (a : Activation) (ha : t.get i.activationId = some a)
      (hclient : i.claims.clientId = i.set.clientId) (hknown : i.sessionKnown = true)
      (hkey : i.key = (a.clientId, a.sessionId)) : AttachEnd t m i (t.reattachControl m i a)
  | free (hclient : i.claims.clientId = i.set.clientId) (hknown : i.sessionKnown = true)
      (hkey : t.byKey.lookup i.key = none) : AttachEnd t m i (t.openControl m i [])
  | replaced (existing : ActivationId) (hr : i.replaces t existing = true) :
      AttachEnd t m i ((t.invalidate m existing .replaced).1.openControl m i
        (t.invalidate m existing .replaced).2)

theorem attachControl_end (h : t.WellIndexed) (m : Moment) (i : AttachControlInput) :
    AttachEnd t m i (t.attachControl m i) := by
  rw [attachControl]
  split
  · exact .refused _ _
  · next hclient =>
    have hclient := not_not.mp hclient
    split
    · exact .refused _ _
    · next hknown =>
      have hknown : i.sessionKnown = true := by simpa using hknown
      split
      · next hkey => exact .free hclient hknown hkey
      · next existing hkey =>
        split
        · next hsame =>
          subst hsame
          obtain ⟨a, ha, hak⟩ := h.keyed hkey
          rw [ha]
          exact .own a ha hclient hknown hak.symm
        · next hne =>
          split
          · next hreplaces =>
            refine .replaced existing ?_
            simp [AttachControlInput.replaces, hclient, hknown, hkey, hne, hreplaces]
          · exact .refused _ _

/-- What a replacement knows of the activation it replaces. -/
structure Replacing (t : ActivationTable) (i : AttachControlInput) (existing : ActivationId) :
    Prop where
  client : i.claims.clientId = i.set.clientId
  known : i.sessionKnown = true
  key : t.byKey.lookup i.key = some existing
  ne : existing ≠ i.activationId
  names : i.msg.replacesActivationId = some existing

theorem replaces_iff {t : ActivationTable} {i : AttachControlInput} {existing : ActivationId} :
    i.replaces t existing = true ↔ Replacing t i existing := by
  simp only [AttachControlInput.replaces, Bool.and_eq_true, beq_iff_eq, bne_iff_ne]
  constructor
  · intro h
    obtain ⟨⟨⟨⟨hclient, hknown⟩, hkey⟩, hne⟩, hnames⟩ := h
    exact ⟨hclient, hknown, hkey, hne, hnames⟩
  · intro h
    exact ⟨⟨⟨⟨h.client, h.known⟩, h.key⟩, h.ne⟩, h.names⟩

namespace SameIdentity

theorem rfl' (a : Activation) : SameIdentity a a := ⟨rfl, rfl, rfl, rfl⟩

theorem reattached (a : Activation) (m : Moment) (leg : LegRef) (claims : AttachClaims) :
    SameIdentity a (a.reattached m leg claims) := by
  rw [Activation.reattached]
  split <;> exact ⟨rfl, rfl, rfl, rfl⟩

theorem framesAttached (a : Activation) (leg : LegRef) (trf : TrfIdentity) (token : String)
    (epoch : SceneEpoch) : SameIdentity a (a.framesAttached leg trf token epoch) :=
  ⟨rfl, rfl, rfl, rfl⟩

theorem viewDetached (a : Activation) : SameIdentity a a.viewDetached := ⟨rfl, rfl, rfl, rfl⟩

theorem demanded (a : Activation) (m : Moment) (msg : DeclareDemand) :
    SameIdentity a (a.demanded m msg) := by
  rw [Activation.demanded]
  split <;> exact ⟨rfl, rfl, rfl, rfl⟩

theorem sceneApplied (a : Activation) (m : Moment) (content : SceneContentStamp) :
    SameIdentity a (a.sceneApplied m content) := by
  simp only [Activation.sceneApplied]
  split <;> exact ⟨rfl, rfl, rfl, rfl⟩

theorem presentationStopped (a : Activation) (m : Moment) (reason : Reason) :
    SameIdentity a (a.presentationStopped m reason) := by
  rw [Activation.presentationStopped]
  split
  · exact rfl' a
  · split <;> exact ⟨rfl, rfl, rfl, rfl⟩

theorem sessionExited (a : Activation) (m : Moment) : SameIdentity a (a.sessionExited m) := by
  rw [Activation.sessionExited]
  split
  · exact rfl' a
  · exact ⟨rfl, rfl, rfl, rfl⟩

theorem recomputed (a : Activation) (m : Moment) : SameIdentity a (recomputed m a) := by
  rw [ActivationTable.recomputed]
  split <;> exact ⟨rfl, rfl, rfl, rfl⟩

end SameIdentity

/-- The records are rewritten in place, identities kept, and the indexes stand. -/
structure Rewrites (t u : ActivationTable) : Prop where
  byKey : u.byKey = t.byKey
  maxActivations : u.maxActivations = t.maxActivations
  len : u.byId.len = t.byId.len
  present : ∀ {x a}, t.get x = some a → ∃ b, u.get x = some b ∧ SameIdentity a b
  absent : ∀ {x}, t.get x = none → u.get x = none

namespace Rewrites

variable {t u v : ActivationTable}

theorem of_same (h : SameIndexes t u) : Rewrites t u where
  __ := h
  len := by rw [h.byId]
  present {x a} hx := ⟨a, (h.get x).trans hx, .rfl' a⟩
  absent {x} hx := (h.get x).trans hx

theorem modify {x : ActivationId} {a b : Activation} (ha : t.get x = some a)
    (hab : SameIdentity a b) : Rewrites t (t.modify x fun _ => b) where
  byKey := rfl
  maxActivations := rfl
  len := len_modify t.byId x _
  present {y c} hy := by
    rw [get_modify]
    by_cases hyx : y = x
    · subst hyx
      rw [if_pos rfl, ha]
      obtain rfl : a = c := some.inj (ha.symm.trans hy)
      exact ⟨b, rfl, hab⟩
    · rw [if_neg hyx]
      exact ⟨c, hy, .rfl' c⟩
  absent {y} hy := by
    rw [get_modify, hy]
    split <;> rfl

theorem mapVals (f : ActivationId → Activation → Activation) (hf : ∀ x a, SameIdentity a (f x a)) :
    Rewrites t { t with byId := t.byId.mapVals f } where
  byKey := rfl
  maxActivations := rfl
  len := len_mapVals t.byId f
  present {x a} hx := by
    refine ⟨f x a, ?_, hf x a⟩
    rw [get, lookup_mapVals, show t.byId.lookup x = some a from hx]
    rfl
  absent {x} hx := by
    rw [get, lookup_mapVals, show t.byId.lookup x = none from hx]
    rfl

end Rewrites

namespace WellIndexed

variable {t u : ActivationTable}

theorem new (cellBootId : String) : WellIndexed (.new cellBootId) where
  ids h := by cases h
  keys h := by cases h
  keyed h := by cases h
  size := Nat.zero_le _

theorem rewrites (h : WellIndexed t) (k : Rewrites t u) : WellIndexed u := by
  -- a record of `u` is the rewriting of one of `t`
  have back : ∀ {x b}, u.get x = some b → ∃ a, t.get x = some a ∧ SameIdentity a b := by
    intro x b hb
    cases hx : t.get x with
    | none => rw [k.absent hx] at hb; cases hb
    | some a =>
      obtain ⟨b', hb', hab⟩ := k.present hx
      obtain rfl : b' = b := some.inj (hb'.symm.trans hb)
      exact ⟨a, rfl, hab⟩
  refine ⟨fun {x b} hb => ?_, fun {x b} hb => ?_, fun {key x} hk => ?_, ?_⟩
  · obtain ⟨a, ha, hab⟩ := back hb
    rw [hab.activationId, h.ids ha]
  · obtain ⟨a, ha, hab⟩ := back hb
    rw [hab.clientId, hab.sessionId, k.byKey, h.keys ha]
  · rw [k.byKey] at hk
    obtain ⟨a, ha, hkey⟩ := h.keyed hk
    obtain ⟨b, hb, hab⟩ := k.present ha
    exact ⟨b, hb, by rw [hab.clientId, hab.sessionId, hkey]⟩
  · rw [k.len, k.maxActivations]
    exact h.size

theorem same (h : WellIndexed t) (k : SameIndexes t u) : WellIndexed u :=
  h.rewrites (.of_same k)

theorem forget (h : WellIndexed t) {x : ActivationId} {a : Activation} (ha : t.get x = some a) :
    WellIndexed (t.forget a x) where
  ids {y b} hb := by
    rw [get_forget] at hb
    split at hb
    · cases hb
    · exact h.ids hb
  keys {y b} hb := by
    rw [get_forget] at hb
    split at hb
    · cases hb
    · next hyx =>
      rw [ActivationTable.forget, lookup_erase, h.keys hb, if_neg]
      -- one key cannot name both `y` and `x`
      intro hkey
      have hx := h.keys ha
      rw [← hkey, h.keys hb] at hx
      exact hyx (some.inj hx)
  keyed {k y} hk := by
    rw [ActivationTable.forget, lookup_erase] at hk
    split at hk
    · cases hk
    · next hne =>
      obtain ⟨b, hb, hkey⟩ := h.keyed hk
      refine ⟨b, ?_, hkey⟩
      rw [get_forget, if_neg]
      · exact hb
      · rintro rfl
        obtain rfl : a = b := some.inj (ha.symm.trans hb)
        exact hne hkey.symm
  size := Nat.le_trans (len_erase_le t.byId x) h.size

theorem invalidate (h : WellIndexed t) (m : Moment) (x : ActivationId) (r : Reason) :
    WellIndexed (t.invalidate m x r).1 := by
  cases hx : t.get x with
  | none => rw [invalidate_none t m r hx]; exact h
  | some a => exact (h.forget hx).same (sameIndexes_invalidate t m r hx)

theorem invalidateAll (m : Moment) (r : Reason) :
    ∀ (ids : List ActivationId) {t : ActivationTable}, WellIndexed t →
      WellIndexed (t.invalidateAll m r ids).1
  | [], _, h => h
  | id :: rest, _, h => invalidateAll m r rest (h.invalidate m id r)

theorem openControl (h : WellIndexed t) (m : Moment) (i : AttachControlInput)
    (es : List Effect) (hkey : t.byKey.lookup i.key = none) :
    WellIndexed (t.openControl m i es).1 := by
  rw [ActivationTable.openControl]
  split
  · exact h
  · next hlen =>
    split
    · exact h
    · next hid =>
      have hnone : t.get i.activationId = none := by simpa using hid
      have hget : ∀ y, ({ t with
          byKey := t.byKey.insert i.key i.activationId
          byId := t.byId.insert i.activationId (i.opened m) } : ActivationTable).get y =
            if y = i.activationId then some (i.opened m) else t.get y :=
        fun y => lookup_insert t.byId i.activationId y (i.opened m)
      refine ⟨fun {y b} hb => ?_, fun {y b} hb => ?_, fun {k y} hk => ?_, ?_⟩
      · rw [hget] at hb
        split at hb
        · next hy => cases hb; exact hy.symm
        · exact h.ids hb
      · rw [hget] at hb
        rw [lookup_insert]
        split at hb
        · next hy => cases hb; exact (if_pos rfl).trans (congrArg some hy.symm)
        · rw [if_neg, h.keys hb]
          intro hk
          rw [← hk, h.keys hb] at hkey
          cases hkey
      · rw [lookup_insert] at hk
        split at hk
        · next hk' =>
          cases hk
          exact ⟨i.opened m, by rw [hget, if_pos rfl], hk'.symm⟩
        · obtain ⟨b, hb, hbk⟩ := h.keyed hk
          refine ⟨b, ?_, hbk⟩
          rw [hget, if_neg]
          · exact hb
          · rintro rfl
            rw [hnone] at hb
            cases hb
      · have hlen' : t.byId.len + 1 ≤ t.maxActivations := by omega
        rw [show (t.byId.insert i.activationId (i.opened m)).len = t.byId.len + 1 from
          len_insert hnone (i.opened m)]
        exact hlen'

theorem attachControl (h : WellIndexed t) (m : Moment) (i : AttachControlInput) :
    WellIndexed (t.attachControl m i).1 := by
  have hend := attachControl_end t h m i
  generalize t.attachControl m i = r at hend
  cases hend with
  | refused code retryable => exact h
  | own a ha _ _ _ =>
    simp only [reattachControl]
    split
    · exact h
    · have hr := h.rewrites (.modify ha (.reattached a m i.leg i.claims))
      split
      · exact hr.same (sameIndexes_release _ _ _)
      · exact hr
  | free _ _ hkey => exact h.openControl m i [] hkey
  | replaced existing hr =>
    obtain ⟨a, ha, hak⟩ := h.keyed (replaces_iff.mp hr).key
    refine (h.invalidate m existing .replaced).openControl m i _ ?_
    rw [(sameIndexes_invalidate t m .replaced ha).byKey, ActivationTable.forget,
      lookup_erase, if_pos hak.symm]

theorem attachFrames (h : WellIndexed t) (i : AttachFramesInput) :
    WellIndexed (t.attachFrames i).1 := by
  rw [ActivationTable.attachFrames]
  split
  · exact h
  · next a trf htarget =>
    have ha : t.get i.activationId = some a := framesTarget_get htarget
    have hsame := sameIndexes_resolve t i.claims.sessionId i.sessionEpoch
    exact ((h.same hsame).rewrites (.modify ((hsame.get _).trans ha)
      (.framesAttached a i.leg trf i.resumeToken _))).same ⟨rfl, rfl, rfl⟩

theorem viewDetached (h : WellIndexed t) (x : ActivationId) :
    WellIndexed (t.viewDetached x).1 := by
  rw [ActivationTable.viewDetached]
  split
  · exact h
  · next a ha =>
    exact (h.rewrites (.modify ha (.viewDetached a))).same (sameIndexes_release _ _ _)

theorem sameIndexes_claim (t : ActivationTable) (leg : LegRef) (msg : ClaimGeometry)
    (nowMs : Nat) : SameIndexes t (t.claimGeometry leg msg nowMs).1 := by
  rw [claimGeometry]
  split
  · exact .refl t
  · split
    · exact .refl t
    · split
      · exact .refl t
      · simp only
        split
        · exact ⟨rfl, rfl, rfl⟩
        · split <;> exact ⟨rfl, rfl, rfl⟩

theorem sameIndexes_transfer (t : ActivationTable) (leg : LegRef) (msg : TransferGeometry)
    (nowMs : Nat) : SameIndexes t (t.transferGeometry leg msg nowMs).1 := by
  rw [transferGeometry]
  split
  · exact .refl t
  · split
    · exact .refl t
    · split
      · exact .refl t
      · simp only
        split
        · exact ⟨rfl, rfl, rfl⟩
        · split <;> exact ⟨rfl, rfl, rfl⟩

theorem sameIndexes_finalize (t : ActivationTable) (leg : LegRef) (proceed : GeometryProceed)
    (outcome : GeometryOutcome) (nowMs : Nat) :
    SameIndexes t (t.geometryFinalize leg proceed outcome nowMs).1 := by
  simp only [geometryFinalize]
  split <;> exact ⟨rfl, rfl, rfl⟩

theorem sameIndexes_releaseGeometry (t : ActivationTable) (leg : LegRef) (msg : ReleaseGeometry) :
    SameIndexes t (t.releaseGeometry leg msg).1 := by
  rw [releaseGeometry]
  split
  · split
    · exact ⟨rfl, rfl, rfl⟩
    · exact .refl t
  · exact .refl t

theorem apply (h : WellIndexed t) (m : Moment) (op : Op) : WellIndexed (t.apply m op).1 := by
  cases op with
  | openCredit c epoch windows reserve => exact h.same ⟨rfl, rfl, rfl⟩
  | attachControl i => exact h.attachControl m i
  | attachFrames i => exact h.attachFrames i
  | viewAttached x v epoch =>
    simp only [ActivationTable.apply, ActivationTable.viewAttached]
    split
    · exact h
    · next ha => exact h.rewrites (.modify ha ⟨rfl, rfl, rfl, rfl⟩)
  | viewDetached x => exact h.viewDetached x
  | declareDemand leg msg =>
    simp only [ActivationTable.apply, ActivationTable.declareDemand]
    split
    · exact h
    · next a ha =>
      split
      · exact h
      · exact h.rewrites (.modify (verbCaller_get ha) (.demanded a m msg))
  | requestScene leg msg =>
    simp only [ActivationTable.apply, ActivationTable.requestScene]
    split
    · exact h
    · next ha =>
      split
      · exact h.rewrites (.modify ha ⟨rfl, rfl, rfl, rfl⟩)
      · exact h
  | sceneApplied leg msg =>
    simp only [ActivationTable.apply, ActivationTable.sceneApplied]
    split
    · exact h
    · next a ha => exact h.rewrites (.modify (ackTarget_get ha) (.sceneApplied a m _))
  | unitSent x revision seed =>
    exact h.rewrites (.mapVals _ fun y a => by split <;> exact ⟨rfl, rfl, rfl, rfl⟩)
  | presentationStopped x =>
    simp only [ActivationTable.apply, ActivationTable.presentationStopped]
    split
    · exact h
    · next a ha => exact h.rewrites (.modify ha (.presentationStopped a m _))
  | sessionExited s =>
    refine h.rewrites (.mapVals _ fun y a => ?_)
    split
    · exact .sessionExited a m
    · exact .rfl' a
  | sessionRemoved s => exact invalidateAll m _ _ h
  | creditReturned c credit =>
    simp only [ActivationTable.apply, ActivationTable.creditReturned]
    split
    · exact h
    · exact h.same ⟨rfl, rfl, rfl⟩
  | tryAdmit c x bytes cls =>
    simp only [ActivationTable.apply, ActivationTable.tryAdmit]
    split
    · exact h
    · exact h.same ⟨rfl, rfl, rfl⟩
  | canAdmit c x bytes cls =>
    simp only [ActivationTable.apply, ActivationTable.canAdmit]
    split
    · exact h
    · exact h.same ⟨rfl, rfl, rfl⟩
  | claimGeometry leg msg => exact h.same (sameIndexes_claim t leg msg _)
  | transferGeometry leg msg => exact h.same (sameIndexes_transfer t leg msg _)
  | geometryFinalize leg proceed outcome => exact h.same (sameIndexes_finalize t leg _ _ _)
  | releaseGeometry leg msg => exact h.same (sameIndexes_releaseGeometry t leg msg)
  | legClosed c => exact (invalidateAll m _ _ h).same ⟨rfl, rfl, rfl⟩
  | revokeClient c => exact invalidateAll m _ _ h
  | tick =>
    exact (invalidateAll m _ _ (invalidateAll m _ _ h)).rewrites
      (.mapVals _ fun _ a => .recomputed a m)
  | pruneModelGenerations live => exact h.same ⟨rfl, rfl, rfl⟩

theorem reachable {cellBootId : String} (h : (machine cellBootId).Reachable t) :
    WellIndexed t := by
  refine Machine.Reachable.invariant (.new cellBootId) (fun s e s' hs hnext => ?_) h
  obtain rfl : (s.apply e.1 e.2).1 = s' := some.inj hnext
  exact hs.apply e.1 e.2

end WellIndexed

end ActivationTable

/-! ## A small cell

One client with read, input and geometry rights, on numbered legs of one
connection set. -/

namespace Sample

def moment : Moment where
  nowMs := 1000
  instant := 0
  outClosed := fun _ => false

def set : SetIdentity where
  clientId := "win:1"
  connectionSetId := "set"

def leg (connectionId : ConnectionId) : LegRef where
  connectionId := connectionId
  legGeneration := 1
  geometryEvents := false

def claims (sessionId : SessionId) : AttachClaims where
  clientId := "win:1"
  sessionId := sessionId
  leaseEpoch := none
  grantGeneration := 1
  rights := [.read, .input, .geometry]
  expiresAt := 600000
  face := none

def attach (connectionId : ConnectionId) (sessionId : SessionId) (activationId : ActivationId)
    (replaces : Option ActivationId) : AttachControlInput where
  set := set
  leg := leg connectionId
  msg :=
    { activationId := activationId, replacesActivationId := replaces, initialDemand := .live }
  claims := claims sessionId
  sessionKnown := true

def windows : ReceiverCapacities where
  connectionCreditBytes := 1048576
  perActivationCreditBytes := 262144
  maxConcurrentSeeds := 2

def trf : TrfIdentity where
  sessionHandle := "session"
  viewHandle := "view"

def attachFrames (connectionId : ConnectionId) (sessionId : SessionId)
    (activationId : ActivationId) (epoch : Nat) : AttachFramesInput where
  set := set
  leg := leg connectionId
  msg := { activationId := activationId, resume := none }
  claims := claims sessionId
  trfIdentity := some trf
  resumeToken := "token"
  sessionEpoch := epoch

def presents : List (Moment × Op) :=
  [(moment, .attachControl (attach 1 "s1" "a" none)),
    (moment, .attachFrames (attachFrames 2 "s1" "a" 1)),
    (moment, .viewAttached "a" "a" 1),
    (moment, .unitSent "a" 1 true),
    (moment, .sceneApplied (leg 2)
      { sessionId := "s1"
        activationId := "a"
        appliedContent :=
          { sceneEpoch := { cellBootId := "boot", modelGeneration := 1 }, sceneRevision := 1 } })]

end Sample
end VibeField.Tp
