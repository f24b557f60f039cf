import VibeField.Tp.Allowed

/-!
# Presenting on the current lineage

Revisions restart with every lineage, so an activation presents what the worker holds
only if the worker applied, under the activation's current scene epoch, a revision at or
past the seed or the recovery unit of that lineage.

A run keeps beside the table what was sent and what was applied for each activation.
The table itself compares revisions alone: it keeps the seed revision and the
presentation through a change of lineage, and any acknowledgement that is high enough
turns the lease.  The property holds along the runs where no such comparison crosses a
lineage.
-/

namespace VibeField.Tp

open Option Activation

/-- The stamp is at or past the other, in one lineage. -/
def SceneContentStamp.AtOrPast (stamp unit : SceneContentStamp) : Prop :=
  compareSceneContent stamp unit = some .eq ∨ compareSceneContent stamp unit = some .gt

instance (stamp unit : SceneContentStamp) : Decidable (stamp.AtOrPast unit) := by
  unfold SceneContentStamp.AtOrPast
  infer_instance

theorem SceneContentStamp.atOrPast_iff {stamp unit : SceneContentStamp} :
    stamp.AtOrPast unit ↔
      stamp.sceneEpoch = unit.sceneEpoch ∧ unit.sceneRevision ≤ stamp.sceneRevision := by
  obtain ⟨⟨boot, generation⟩, revision⟩ := stamp
  obtain ⟨⟨boot', generation'⟩, revision'⟩ := unit
  unfold AtOrPast compareSceneContent
  simp only [SceneEpoch.mk.injEq]
  split
  · next hother =>
    constructor
    · rintro (h | h) <;> cases h
    · rintro ⟨⟨rfl, rfl⟩, -⟩
      simp at hother
  · next hsame =>
    rw [not_or, not_not, not_not] at hsame
    split
    · next heq =>
      have hle : revision' ≤ revision := Nat.le_of_eq heq.symm
      simp [hsame, hle]
    · next hne =>
      split
      · next hlt =>
        have hnot : ¬ revision' ≤ revision := Nat.not_le_of_lt hlt
        simp [hnot]
      · next hge =>
        have hle : revision' ≤ revision := Nat.le_of_not_lt hge
        simp [hsame, hle]

/-- What was sent and applied for one activation since it opened. -/
structure Seen where
  /-- The seed units, and the first unit after each overload stop. -/
  units : List SceneContentStamp
  /-- The content of every acknowledgement taken in. -/
  applied : List SceneContentStamp
  /-- The lineage of the unit whose revision is the seed revision. -/
  seedOf : Option SceneEpoch
  /-- The lineage of the unit whose revision is the resume revision. -/
  resumeOf : Option SceneEpoch
  deriving DecidableEq, Repr

/-- A table call.  The pump knows the lineage of the unit it reports, the table does
not. -/
structure SceneCall where
  moment : Moment
  op : Op
  lineage : SceneEpoch

def Activation.recoversBy (a : Activation) : Bool :=
  a.presentation = .stopped .overload && a.resumeRevision.isNone

namespace Seen

def none : Seen where
  units := []
  applied := []
  seedOf := .none
  resumeOf := .none

def sent (seen : Seen) (a : Activation) (unit : SceneContentStamp) (seed : Bool) : Seen :=
  { seen with
    units := if seed || a.recoversBy then unit :: seen.units else seen.units
    seedOf := if seed && a.seedRevision.isNone then some unit.sceneEpoch else seen.seedOf
    resumeOf := if a.recoversBy then some unit.sceneEpoch else seen.resumeOf }

def after (seen : Seen) (t : ActivationTable) (x : ActivationId) (e : SceneCall) : Seen :=
  match e.op with
  | .unitSent y revision seed =>
    match (t.get y).filter fun _ => y == x with
    | .none => seen
    | some a => seen.sent a { sceneEpoch := e.lineage, sceneRevision := revision } seed
  | .sceneApplied leg msg =>
    match (t.ackTarget leg msg).filter fun _ => msg.activationId == x with
    | .none => seen
    | some _ => { seen with applied := msg.appliedContent :: seen.applied }
  | _ => seen

end Seen

structure SceneRun where
  table : ActivationTable
  seen : ActivationId → Seen

namespace SceneRun

def start (cellBootId : String) : SceneRun where
  table := .new cellBootId
  seen := fun _ => .none

def apply (s : SceneRun) (e : SceneCall) : SceneRun :=
  let t := (s.table.apply e.moment e.op).1
  { table := t
    seen := fun x => if (t.get x).isSome then (s.seen x).after s.table x e else .none }

def machine (cellBootId : String) : Machine SceneRun SceneCall where
  start := start cellBootId
  next s e := some (s.apply e)

/-- The worker applied a unit of the activation's current lineage, at or past a seed or
a recovery of it. -/
def Advanced (a : Activation) (seen : Seen) : Prop :=
  ∃ stamp ∈ seen.applied, a.sceneEpoch = some stamp.sceneEpoch ∧
    ∃ unit ∈ seen.units, stamp.AtOrPast unit

/-- Every activation that presents, and every one that may type, presents its current
lineage. -/
structure OnLineage (s : SceneRun) : Prop where
  presenting : ∀ x a, s.table.get x = some a → a.presentation = .presenting →
    Advanced a (s.seen x)
  allowed : ∀ x a, s.table.get x = some a → a.input = .allowed →
    a.presentation = .presenting ∧ Advanced a (s.seen x)

/-- A lineage changes only while the activation does not present, and an acknowledgement
that turns the lease is of the current lineage, which the revision it met was of. -/
def WithinLineage (s : SceneRun) (e : SceneCall) : Prop :=
  match e.op with
  | .attachFrames i =>
    match s.table.framesTarget i with
    | .error _ => True
    | .ok (a, _) =>
      a.lineageChanged (s.table.resolveSceneEpoch i.claims.sessionId i.sessionEpoch).2 = true →
        a.presentation ≠ .presenting
  | .sceneApplied leg msg =>
    match s.table.ackTarget leg msg with
    | none => True
    | some a =>
      (a.meetsSeed msg.appliedContent.sceneRevision = true →
        a.sceneEpoch = some msg.appliedContent.sceneEpoch ∧
          (s.seen msg.activationId).seedOf = a.sceneEpoch) ∧
      (a.meetsResume msg.appliedContent.sceneRevision = true →
        a.sceneEpoch = some msg.appliedContent.sceneEpoch ∧
          (s.seen msg.activationId).resumeOf = a.sceneEpoch)
  | _ => True

instance (s : SceneRun) (e : SceneCall) : Decidable (WithinLineage s e) := by
  unfold WithinLineage
  split
  · split <;> infer_instance
  · split <;> infer_instance
  · infer_instance

variable {a b : Activation} {seen : Seen} {cellBootId : String}

/-! ## What a run keeps of one activation -/

/-- A recorded revision is of a unit that was sent, in the lineage noted for it, and a
presenting activation has advanced. -/
structure Stands (a : Activation) (seen : Seen) : Prop where
  seeded : ∀ revision, a.seedRevision = some revision → ∃ epoch, seen.seedOf = some epoch ∧
    { sceneEpoch := epoch, sceneRevision := revision } ∈ seen.units
  resumed : ∀ revision, a.resumeRevision = some revision → ∃ epoch, seen.resumeOf = some epoch ∧
    { sceneEpoch := epoch, sceneRevision := revision } ∈ seen.units
  presenting : a.presentation = .presenting → Advanced a seen

theorem Stands.opened (m : Moment) (i : AttachControlInput) (seen : Seen) :
    Stands (i.opened m) seen :=
  ⟨(fun _ h => by cases h), (fun _ h => by cases h), (fun h => by cases h)⟩

theorem Stands.moved (h : Stands a seen) (hseed : b.seedRevision = a.seedRevision)
    (hresume : b.resumeRevision = a.resumeRevision ∨ b.resumeRevision = none)
    (hepoch : b.sceneEpoch = a.sceneEpoch)
    (hpresents : b.presentation = .presenting → a.presentation = .presenting) :
    Stands b seen := by
  refine ⟨fun revision hb => h.seeded revision (hseed ▸ hb), fun revision hb => ?_, fun hb => ?_⟩
  · rcases hresume with hkept | hgone
    · exact h.resumed revision (hkept ▸ hb)
    · rw [hgone] at hb
      cases hb
  · rw [Advanced, hepoch]
    exact h.presenting (hpresents hb)

theorem Stands.same (h : Stands a seen) (hseed : b.seedRevision = a.seedRevision)
    (hresume : b.resumeRevision = a.resumeRevision) (hepoch : b.sceneEpoch = a.sceneEpoch)
    (hpresents : b.presentation = a.presentation) : Stands b seen :=
  h.moved hseed (.inl hresume) hepoch fun hb => hpresents ▸ hb

theorem Stands.grown (h : Stands a seen) {later : Seen} (hunits : seen.units ⊆ later.units)
    (happlied : seen.applied ⊆ later.applied)
    (hseed : a.seedRevision.isSome = true → later.seedOf = seen.seedOf)
    (hresume : a.resumeRevision.isSome = true → later.resumeOf = seen.resumeOf) :
    Stands a later := by
  refine ⟨fun revision ha => ?_, fun revision ha => ?_, fun ha => ?_⟩
  · obtain ⟨epoch, hof, hunit⟩ := h.seeded revision ha
    exact ⟨epoch, (hseed (by rw [ha]; rfl)).trans hof, hunits hunit⟩
  · obtain ⟨epoch, hof, hunit⟩ := h.resumed revision ha
    exact ⟨epoch, (hresume (by rw [ha]; rfl)).trans hof, hunits hunit⟩
  · obtain ⟨stamp, hstamp, hepoch, unit, hunit, hpast⟩ := h.presenting ha
    exact ⟨stamp, happlied hstamp, hepoch, unit, hunits hunit, hpast⟩

theorem Stands.sent (h : Stands a seen) (unit : SceneContentStamp) (seed : Bool) :
    Stands a (seen.sent a unit seed) := by
  refine h.grown (fun u hu => ?_) (fun u hu => hu) (fun hseeded => ?_) (fun hresumed => ?_)
  · simp only [Seen.sent]
    split
    · exact List.mem_cons_of_mem _ hu
    · exact hu
  · obtain ⟨revision, hrevision⟩ := isSome_iff_exists.mp hseeded
    simp only [Seen.sent]
    rw [if_neg (by simp [hrevision])]
  · have hnot : a.recoversBy = false := by
      obtain ⟨revision, hrevision⟩ := isSome_iff_exists.mp hresumed
      simp [recoversBy, hrevision]
    simp only [Seen.sent]
    rw [if_neg (by rw [hnot]; exact Bool.false_ne_true)]

theorem Stands.applied (h : Stands a seen) (content : SceneContentStamp) :
    Stands a { seen with applied := content :: seen.applied } :=
  h.grown (fun _ hu => hu) (fun _ hu => List.mem_cons_of_mem _ hu) (fun _ => rfl) fun _ => rfl

theorem Stands.unitSent (h : Stands a seen) (m : Moment) (unit : SceneContentStamp)
    (seed : Bool) :
    Stands (a.unitSent m unit.sceneRevision seed) (seen.sent a unit seed) := by
  have hs := h.sent unit seed
  refine ⟨fun revision hb => ?_, fun revision hb => ?_, hs.presenting⟩
  · simp only [Activation.unitSent] at hb
    split at hb
    · next hfirst =>
      obtain rfl := some.inj hb
      have hseed : seed = true := (Bool.and_eq_true_iff.mp hfirst).1
      exact ⟨unit.sceneEpoch, by simp only [Seen.sent]; rw [if_pos hfirst],
        by simp [Seen.sent, hseed]⟩
    · exact hs.seeded revision hb
  · simp only [Activation.unitSent] at hb
    split at hb
    · next hfirst =>
      obtain rfl := some.inj hb
      have hrecovers : a.recoversBy = true := hfirst
      exact ⟨unit.sceneEpoch, by simp only [Seen.sent]; rw [if_pos hrecovers],
        by simp [Seen.sent, hrecovers]⟩
    · exact hs.resumed revision hb

theorem Stands.acknowledged (h : Stands a seen) (m : Moment) (content : SceneContentStamp)
    (hseed : a.meetsSeed content.sceneRevision = true →
      a.sceneEpoch = some content.sceneEpoch ∧ seen.seedOf = a.sceneEpoch)
    (hresume : a.meetsResume content.sceneRevision = true →
      a.sceneEpoch = some content.sceneEpoch ∧ seen.resumeOf = a.sceneEpoch) :
    Stands (a.acknowledged m content) { seen with applied := content :: seen.applied } := by
  have hs := h.applied content
  refine ⟨hs.seeded, fun revision hb => ?_, fun hb => ?_⟩
  · simp only [Activation.acknowledged, recomputeInput] at hb
    split at hb
    · cases hb
    · exact hs.resumed revision hb
  · -- the revision it met is of a unit of the acknowledged lineage
    have hmet : ∀ {met : Option Nat} {of : Option SceneEpoch},
        (met.any fun revision => decide (content.sceneRevision ≥ revision)) = true →
        (∀ revision, met = some revision → ∃ epoch, of = some epoch ∧
          { sceneEpoch := epoch, sceneRevision := revision } ∈ seen.units) →
        a.sceneEpoch = some content.sceneEpoch → of = a.sceneEpoch →
        Advanced (a.acknowledged m content) { seen with applied := content :: seen.applied } := by
      intro met of hany hunits hepoch hof
      obtain ⟨revision, hrevision, hge⟩ := (any_eq_true _ _).mp hany
      obtain ⟨epoch, hepoch', hunit⟩ := hunits revision hrevision
      obtain rfl : epoch = content.sceneEpoch :=
        some.inj (hepoch'.symm.trans (hof.trans hepoch))
      exact ⟨content, List.mem_cons_self, hepoch, _, hunit,
        SceneContentStamp.atOrPast_iff.mpr ⟨rfl, of_decide_eq_true hge⟩⟩
    simp only [Activation.acknowledged, recomputeInput] at hb
    split at hb
    · next hmeets =>
      rcases Bool.or_eq_true_iff.mp hmeets with hmeets | hmeets
      · obtain ⟨hepoch, hof⟩ := hseed hmeets
        exact hmet (Bool.and_eq_true_iff.mp hmeets).2 h.seeded hepoch hof
      · obtain ⟨hepoch, hof⟩ := hresume hmeets
        exact hmet (Bool.and_eq_true_iff.mp hmeets).2 h.resumed hepoch hof
    · exact hs.presenting hb

theorem Stands.framesAttached (h : Stands a seen) (leg : LegRef) (trf : TrfIdentity)
    (token : String) (epoch : SceneEpoch)
    (hchanged : a.lineageChanged epoch = true → a.presentation ≠ .presenting) :
    Stands (a.framesAttached leg trf token epoch) seen := by
  refine ⟨h.seeded, fun revision hb => ?_, fun hb => ?_⟩
  · simp only [Activation.framesAttached, boundFrames] at hb
    split at hb
    · cases hb
    · exact h.resumed revision hb
  · obtain ⟨stamp, hstamp, hepoch, hunit⟩ := h.presenting hb
    have hsame : a.lineageChanged epoch = false :=
      Bool.eq_false_iff.mpr fun hc => hchanged hc hb
    simp only [lineageChanged, hepoch, Option.any_some, ne_eq, decide_not,
      Bool.not_eq_eq_eq_not, Bool.not_false, decide_eq_true_eq] at hsame
    exact ⟨stamp, hstamp, congrArg some hsame.symm, hunit⟩

/-! ## Along a run -/

theorem Stands.touch {s : SceneRun} {x : ActivationId} {e : SceneCall} {es : List Effect}
    (ha : s.table.get x = some a)
    (htouch : Touch s.table e.moment x e.op (some a) (some b) es)
    (hwithin : WithinLineage s e) (h : Stands a (s.seen x)) :
    Stands b ((s.seen x).after s.table x e) := by
  obtain ⟨m, op, lineage⟩ := e
  dsimp only at htouch
  cases htouch with
  | kept =>
    cases op with
    | unitSent y revision seed =>
      simp only [Seen.after]
      split
      · exact h
      · next c hc =>
        obtain ⟨hy, hyx⟩ := filter_eq_some_iff.mp hc
        obtain rfl := eq_of_beq hyx
        obtain rfl := some.inj (ha.symm.trans hy)
        exact h.sent _ _
    | sceneApplied leg msg =>
      simp only [Seen.after]
      split
      · exact h
      · exact h.applied _
    | _ => exact h
  | reattached i =>
    refine h.same ?_ ?_ ?_ ?_ <;> unfold Activation.reattached <;> split <;> rfl
  | framed i _ trf hx htarget =>
    refine h.framesAttached _ _ _ _ ?_
    simp only [WithinLineage, htarget] at hwithin
    exact hwithin
  | viewed | unviewed | repaired => exact h.same rfl rfl rfl rfl
  | demanded leg msg =>
    refine h.same ?_ ?_ ?_ ?_ <;> unfold Activation.demanded <;> dsimp only <;> split <;> rfl
  | acknowledged leg msg _ hx htarget =>
    subst hx
    simp only [WithinLineage, htarget] at hwithin
    have hack := h.acknowledged m msg.appliedContent hwithin.1 hwithin.2
    have hafter : (s.seen msg.activationId).after s.table msg.activationId
        ⟨m, .sceneApplied leg msg, lineage⟩ =
        { s.seen msg.activationId with
          applied := msg.appliedContent :: (s.seen msg.activationId).applied } := by
      simp only [Seen.after, htarget, filter_some, beq_self_eq_true, if_true]
    rw [hafter]
    refine hack.same ?_ ?_ ?_ ?_ <;> unfold Activation.sceneApplied <;> dsimp only <;> split <;> rfl
  | sent revision seed =>
    have hafter : (s.seen x).after s.table x ⟨m, .unitSent x revision seed, lineage⟩ =
        (s.seen x).sent a { sceneEpoch := lineage, sceneRevision := revision } seed := by
      simp only [Seen.after, ha, filter_some, beq_self_eq_true, if_true]
    rw [hafter]
    exact h.unitSent m { sceneEpoch := lineage, sceneRevision := revision } seed
  | stopped =>
    unfold Activation.presentationStopped
    split
    · exact h
    · split
      · exact h.moved rfl (.inr rfl) rfl id
      · exact h.moved rfl (.inr rfl) rfl fun hb => by cases hb
  | exited =>
    unfold Activation.sessionExited
    split
    · exact h
    · exact h.moved rfl (.inr rfl) rfl fun hb => by cases hb
  | recomputed =>
    unfold ActivationTable.recomputed
    split <;> exact h.same rfl rfl rfl rfl

theorem table_reachable {s : SceneRun} (h : (machine cellBootId).Reachable s) :
    (ActivationTable.machine cellBootId).Reachable s.table := by
  refine h.invariant (P := fun s => (ActivationTable.machine cellBootId).Reachable s.table)
    ?_ fun s e s' hs hnext => ?_
  · exact .start
  · obtain rfl := some.inj hnext
    exact hs.next (e := (e.moment, e.op)) rfl

theorem stands_of_reaches {s : SceneRun} (h : (machine cellBootId).Reaches WithinLineage s) :
    ∀ x a, s.table.get x = some a → Stands a (s.seen x) := by
  refine h.invariant_of (P := fun s => ∀ x a, s.table.get x = some a → Stands a (s.seen x))
    (fun x a ha => by cases ha) ?_
  intro s e s' hr hs hwithin hnext x b hb
  obtain rfl := some.inj hnext
  have hw := ActivationTable.WellIndexed.reachable (table_reachable hr.reachable)
  have htouch := ActivationTable.touch_apply (m := e.moment) hw e.op x
  have hget : (s.table.apply e.moment e.op).1.get x = some b := hb
  have hseen : (s.apply e).seen x = (s.seen x).after s.table x e := by
    simp only [apply, hget, isSome_some, if_pos]
  rw [hget] at htouch
  rw [hseen]
  cases ha : s.table.get x with
  | none =>
    rw [ha] at htouch
    obtain ⟨m, op, lineage⟩ := e
    generalize driven x _ = es at htouch
    cases htouch with
    | opened i => exact .opened _ _ _
  | some a =>
    rw [ha] at htouch
    exact Stands.touch ha htouch hwithin (hs x a ha)

/-- Along a run that stays within the lineages, whatever presents is current. -/
theorem onLineage_of_reaches {s : SceneRun} (h : (machine cellBootId).Reaches WithinLineage s) :
    OnLineage s := by
  have hstands := stands_of_reaches h
  refine ⟨fun x a ha hp => (hstands x a ha).presenting hp, fun x a ha hin => ?_⟩
  have hp := (ActivationTable.vouched_of_allowed (table_reachable h.reachable) ha hin).presentation
  exact ⟨hp, (hstands x a ha).presenting hp⟩

end SceneRun

/-! ## A lineage that changes under the small cell's activation -/

namespace Sample

def lineage (generation : Nat) : SceneEpoch where
  cellBootId := "boot"
  modelGeneration := generation

def sceneCall (op : Op) : SceneCall where
  moment := moment
  op := op
  lineage := lineage 1

def seedApplied : SceneCall :=
  sceneCall (.sceneApplied (leg 2)
    { sessionId := "s1"
      activationId := "a"
      appliedContent := { sceneEpoch := lineage 1, sceneRevision := 1 } })

def lineageMoves : SceneCall := sceneCall (.attachFrames (attachFrames 2 "s1" "a" 2))

def seeded : List SceneCall :=
  [sceneCall (.attachControl (attach 1 "s1" "a" none)),
    sceneCall (.attachFrames (attachFrames 2 "s1" "a" 1)),
    sceneCall (.viewAttached "a" "a" 1),
    sceneCall (.unitSent "a" 1 true)]

end Sample

namespace SceneRun

/-- The seed is applied in its own lineage. -/
theorem onLineage_presenting : ∃ s : SceneRun,
    ((s.table.get "a").any fun a => a.presentation == .presenting && a.input == .allowed) = true ∧
      OnLineage s := by
  obtain ⟨s, hreach, hp⟩ := Machine.exists_of_orderly_run (M := machine "boot") WithinLineage
    (fun s => (s.table.get "a").any fun a => a.presentation == .presenting && a.input == .allowed)
    (Sample.seeded ++ [Sample.seedApplied]) (by decide)
  exact ⟨s, hp, onLineage_of_reaches hreach⟩

def stray (s : SceneRun) (x : ActivationId) : Bool :=
  (s.table.get x).any fun a =>
    a.presentation == .presenting &&
      (s.seen x).applied.all fun stamp => a.sceneEpoch != some stamp.sceneEpoch

theorem not_onLineage_of_stray {s : SceneRun} {x : ActivationId} (h : s.stray x = true) :
    ¬ OnLineage s := by
  intro hs
  obtain ⟨a, ha, hstray⟩ := (any_eq_true _ _).mp h
  obtain ⟨hp, hnone⟩ := Bool.and_eq_true_iff.mp hstray
  obtain ⟨stamp, hstamp, hepoch, -⟩ := hs.presenting x a ha (eq_of_beq hp)
  have hne := List.all_eq_true.mp hnone stamp hstamp
  rw [hepoch] at hne
  simp at hne

/-- A change of lineage keeps a presenting activation presenting, and an old
acknowledgement turns a pending one after it. -/
theorem lineage_crossed :
    (∃ s, (machine "boot").Reachable s ∧ ¬ OnLineage (s.apply Sample.lineageMoves)) ∧
      ∃ s, (machine "boot").Reachable s ∧ ¬ OnLineage (s.apply Sample.seedApplied) := by
  obtain ⟨s, hs, hmoved⟩ := Machine.exists_of_run (M := machine "boot")
    (fun s => (s.apply Sample.lineageMoves).stray "a") (Sample.seeded ++ [Sample.seedApplied])
    (by decide)
  obtain ⟨u, hu, hacked⟩ := Machine.exists_of_run (M := machine "boot")
    (fun s => (s.apply Sample.seedApplied).stray "a") (Sample.seeded ++ [Sample.lineageMoves])
    (by decide)
  exact ⟨⟨s, hs, not_onLineage_of_stray hmoved⟩, u, hu, not_onLineage_of_stray hacked⟩

end SceneRun
end VibeField.Tp
