import Mathlib.Data.List.ModifyLast
import Mathlib.Data.List.TakeWhile
import VibeField.Tp.SceneRun

/-!
# The lag bound

An activation lags while the oldest unit sent in its lineage and not acknowledged is
older than the bound.  The table keeps a bounded queue of revisions and times.  A run
keeps beside the table every unit reported since the lineage was attached, with its own
lineage, and every acknowledgement taken in.

The queue says what the run says while a unit is reported in the lineage it was sent in,
and before it is acknowledged.  The table checks neither: it does not know the lineage
of a report.
-/

namespace VibeField.Tp

open List Option ActivationTable Activation

/-- A unit the pump reported.  Its age is counted from its own report, or from where a
full ledger had the unit before it counted. -/
structure SentUnit where
  stamp : SceneContentStamp
  sentAt : Instant
  countedFrom : Instant
  deriving DecidableEq, Repr

/-- What was reported for one activation since its lineage was attached, and what was
acknowledged since it opened. -/
structure LagLog where
  units : List SentUnit := []
  applied : List SceneContentStamp := []
  deriving DecidableEq, Repr

namespace LagLog

def covers (log : LagLog) (stamp : SceneContentStamp) : Bool :=
  log.applied.any fun applied => decide (applied.AtOrPast stamp)

def current (log : LagLog) (a : Activation) : List SentUnit :=
  log.units.filter fun u => a.sceneEpoch = some u.stamp.sceneEpoch

def oldest (log : LagLog) (a : Activation) : Option SentUnit :=
  (log.current a).find? fun u => !log.covers u.stamp

def sent (log : LagLog) (a : Activation) (m : Moment) (stamp : SceneContentStamp) : LagLog :=
  match log.units.getLast?.filter fun _ => decide (a.unacked.length ≥ unackedUnitsCap) with
  | some newest =>
    { log with units := log.units.dropLast ++ [⟨stamp, m.instant, newest.countedFrom⟩] }
  | none => { log with units := log.units ++ [⟨stamp, m.instant, m.instant⟩] }

/-- What a call adds for the activation `x` of the table. -/
def after (log : LagLog) (t : ActivationTable) (x : ActivationId) (e : SceneCall) : LagLog :=
  match e.op with
  | .unitSent y revision _ =>
    match (t.get y).filter fun _ => y == x with
    | none => log
    | some a => log.sent a e.moment { sceneEpoch := e.lineage, sceneRevision := revision }
  | .sceneApplied leg msg =>
    match (t.ackTarget leg msg).filter fun _ => msg.activationId == x with
    | none => log
    | some _ => { log with applied := msg.appliedContent :: log.applied }
  | .attachFrames i =>
    match t.framesTarget i with
    | .error _ => log
    | .ok (a, _) =>
      if i.activationId = x ∧
          a.lineageChanged (t.resolveSceneEpoch i.claims.sessionId i.sessionEpoch).2 = true then
        { log with units := [] }
      else
        log
  | _ => log

end LagLog

structure LagRun where
  table : ActivationTable
  log : ActivationId → LagLog

namespace LagRun

def start (cellBootId : String) : LagRun where
  table := .new cellBootId
  log := fun _ => {}

def apply (s : LagRun) (e : SceneCall) : LagRun :=
  let t := (s.table.apply e.moment e.op).1
  { table := t
    log := fun x => if (t.get x).isSome then (s.log x).after s.table x e else {} }

def machine (cellBootId : String) : Machine LagRun SceneCall where
  start := start cellBootId
  next s e := some (s.apply e)

/-- The pump that reports a unit is of the activation's current lineage, and reports it
before the worker has acknowledged it. -/
def Timely (s : LagRun) (e : SceneCall) : Prop :=
  match e.op with
  | .unitSent y revision _ =>
    match s.table.get y with
    | none => True
    | some a =>
      a.sceneEpoch = some e.lineage ∧
        (s.log y).covers { sceneEpoch := e.lineage, sceneRevision := revision } = false
  | _ => True

def isTimely (s : LagRun) (e : SceneCall) : Bool :=
  match e.op with
  | .unitSent y revision _ =>
    match s.table.get y with
    | none => true
    | some a =>
      a.sceneEpoch == some e.lineage &&
        !(s.log y).covers { sceneEpoch := e.lineage, sceneRevision := revision }
  | _ => true

theorem isTimely_iff (s : LagRun) (e : SceneCall) : isTimely s e = true ↔ Timely s e := by
  unfold isTimely Timely
  split
  · split
    · simp
    · simp
  · simp

instance (s : LagRun) (e : SceneCall) : Decidable (Timely s e) :=
  decidable_of_iff _ (isTimely_iff s e)

variable {a b : Activation} {log : LagLog} {cellBootId : String}

/-- The ledger is the log's units but for the acknowledged ones before its front, and
the front is not acknowledged. -/
structure Keeps (a : Activation) (log : LagLog) (gone rest : List SentUnit) : Prop where
  units : log.units = gone ++ rest
  ledger : rest.map (fun u => (u.stamp.sceneRevision, u.countedFrom)) = a.unacked
  covered : ∀ u ∈ gone, log.covers u.stamp = true
  front : ∀ u, rest.head? = some u → log.covers u.stamp = false
  current : ∀ u ∈ log.units, a.sceneEpoch = some u.stamp.sceneEpoch

/-- The ledger agrees with the log. -/
def Agrees (a : Activation) (log : LagLog) : Prop := ∃ gone rest, Keeps a log gone rest

theorem Agrees.opened (m : Moment) (i : AttachControlInput) : Agrees (i.opened m) {} :=
  ⟨[], [], rfl, rfl, by simp, by simp, by simp⟩

theorem Agrees.same (h : Agrees a log) (hunacked : b.unacked = a.unacked)
    (hepoch : b.sceneEpoch = a.sceneEpoch) : Agrees b log := by
  obtain ⟨gone, rest, h⟩ := h
  exact ⟨gone, rest, h.units, h.ledger.trans hunacked.symm, h.covered, h.front,
    fun u hu => hepoch.trans (h.current u hu)⟩

theorem Agrees.framesAttached (h : Agrees a log) (leg : LegRef) (trf : TrfIdentity)
    (token : String) (epoch : SceneEpoch) :
    Agrees (a.framesAttached leg trf token epoch)
      (if a.lineageChanged epoch = true then { log with units := [] } else log) := by
  obtain ⟨gone, rest, h⟩ := h
  by_cases hchanged : a.lineageChanged epoch = true
  · rw [if_pos hchanged]
    refine ⟨[], [], rfl, ?_, by simp, by simp, by simp⟩
    simp [Activation.framesAttached, boundFrames, hchanged]
  · rw [if_neg hchanged]
    refine ⟨gone, rest, h.units, ?_, h.covered, h.front, fun u hu => ?_⟩
    · simpa [Activation.framesAttached, boundFrames, hchanged] using h.ledger
    · have hcurrent := h.current u hu
      rw [lineageChanged, hcurrent] at hchanged
      simp only [Option.any_some, ne_eq, decide_not, Bool.not_eq_eq_eq_not, Bool.not_true,
        decide_eq_false_iff_not, not_not] at hchanged
      exact congrArg some hchanged.symm

theorem Agrees.unitSent (h : Agrees a log) (m : Moment) (stamp : SceneContentStamp) (seed : Bool)
    (hepoch : a.sceneEpoch = some stamp.sceneEpoch) (hnot : log.covers stamp = false) :
    Agrees (a.unitSent m stamp.sceneRevision seed) (log.sent a m stamp) := by
  obtain ⟨gone, rest, h⟩ := h
  have hlength : a.unacked.length = rest.length := by rw [← h.ledger, length_map]
  by_cases hfull : a.unacked.length ≥ unackedUnitsCap
  · -- the newest entry is the newest unit of the log, and absorbs the report
    obtain ⟨init, newest, rfl⟩ : ∃ init newest, rest = init ++ [newest] := by
      have hne : rest ≠ [] := by
        intro hnil
        rw [hlength, hnil] at hfull
        simp [unackedUnitsCap] at hfull
      exact ⟨rest.dropLast, rest.getLast hne, (dropLast_append_getLast hne).symm⟩
    have hunits : log.units = (gone ++ init) ++ [newest] := by rw [h.units, append_assoc]
    have hsent : log.sent a m stamp =
        { log with units := (gone ++ init) ++ [⟨stamp, m.instant, newest.countedFrom⟩] } := by
      simp only [LagLog.sent, hunits, hfull, decide_true, List.getLast?_append,
        List.getLast?_singleton, some_or, filter_some, if_true,
        dropLast_concat]
    rw [hsent]
    refine ⟨gone, init ++ [⟨stamp, m.instant, newest.countedFrom⟩], ?_, ?_, h.covered, ?_, ?_⟩
    · rw [append_assoc]
    · have hledger := h.ledger
      rw [map_append] at hledger
      change _ = a.unackedWith m stamp.sceneRevision
      rw [unackedWith, if_pos hfull, ← hledger, map_append, map_singleton,
        map_singleton, modifyLast_concat]
    · intro u hu
      cases init with
      | nil =>
        obtain rfl := some.inj hu
        exact hnot
      | cons v rest => exact h.front u hu
    · intro u hu
      rcases mem_snoc.mp hu with hu | hu
      · exact h.current u (hunits ▸ mem_append_left _ hu)
      · rw [hu]
        exact hepoch
  · have hsent : log.sent a m stamp =
        { log with units := log.units ++ [⟨stamp, m.instant, m.instant⟩] } := by
      simp [LagLog.sent, hfull]
    rw [hsent]
    refine ⟨gone, rest ++ [⟨stamp, m.instant, m.instant⟩], ?_, ?_, h.covered, ?_, ?_⟩
    · dsimp only
      rw [h.units, append_assoc]
    · change _ = a.unackedWith m stamp.sceneRevision
      rw [unackedWith, if_neg hfull, ← h.ledger, map_append]
      rfl
    · intro u hu
      cases rest with
      | nil =>
        obtain rfl := some.inj hu
        exact hnot
      | cons v rest => exact h.front u hu
    · exact forall_mem_append.mpr ⟨h.current, forall_mem_singleton.mpr hepoch⟩

theorem covers_cons (log : LagLog) (content stamp : SceneContentStamp) :
    LagLog.covers { log with applied := content :: log.applied } stamp = true ↔
      content.AtOrPast stamp ∨ log.covers stamp = true := by
  simp [LagLog.covers]

theorem Agrees.acknowledged (h : Agrees a log) (m : Moment) (content : SceneContentStamp) :
    Agrees (a.acknowledged m content) { log with applied := content :: log.applied } := by
  obtain ⟨gone, rest, h⟩ := h
  have hcurrent : ∀ u ∈ rest, a.sceneEpoch = some u.stamp.sceneEpoch := fun u hu =>
    h.current u (h.units ▸ mem_append_right _ hu)
  by_cases hepoch : a.sceneEpoch = some content.sceneEpoch
  · have hpast : ∀ u ∈ rest,
        (content.AtOrPast u.stamp ↔ u.stamp.sceneRevision ≤ content.sceneRevision) := by
      intro u hu
      rw [SceneContentStamp.atOrPast_iff]
      exact and_iff_right (some.inj (hepoch.symm.trans (hcurrent u hu)))
    let q : SentUnit → Bool := fun u => decide (u.stamp.sceneRevision ≤ content.sceneRevision)
    refine ⟨gone ++ rest.takeWhile q, rest.dropWhile q, ?_, ?_, ?_, ?_, h.current⟩
    · rw [append_assoc, takeWhile_append_dropWhile]
      exact h.units
    · change _ = a.unackedAfter content
      rw [unackedAfter, if_pos hepoch, ← h.ledger, dropWhile_map]
      rfl
    · intro u hu
      rw [covers_cons]
      rcases mem_append.mp hu with hu | hu
      · exact .inr (h.covered u hu)
      · have hmem := (takeWhile_sublist _).subset hu
        have hq : q u = true := mem_takeWhile_imp (p := q) hu
        exact .inl ((hpast u hmem).mpr (of_decide_eq_true hq))
    · intro u hu
      have hmem : u ∈ rest := (dropWhile_sublist q).subset (List.mem_of_mem_head? hu)
      have hgt : ¬ u.stamp.sceneRevision ≤ content.sceneRevision := by
        have := List.head?_dropWhile_not q rest
        rw [hu] at this
        simpa [q] using this
      rw [Bool.eq_false_iff, ne_eq, covers_cons, hpast u hmem, not_or]
      refine ⟨hgt, ?_⟩
      -- the old front was ahead of every acknowledgement, and this unit is ahead of it
      cases rest with
      | nil => cases hmem
      | cons v rest =>
        have hv := h.front v rfl
        by_cases hqv : q v = true
        · intro hcov
          obtain ⟨applied, happlied, hat⟩ := List.any_eq_true.mp hcov
          have hat := SceneContentStamp.atOrPast_iff.mp (of_decide_eq_true hat)
          have hle : v.stamp.sceneRevision ≤ content.sceneRevision := of_decide_eq_true hqv
          have hsame : u.stamp.sceneEpoch = v.stamp.sceneEpoch :=
            some.inj ((hcurrent u hmem).symm.trans (hcurrent v mem_cons_self))
          have hvcov : log.covers v.stamp = true := by
            refine List.any_eq_true.mpr ⟨applied, happlied, decide_eq_true ?_⟩
            exact SceneContentStamp.atOrPast_iff.mpr ⟨hat.1.trans hsame, by omega⟩
          rw [hv] at hvcov
          cases hvcov
        · rw [dropWhile_cons_of_neg hqv] at hu
          obtain rfl := some.inj hu
          rw [hv]
          exact Bool.false_ne_true
  · have hother : ∀ u ∈ log.units, ¬ content.AtOrPast u.stamp := by
      intro u hu hat
      exact hepoch ((h.current u hu).trans
        (congrArg some (SceneContentStamp.atOrPast_iff.mp hat).1.symm))
    refine ⟨gone, rest, h.units, ?_, fun u hu => ?_, fun u hu => ?_, h.current⟩
    · change _ = a.unackedAfter content
      rw [unackedAfter, if_neg hepoch]
      exact h.ledger
    · exact (covers_cons _ _ _).mpr (.inr (h.covered u hu))
    · have hmem : u ∈ log.units :=
        h.units ▸ mem_append_right _ (List.mem_of_mem_head? hu)
      rw [Bool.eq_false_iff, ne_eq, covers_cons, not_or, h.front u hu]
      exact ⟨hother u hmem, Bool.false_ne_true⟩

theorem Agrees.front (h : Agrees a log) :
    a.unacked.head? = (log.oldest a).map fun u => (u.stamp.sceneRevision, u.countedFrom) := by
  obtain ⟨gone, rest, h⟩ := h
  have hcurrent : log.current a = gone ++ rest := by
    rw [LagLog.current, ← h.units, filter_eq_self]
    exact fun u hu => decide_eq_true (h.current u hu)
  have hgone : gone.find? (fun u => !log.covers u.stamp) = none := by
    rw [List.find?_eq_none]
    intro u hu
    rw [h.covered u hu]
    exact Bool.false_ne_true
  rw [LagLog.oldest, hcurrent, List.find?_append, hgone, none_or, ← h.ledger]
  cases rest with
  | nil => rfl
  | cons v rest =>
    rw [List.find?_cons_of_pos (by rw [h.front v rfl]; rfl)]
    rfl

/-! ## Along a run -/

variable {m : Moment} {s : LagRun} {t : ActivationTable} {x : ActivationId}

theorem get_attachFrames {i : AttachFramesInput} {trf : TrfIdentity}
    (htarget : t.framesTarget i = .ok (a, trf)) (x : ActivationId) :
    (t.attachFrames i).1.get x =
      if x = i.activationId then
        some (a.framesAttached i.leg trf i.resumeToken
          (t.resolveSceneEpoch i.claims.sessionId i.sessionEpoch).2)
      else t.get x := by
  have ha := framesTarget_get htarget
  have hsame := sameIndexes_resolve t i.claims.sessionId i.sessionEpoch
  simp only [ActivationTable.attachFrames, htarget]
  rw [get_openAccount,
    get_rewritten ((hsame.get _).trans ha), hsame.get]

theorem keeps_ledger {op : Op} {es : List Effect} (htouch : Touch t m x op (some a) (some b) es)
    (hsent : ∀ y revision seed, op ≠ .unitSent y revision seed)
    (happlied : ∀ leg msg, op ≠ .sceneApplied leg msg) (hframes : ∀ i, op ≠ .attachFrames i) :
    b.unacked = a.unacked ∧ b.sceneEpoch = a.sceneEpoch := by
  cases htouch with
  | kept => exact ⟨rfl, rfl⟩
  | reattached i =>
    unfold Activation.reattached
    split <;> exact ⟨rfl, rfl⟩
  | framed i => exact absurd rfl (hframes i)
  | viewed | unviewed | repaired => exact ⟨rfl, rfl⟩
  | demanded leg msg =>
    unfold Activation.demanded
    dsimp only
    split <;> exact ⟨rfl, rfl⟩
  | acknowledged leg msg => exact absurd rfl (happlied leg msg)
  | sent revision seed => exact absurd rfl (hsent x revision seed)
  | stopped =>
    unfold Activation.presentationStopped
    split
    · exact ⟨rfl, rfl⟩
    · split <;> exact ⟨rfl, rfl⟩
  | exited =>
    unfold Activation.sessionExited
    split <;> exact ⟨rfl, rfl⟩
  | recomputed =>
    unfold ActivationTable.recomputed
    split <;> exact ⟨rfl, rfl⟩

/-- A timely call that keeps an activation keeps its ledger with its log. -/
theorem Agrees.next {e : SceneCall} (hw : s.table.WellIndexed) (ha : s.table.get x = some a)
    (hb : (s.table.apply e.moment e.op).1.get x = some b) (htimely : Timely s e)
    (h : Agrees a (s.log x)) : Agrees b ((s.log x).after s.table x e) := by
  have htouch := touch_apply (m := e.moment) hw e.op x
  rw [ha, hb] at htouch
  obtain ⟨m, op, lineage⟩ := e
  dsimp only at htouch hb
  cases op with
  | unitSent y revision seed =>
    have hget : (s.table.unitSent m y revision seed).1.get x = some b := hb
    rw [ActivationTable.unitSent, get_modify, ha] at hget
    by_cases hxy : x = y
    · subst hxy
      rw [if_pos rfl] at hget
      obtain rfl := some.inj hget
      simp only [Timely, ha] at htimely
      have hafter : (s.log x).after s.table x ⟨m, .unitSent x revision seed, lineage⟩ =
          (s.log x).sent a m { sceneEpoch := lineage, sceneRevision := revision } := by
        simp only [LagLog.after, ha, filter_some, beq_self_eq_true, if_true]
      rw [hafter]
      exact h.unitSent m { sceneEpoch := lineage, sceneRevision := revision } seed
        htimely.1 htimely.2
    · rw [if_neg hxy] at hget
      obtain rfl := some.inj hget
      have hafter : (s.log x).after s.table x ⟨m, .unitSent y revision seed, lineage⟩ =
          s.log x := by
        have hne : (y == x) = false := beq_eq_false_iff_ne.mpr (Ne.symm hxy)
        cases hy : s.table.get y <;> simp [LagLog.after, hy, hne]
      rw [hafter]
      exact h
  | sceneApplied leg msg =>
    have hget : (s.table.sceneApplied m leg msg).1.get x = some b := hb
    unfold ActivationTable.sceneApplied at hget
    cases htarget : s.table.ackTarget leg msg with
    | none =>
      simp only [htarget] at hget
      obtain rfl := some.inj (ha.symm.trans hget)
      have hafter : (s.log x).after s.table x ⟨m, .sceneApplied leg msg, lineage⟩ =
          s.log x := by
        simp [LagLog.after, htarget]
      rw [hafter]
      exact h
    | some c =>
      simp only [htarget] at hget
      have hc := ackTarget_get htarget
      rw [get_modify, ha] at hget
      by_cases hx : x = msg.activationId
      · subst hx
        obtain rfl := some.inj (ha.symm.trans hc)
        rw [if_pos rfl] at hget
        obtain rfl := some.inj hget
        have hafter : (s.log msg.activationId).after s.table msg.activationId
            ⟨m, .sceneApplied leg msg, lineage⟩ =
            { s.log msg.activationId with
              applied := msg.appliedContent :: (s.log msg.activationId).applied } := by
          simp only [LagLog.after, htarget, filter_some, beq_self_eq_true, if_true]
        rw [hafter]
        refine (h.acknowledged m msg.appliedContent).same ?_ ?_ <;>
          unfold Activation.sceneApplied <;> dsimp only <;> split <;> rfl
      · rw [if_neg hx] at hget
        obtain rfl := some.inj hget
        have hne : (msg.activationId == x) = false := beq_eq_false_iff_ne.mpr (Ne.symm hx)
        have hafter : (s.log x).after s.table x ⟨m, .sceneApplied leg msg, lineage⟩ =
            s.log x := by
          simp [LagLog.after, htarget, hne]
        rw [hafter]
        exact h
  | attachFrames i =>
    have hget : (s.table.attachFrames i).1.get x = some b := hb
    cases htarget : s.table.framesTarget i with
    | error r =>
      simp only [ActivationTable.attachFrames, htarget] at hget
      obtain rfl := some.inj (ha.symm.trans hget)
      have hafter : (s.log x).after s.table x ⟨m, .attachFrames i, lineage⟩ = s.log x := by
        simp [LagLog.after, htarget]
      rw [hafter]
      exact h
    | ok r =>
      obtain ⟨c, trf⟩ := r
      rw [get_attachFrames htarget] at hget
      by_cases hx : x = i.activationId
      · subst hx
        obtain rfl := some.inj
          (ha.symm.trans (framesTarget_get htarget))
        rw [if_pos rfl] at hget
        obtain rfl := some.inj hget
        simp only [LagLog.after, htarget, true_and]
        exact h.framesAttached _ _ _ _
      · rw [if_neg hx, ha] at hget
        obtain rfl := some.inj hget
        have hafter : (s.log x).after s.table x ⟨m, .attachFrames i, lineage⟩ = s.log x := by
          simp [LagLog.after, htarget, Ne.symm hx]
        rw [hafter]
        exact h
  | _ =>
    obtain ⟨hunacked, hepoch⟩ := keeps_ledger htouch (by simp) (by simp) (by simp)
    exact h.same hunacked hepoch

theorem table_reachable (h : (machine cellBootId).Reachable s) :
    (ActivationTable.machine cellBootId).Reachable s.table := by
  refine h.invariant (P := fun s => (ActivationTable.machine cellBootId).Reachable s.table)
    ?_ fun s e s' hs hnext => ?_
  · exact .start
  · obtain rfl := some.inj hnext
    exact hs.next (e := (e.moment, e.op)) rfl

theorem log_none (h : (machine cellBootId).Reachable s) (x : ActivationId)
    (hx : s.table.get x = none) : s.log x = {} := by
  refine h.invariant (P := fun s => s.table.get x = none → s.log x = {}) (fun _ => rfl)
    (fun s e s' _ hnext hnone => ?_) hx
  obtain rfl := some.inj hnext
  have hget : (s.table.apply e.moment e.op).1.get x = none := hnone
  simp [apply, hget]

theorem agrees_of_reaches (h : (machine cellBootId).Reaches Timely s) :
    ∀ x a, s.table.get x = some a → Agrees a (s.log x) := by
  refine h.invariant_of (P := fun s => ∀ x a, s.table.get x = some a → Agrees a (s.log x))
    (fun x a ha => by cases ha) ?_
  intro s e s' hr hs htimely hnext x b hb
  obtain rfl := some.inj hnext
  have hw := ActivationTable.WellIndexed.reachable (table_reachable hr.reachable)
  have hget : (s.table.apply e.moment e.op).1.get x = some b := hb
  have hlog : (s.apply e).log x = (s.log x).after s.table x e := by
    simp only [apply, hget, isSome_some, if_pos]
  rw [hlog]
  cases ha : s.table.get x with
  | none =>
    have htouch := touch_apply (m := e.moment) hw e.op x
    rw [ha, hget] at htouch
    have hnone := log_none hr.reachable x ha
    obtain ⟨m, op, lineage⟩ := e
    generalize driven x _ = es at htouch
    cases htouch with
    | opened i =>
      have hafter : (s.log x).after s.table x ⟨m, .attachControl i, lineage⟩ = s.log x := rfl
      rw [hafter, hnone]
      exact .opened _ _
  | some a => exact (hs x a ha).next hw ha hget htimely

/-! ## The ledger's bound -/

theorem length_modifyLast {α : Type} (f : α → α) (l : List α) :
    (l.modifyLast f).length = l.length := by
  rcases eq_nil_or_concat l with rfl | ⟨init, x, rfl⟩
  · rfl
  · rw [concat_eq_append, modifyLast_concat, length_append, length_append]
    rfl

theorem length_unackedWith (m : Moment) (revision : Nat)
    (h : a.unacked.length ≤ unackedUnitsCap) :
    (a.unackedWith m revision).length ≤ unackedUnitsCap := by
  unfold unackedWith
  split
  · rw [length_modifyLast]
    exact h
  · rw [length_append, length_singleton]
    omega

theorem length_unackedAfter (content : SceneContentStamp) :
    (a.unackedAfter content).length ≤ a.unacked.length := by
  unfold unackedAfter
  split
  · exact (dropWhile_sublist _).length_le
  · exact Nat.le_refl _

theorem unacked_bounded (h : (ActivationTable.machine cellBootId).Reachable t) :
    ∀ x a, t.get x = some a → a.unacked.length ≤ unackedUnitsCap := by
  refine Machine.Reaches.invariant_of
    (P := fun t => ∀ x a, t.get x = some a → a.unacked.length ≤ unackedUnitsCap)
    (fun x a ha => by cases ha) ?_ h
  intro t e t' hr ht _ hnext x b hb
  obtain rfl := some.inj hnext
  obtain ⟨m, op⟩ := e
  have hw := ActivationTable.WellIndexed.reachable hr
  have htouch := touch_apply (m := m) hw op x
  rw [hb] at htouch
  generalize driven x _ = es at htouch
  cases ha : t.get x with
  | none =>
    rw [ha] at htouch
    cases htouch with
    | opened i => exact Nat.zero_le _
  | some a =>
    rw [ha] at htouch
    have hle := ht x a ha
    cases op with
    | unitSent y revision seed =>
      cases htouch with
      | kept => exact hle
      | sent => exact length_unackedWith m revision hle
    | sceneApplied leg msg =>
      cases htouch with
      | kept => exact hle
      | acknowledged =>
        have hlen := (length_unackedAfter (a := a) msg.appliedContent).trans hle
        unfold Activation.sceneApplied
        dsimp only
        split <;> exact hlen
    | attachFrames i =>
      cases htouch with
      | kept => exact hle
      | framed =>
        simp only [Activation.framesAttached, boundFrames]
        split
        · exact Nat.zero_le _
        · exact hle
    | _ =>
      rw [(keeps_ledger htouch (by simp) (by simp) (by simp)).1]
      exact hle

/-! ## Input while lagging -/

theorem not_allowed_of_lagging (m : Moment) (hlag : a.lagging m = true) :
    (a.recomputeInput m).input ≠ .allowed := by
  simp only [recomputeInput, Activation.computedInput, hlag, if_true]
  repeat' split
  all_goals simp_all

theorem tick_not_allowed (hb : (t.tick m).1.get x = some b) (hlag : b.lagging m = true) :
    b.input ≠ .allowed := by
  simp only [ActivationTable.tick, ActivationTable.recomputeAll] at hb
  rw [get_mapVals] at hb
  obtain ⟨a, -, rfl⟩ := map_eq_some_iff.mp hb
  unfold ActivationTable.recomputed at hlag ⊢
  split at hlag
  · next hchanged =>
    rw [if_pos hchanged]
    exact not_allowed_of_lagging m hlag
  · next hsame =>
    rw [if_neg hsame]
    exact not_allowed_of_lagging m hlag

theorem sceneApplied_not_allowed {leg : LegRef} {msg : SceneApplied}
    (ha : t.ackTarget leg msg = some a)
    (hb : (t.sceneApplied m leg msg).1.get msg.activationId = some b) (hlag : b.lagging m = true) :
    b.input ≠ .allowed := by
  simp only [ActivationTable.sceneApplied, ha] at hb
  rw [get_modify, if_pos rfl, ackTarget_get ha] at hb
  obtain rfl := some.inj hb
  unfold Activation.sceneApplied at hlag ⊢
  dsimp only at hlag ⊢
  split at hlag
  · next hdue =>
    rw [if_pos hdue]
    exact not_allowed_of_lagging m hlag
  · next hnot =>
    rw [if_neg hnot]
    exact not_allowed_of_lagging m hlag

/-! ## The bound -/

theorem Agrees.lagging (h : Agrees a log) (m : Moment) :
    a.lagging m = true ↔ ∃ u, log.oldest a = some u ∧
      fromMillis inputLagSuspendMs < m.instant - u.countedFrom := by
  rw [Activation.lagging, h.front]
  cases log.oldest a with
  | none => simp
  | some u => simp

theorem oldest_none (hall : ∀ u ∈ log.current a, log.covers u.stamp = true) :
    log.oldest a = none := by
  rw [LagLog.oldest, List.find?_eq_none]
  intro u hu
  rw [hall u hu]
  exact Bool.false_ne_true

/-- In every run the ledger stays within its bound, and no recompute leaves a lagging
activation allowed, a tick's and an acknowledgement's among them.  Along a timely run an activation
lags just while the oldest unit of its lineage that is not acknowledged is older than the
bound, and never once all are. -/
theorem lag_bound {s : LagRun} (h : (machine cellBootId).Reachable s) :
    (∀ x a, s.table.get x = some a → a.unacked.length ≤ unackedUnitsCap) ∧
      (∀ (a : Activation) m, a.lagging m = true → (a.recomputeInput m).input ≠ .allowed) ∧
      (∀ m x a, (s.table.tick m).1.get x = some a → a.lagging m = true → a.input ≠ .allowed) ∧
      (∀ m leg msg a b, s.table.ackTarget leg msg = some a →
        (s.table.sceneApplied m leg msg).1.get msg.activationId = some b →
        b.lagging m = true → b.input ≠ .allowed) ∧
      ((machine cellBootId).Reaches Timely s → ∀ x a m, s.table.get x = some a →
        (a.lagging m = true ↔ ∃ u, (s.log x).oldest a = some u ∧
          fromMillis inputLagSuspendMs < m.instant - u.countedFrom) ∧
        ((∀ u ∈ (s.log x).current a, (s.log x).covers u.stamp = true) →
          a.lagging m = false)) := by
  refine ⟨unacked_bounded (table_reachable h), fun a m => not_allowed_of_lagging m,
    fun m x a => tick_not_allowed, fun m leg msg a b => sceneApplied_not_allowed, fun hr x a m ha => ?_⟩
  have hagrees := agrees_of_reaches hr x a ha
  refine ⟨hagrees.lagging m, fun hall => ?_⟩
  rw [Bool.eq_false_iff, ne_eq, hagrees.lagging m, oldest_none hall]
  rintro ⟨u, hu, -⟩
  cases hu

end LagRun

/-! ## A late report, and a full ledger -/

namespace Sample

def late : Moment := { moment with instant := fromMillis (inputLagSuspendMs + 1) }

def unitReported (m : Moment) (revision : Nat) : SceneCall where
  moment := m
  op := .unitSent "a" revision false
  lineage := lineage 1

def unitAt (m : Moment) (counted : Instant) (revision : Nat) : SentUnit where
  stamp := { sceneEpoch := lineage 1, sceneRevision := revision }
  sentAt := m.instant
  countedFrom := counted

def appliedThrough (m : Moment) (revision : Nat) : SceneCall where
  moment := m
  op := .sceneApplied (leg 2)
    { sessionId := "s1"
      activationId := "a"
      appliedContent := { sceneEpoch := lineage 1, sceneRevision := revision } }
  lineage := lineage 1

def attached : List SceneCall :=
  [sceneCall (.attachControl (attach 1 "s1" "a" none)),
    sceneCall (.attachFrames (attachFrames 2 "s1" "a" 1)),
    sceneCall (.viewAttached "a" "a" 1)]

end Sample

namespace LagRun

open Sample

variable {a : Activation} {log : LagLog}

theorem lag_bound_waiting :
    ∃ s : LagRun, (s.table.get "a").isSome = true ∧ ∀ a, s.table.get "a" = some a →
      a.unacked.length ≤ unackedUnitsCap ∧ (a.lagging late = true ↔
        ∃ u, (s.log "a").oldest a = some u ∧
          fromMillis inputLagSuspendMs < late.instant - u.countedFrom) := by
  obtain ⟨s, hreach, hp⟩ := Machine.exists_of_orderly_run (M := machine "boot") Timely
    (fun s => (s.table.get "a").isSome)
    (attached ++ [unitReported moment 1, appliedThrough moment 1, unitReported moment 2])
    (by decide)
  have hbound := lag_bound hreach.reachable
  exact ⟨s, hp, fun a ha => ⟨hbound.1 "a" a ha, (hbound.2.2.2.2 hreach "a" a late ha).1⟩⟩

/-- A timely run of the small cell, with its activation and log. -/
structure Sends (s : LagRun) (a : Activation) (log : LagLog) : Prop where
  reaches : (machine "boot").Reaches Timely s
  get : s.table.get "a" = some a
  logged : s.log "a" = log
  epoch : a.sceneEpoch = some (lineage 1)
  frames : (a.frames.any fun f => f.connectionId == 2) = true
  session : a.sessionId = "s1"

theorem Sends.report {s : LagRun} (h : Sends s a log) (m : Moment) (revision : Nat)
    (hnot : log.covers { sceneEpoch := lineage 1, sceneRevision := revision } = false) :
    Sends (s.apply (unitReported m revision)) (a.unitSent m revision false)
      (log.sent a m { sceneEpoch := lineage 1, sceneRevision := revision }) := by
  have hget : (s.table.apply m (.unitSent "a" revision false)).1.get "a" =
      some (a.unitSent m revision false) := by
    change (s.table.unitSent m "a" revision false).1.get "a" = _
    rw [ActivationTable.unitSent, get_modify, if_pos rfl, h.get]
    rfl
  refine ⟨?_, hget, ?_, h.epoch, h.frames, h.session⟩
  · refine h.reaches.next (e := unitReported m revision) ?_ rfl
    have htimely : a.sceneEpoch = some (lineage 1) ∧ (s.log "a").covers
        { sceneEpoch := lineage 1, sceneRevision := revision } = false :=
      ⟨h.epoch, h.logged ▸ hnot⟩
    simpa only [Timely, unitReported, h.get] using htimely
  · simp only [apply, unitReported, hget, isSome_some, if_true, LagLog.after, h.get,
      h.logged, filter_some, beq_self_eq_true]

theorem Sends.acknowledge {s : LagRun} (h : Sends s a log) (m : Moment) (revision : Nat) :
    Sends (s.apply (appliedThrough m revision))
      (a.sceneApplied m { sceneEpoch := lineage 1, sceneRevision := revision })
      { log with
        applied := { sceneEpoch := lineage 1, sceneRevision := revision } :: log.applied } := by
  have htarget : s.table.ackTarget (leg 2)
      { sessionId := "s1"
        activationId := "a"
        appliedContent := { sceneEpoch := lineage 1, sceneRevision := revision } } = some a := by
    simp only [ackTarget, h.get, filter_some, leg, h.frames, h.session,
      beq_self_eq_true, Bool.and_self, if_true]
  have hget : (s.table.apply m (appliedThrough m revision).op).1.get "a" =
      some (a.sceneApplied m { sceneEpoch := lineage 1, sceneRevision := revision }) := by
    change (s.table.sceneApplied m (leg 2) _).1.get "a" = _
    simp only [ActivationTable.sceneApplied, htarget]
    rw [get_modify, if_pos rfl, h.get]
    rfl
  have hsame : (a.sceneApplied m { sceneEpoch := lineage 1, sceneRevision := revision }).sceneEpoch
        = a.sceneEpoch ∧
      (a.sceneApplied m { sceneEpoch := lineage 1, sceneRevision := revision }).frames = a.frames ∧
      (a.sceneApplied m { sceneEpoch := lineage 1, sceneRevision := revision }).sessionId =
        a.sessionId := by
    unfold Activation.sceneApplied
    dsimp only
    split <;> exact ⟨rfl, rfl, rfl⟩
  refine ⟨h.reaches.next (e := appliedThrough m revision) trivial rfl, hget, ?_,
    hsame.1.trans h.epoch, hsame.2.1 ▸ h.frames, hsame.2.2.trans h.session⟩
  have hlog : (s.log "a").after s.table "a" (appliedThrough m revision) =
      { log with
        applied := { sceneEpoch := lineage 1, sceneRevision := revision } :: log.applied } := by
    simp only [LagLog.after, appliedThrough, htarget, filter_some, beq_self_eq_true,
      if_true, h.logged]
  rw [← hlog]
  simp only [apply]
  exact if_pos (by rw [show (appliedThrough m revision).moment = m from rfl, hget]; rfl)

theorem Sends.length {s : LagRun} {units : List SentUnit} (h : Sends s a { units := units }) :
    a.unacked.length = units.length := by
  obtain ⟨gone, rest, hk⟩ := agrees_of_reaches h.reaches "a" a h.get
  rw [h.logged] at hk
  have hgone : gone = [] := by
    rw [eq_nil_iff_forall_not_mem]
    intro u hu
    cases hk.covered u hu
  have hunits : units = rest := by simpa [hgone] using hk.units
  rw [← hk.ledger, length_map, hunits]

theorem sends_many (n : Nat) (hn : n ≤ unackedUnitsCap) :
    ∃ s a, Sends s a { units := (List.range' 1 n).map (unitAt moment 0) } := by
  induction n with
  | zero =>
    obtain ⟨s, hreach, hp⟩ := Machine.exists_of_orderly_run (M := machine "boot") Timely
      (fun s : LagRun => (s.table.get "a").any fun a : Activation =>
        decide (s.log "a" = {} ∧ a.sceneEpoch = some (lineage 1) ∧
          (a.frames.any fun f => f.connectionId == 2) = true ∧ a.sessionId = "s1"))
      attached (by decide)
    obtain ⟨a, ha, hp⟩ := (Option.any_eq_true _ _).mp hp
    obtain ⟨hlog, hepoch, hframes, hsession⟩ := of_decide_eq_true hp
    exact ⟨s, a, hreach, ha, hlog, hepoch, hframes, hsession⟩
  | succ n ih =>
    obtain ⟨s, a, h⟩ := ih (Nat.le_of_succ_le hn)
    have hlength : a.unacked.length = n := by simpa using h.length
    have hnot : ¬ a.unacked.length ≥ unackedUnitsCap := by omega
    have hreport := h.report moment (n + 1) rfl
    have hsent : LagLog.sent { units := (List.range' 1 n).map (unitAt moment 0) } a moment
        { sceneEpoch := lineage 1, sceneRevision := n + 1 } =
        { units := (List.range' 1 (n + 1)).map (unitAt moment 0) } := by
      simp [LagLog.sent, hnot, range'_concat, unitAt, moment, Nat.add_comm]
    rw [hsent] at hreport
    exact ⟨_, _, hreport⟩

theorem oldest_absorbed (hepoch : a.sceneEpoch = some (lineage 1)) (n : Nat) :
    LagLog.oldest
      { units := (List.range' 1 n).map (unitAt moment 0) ++ [unitAt late 0 (n + 2)]
        applied := [{ sceneEpoch := lineage 1, sceneRevision := n + 1 }] } a =
      some (unitAt late 0 (n + 2)) := by
  have hcovers : ∀ m counted revision, LagLog.covers
      { units := (List.range' 1 n).map (unitAt moment 0) ++ [unitAt late 0 (n + 2)]
        applied := [{ sceneEpoch := lineage 1, sceneRevision := n + 1 }] }
      (unitAt m counted revision).stamp = decide (revision ≤ n + 1) := by
    intro m counted revision
    simp [LagLog.covers, SceneContentStamp.atOrPast_iff, unitAt]
  have hcurrent : ∀ u ∈ (List.range' 1 n).map (unitAt moment 0) ++ [unitAt late 0 (n + 2)],
      a.sceneEpoch = some u.stamp.sceneEpoch := by
    intro u hu
    rw [hepoch]
    rcases mem_snoc.mp hu with hu | hu
    · obtain ⟨revision, -, rfl⟩ := List.mem_map.mp hu
      rfl
    · rw [hu]
      rfl
  have hbefore : ((List.range' 1 n).map (unitAt moment 0)).find? (fun u => !LagLog.covers
      { units := (List.range' 1 n).map (unitAt moment 0) ++ [unitAt late 0 (n + 2)]
        applied := [{ sceneEpoch := lineage 1, sceneRevision := n + 1 }] } u.stamp) = none := by
    rw [List.find?_eq_none]
    intro u hu
    obtain ⟨revision, hrevision, rfl⟩ := List.mem_map.mp hu
    rw [mem_range'_1] at hrevision
    rw [hcovers, decide_eq_true (by omega)]
    exact Bool.false_ne_true
  rw [LagLog.oldest, LagLog.current, filter_eq_self.mpr fun u hu =>
    decide_eq_true (hcurrent u hu), List.find?_append, hbefore, none_or,
    List.find?_cons_of_pos (by rw [hcovers, decide_eq_false (by omega)]; rfl)]

theorem absorbed (n : Nat) (hn : n + 1 = unackedUnitsCap) :
    ∃ s a u, (machine "boot").Reaches Timely s ∧ s.table.get "a" = some a ∧
      (s.log "a").oldest a = some u ∧ u.sentAt = late.instant ∧ a.lagging late = true := by
  obtain ⟨s, a, h⟩ := sends_many (n + 1) (Nat.le_of_eq hn)
  have hfull : a.unacked.length ≥ unackedUnitsCap := by
    rw [h.length, length_map, length_range', hn]
  have hreport := h.report late (n + 2) rfl
  have hsent : LagLog.sent { units := (List.range' 1 (n + 1)).map (unitAt moment 0) } a late
      { sceneEpoch := lineage 1, sceneRevision := n + 2 } =
      { units := (List.range' 1 n).map (unitAt moment 0) ++ [unitAt late 0 (n + 2)] } := by
    simp [LagLog.sent, hfull, range'_concat, unitAt]
    rfl
  rw [hsent] at hreport
  have hack := hreport.acknowledge late (n + 1)
  have holdest := oldest_absorbed hack.epoch n
  have hlag : ((a.unitSent late (n + 2) false).sceneApplied late
      { sceneEpoch := lineage 1, sceneRevision := n + 1 }).lagging late = true := by
    rw [(agrees_of_reaches hack.reaches "a" _ hack.get).lagging late, hack.logged]
    have hage : fromMillis inputLagSuspendMs < late.instant := by decide
    exact ⟨_, holdest, hage⟩
  exact ⟨_, _, _, hack.reaches, hack.get, hack.logged ▸ holdest, rfl, hlag⟩

/-- A late report of the first lineage's pump has an activation of the second lag, where
nothing of the second was sent.  And a unit that a full ledger absorbed has it lag where
the oldest unit not acknowledged is young. -/
theorem lag_overstated :
    (∃ s a, (machine "boot").Reachable s ∧ s.table.get "a" = some a ∧
      (s.log "a").current a = [] ∧ a.lagging late = true) ∧
    ∃ s a u, (machine "boot").Reaches Timely s ∧ s.table.get "a" = some a ∧
      (s.log "a").oldest a = some u ∧ u.sentAt = late.instant ∧ a.lagging late = true := by
  refine ⟨?_, absorbed 1023 rfl⟩
  obtain ⟨s, hreach, hp⟩ := Machine.exists_of_run (M := machine "boot")
    (fun s => (s.table.get "a").any fun a =>
      decide ((s.log "a").current a = [] ∧ a.lagging late = true))
    (attached ++ [lineageMoves, unitReported moment 7]) (by decide)
  obtain ⟨a, ha, hp⟩ := (Option.any_eq_true _ _).mp hp
  obtain ⟨hcurrent, hlag⟩ := of_decide_eq_true hp
  exact ⟨s, a, hreach, ha, hcurrent, hlag⟩

end LagRun
end VibeField.Tp
