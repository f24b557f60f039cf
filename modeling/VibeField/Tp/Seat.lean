import VibeField.Tp.Seated

/-!
# The seat, verb by verb

A geometry verb is a precheck, an engine call and a finalization, and the session's gate
keeps the other verbs of the session out from the first to the last.  Any other call may
come between them.  A `VerbRun` keeps the verb each session has in flight and every
holder generation a claim was answered with.
-/

namespace VibeField.Tp

open List Option ActivationTable

def GeometryOutcome.answers : GeometryOutcome → GeometryOp → Bool
  | .claimed _ _ _, .claim _ _ => true
  | .resized c r, .resize _ _ cols rows => c == cols && r == rows
  | .engineRefused, _ => true
  | _, _ => false

/-- The revision never goes back and tells every change of holder, and of size unless the
size was only recorded. -/
structure GeometryLease.Moves (l l' : GeometryLease) (recordsOnly : Prop) : Prop where
  revision : l.revision ≤ l'.revision
  holder : l'.holder ≠ l.holder → l.revision < l'.revision
  committed : l'.committed ≠ l.committed → l.revision < l'.revision ∨ recordsOnly

/-- A verb between its precheck and its finalization. -/
structure Verb where
  leg : LegRef
  expectRevision : Nat
  orders : GeometryProceed

inductive SeatCall where
  | claim (leg : LegRef) (msg : ClaimGeometry)
  | transfer (leg : LegRef) (msg : TransferGeometry)
  | outcome (sessionId : SessionId) (outcome : GeometryOutcome)
  | other (op : Op)

structure VerbRun where
  table : ActivationTable
  verbs : SessionId → Option Verb
  /-- the generations claims were answered with, newest first -/
  issued : List (SessionId × Nat)

namespace VerbRun

def minted (s : SessionId) (outcome : GeometryOutcome) (es : List Effect) :
    List (SessionId × Nat) :=
  match outcome with
  | .claimed _ _ _ =>
    es.filterMap fun e =>
      match e with
      | .send _ (.geometryCommitted body) => some (s, body.holder.holderGeneration)
      | _ => none
  | _ => []

def started (s : VerbRun) (session : SessionId) (leg : LegRef) (expectRevision : Nat)
    (r : ActivationTable × GeometryDecision) : VerbRun :=
  match r.2 with
  | .refuse _ => { s with table := r.1 }
  | .proceed orders =>
    { s with
      table := r.1
      verbs := fun other =>
        if other = session then
          some { leg := leg, expectRevision := expectRevision, orders := orders }
        else
          s.verbs other }

def finished (s : VerbRun) (m : Moment) (session : SessionId) (v : Verb)
    (outcome : GeometryOutcome) : VerbRun :=
  let r := s.table.geometryFinalize v.leg v.orders outcome m.nowMs
  { table := r.1
    verbs := fun other => if other = session then none else s.verbs other
    issued := minted session outcome r.2 ++ s.issued }

def gated : Op → Bool
  | .claimGeometry _ _ | .transferGeometry _ _ | .geometryFinalize _ _ _ => true
  | _ => false

def next (s : VerbRun) (m : Moment) : SeatCall → Option VerbRun
  | .claim leg msg =>
    if (s.verbs msg.sessionId).isSome then none
    else
      some (s.started msg.sessionId leg msg.expectRevision
        (s.table.claimGeometry leg msg m.nowMs))
  | .transfer leg msg =>
    if (s.verbs msg.sessionId).isSome then none
    else
      some (s.started msg.sessionId leg msg.expectRevision
        (s.table.transferGeometry leg msg m.nowMs))
  | .outcome session outcome =>
    (s.verbs session).bind fun v =>
      if outcome.answers v.orders.op then some (s.finished m session v outcome) else none
  | .other op => if gated op then none else some { s with table := (s.table.apply m op).1 }

def machine (cellBootId : String) : Machine VerbRun (Moment × SeatCall) where
  start := { table := .new cellBootId, verbs := fun _ => none, issued := [] }
  next s e := s.next e.1 e.2

/-- The two finalizations that record a size at the revision they found: of a verb the
seat moved under, and of a claim on an empty seat whose destination lapsed. -/
def RecordsOnly (s : VerbRun) (m : Moment) (session : SessionId) (call : SeatCall) : Prop :=
  ∃ outcome v, call = .outcome session outcome ∧ s.verbs session = some v ∧
    (v.expectRevision ≠ (s.table.lease session).revision ∨
      ((s.table.lease session).holder = none ∧
        s.table.destinationLive v.orders m.nowMs = false))

/-- What every reachable seat is, and how every call moves it. -/
structure SeatLaw (s : VerbRun) : Prop where
  one : ∀ session x y, s.table.holdsSeat session x = true → s.table.holdsSeat session y = true →
    x = y
  seated : s.table.Seated
  issued : s.issued.Nodup
  held : ∀ session r, (s.table.lease session).holder = some r →
    (session, r.holderGeneration) ∈ s.issued
  moves : ∀ m call u, s.next m call = some u → ∀ session,
    (s.table.lease session).Moves (u.table.lease session) (s.RecordsOnly m session call)
  stale : ∀ m session outcome v u, s.next m (.outcome session outcome) = some u →
    s.verbs session = some v → v.expectRevision ≠ (s.table.lease session).revision →
      ∀ other, (u.table.lease other).holder = (s.table.lease other).holder ∧
        (u.table.lease other).revision = (s.table.lease other).revision

end VerbRun

/-! ## How a verb ends -/

/-- The ways an answered verb leaves the lease `l` it found, its size recorded. -/
inductive CommitEnd (l : GeometryLease) (leg : LegRef) (proceed : GeometryProceed) (live : Bool) :
    GeometryOutcome → GeometryLease × List Effect → Prop
  | stale (outcome : GeometryOutcome) (hstale : l.revision ≠ proceed.baseRevision) :
      CommitEnd l leg proceed live outcome (l, l.refuseWithSeat leg "STALE_REVISION")
  | refused (hbase : l.revision = proceed.baseRevision) :
      CommitEnd l leg proceed live .engineRefused (l, l.refuseWithSeat leg "VIEW_SUPERSEDED")
  | lapsed (outcome : GeometryOutcome) (hbase : l.revision = proceed.baseRevision)
      (hlive : live = false) (hheld : l.holder.isSome = true) :
      CommitEnd l leg proceed live outcome
        (l.vacate, geometryRefuse leg "DESTINATION_INELIGIBLE" none (some l.vacate.revision))
  | empty (outcome : GeometryOutcome) (hbase : l.revision = proceed.baseRevision)
      (hlive : live = false) (hnone : l.holder = none) :
      CommitEnd l leg proceed live outcome
        (l, geometryRefuse leg "DESTINATION_INELIGIBLE" none (some l.revision))
  | claimed (epoch cols rows : Nat) (hbase : l.revision = proceed.baseRevision)
      (hlive : live = true) (reply : GeometryCommitted)
      (hreply : reply.holder.holderGeneration = l.nextGeneration + 1) :
      CommitEnd l leg proceed live (.claimed epoch cols rows)
        (l.seat proceed epoch, [.send leg (.geometryCommitted reply)])
  | resized (cols rows : Nat) (hbase : l.revision = proceed.baseRevision) (hlive : live = true)
      (h : HolderRecord) (hholder : l.holder = some h) (es : List Effect) :
      CommitEnd l leg proceed live (.resized cols rows) (l.countResize h, es)
  | gone (cols rows : Nat) (hbase : l.revision = proceed.baseRevision) (hnone : l.holder = none)
      (es : List Effect) : CommitEnd l leg proceed live (.resized cols rows) (l, es)

theorem commitLease_end (l : GeometryLease) (leg : LegRef) (proceed : GeometryProceed)
    (outcome : GeometryOutcome) (live : Bool) :
    CommitEnd l leg proceed live outcome (l.commitLease leg proceed outcome live) := by
  have hlapsed : l.revision = proceed.baseRevision → live = false →
      CommitEnd l leg proceed live outcome (l.refuseLapsed leg) := by
    intro hbase hlive
    unfold GeometryLease.refuseLapsed
    by_cases hheld : l.holder.isSome = true
    · rw [if_pos hheld]
      exact .lapsed outcome hbase hlive hheld
    · rw [if_neg hheld]
      exact .empty outcome hbase hlive (by simpa using hheld)
  unfold GeometryLease.commitLease
  split
  · next hstale => exact .stale outcome hstale
  · next hbase =>
    have hbase := not_not.mp hbase
    split
    · exact .refused hbase
    · split
      · next hnot => exact hlapsed hbase (by simpa using hnot)
      · next hlive => exact .claimed _ _ _ hbase (by simpa using hlive) _ rfl
    · split
      · next hnot => exact hlapsed hbase (by simpa using hnot)
      · next hlive =>
        split
        · next hnone => exact .gone _ _ hbase hnone _
        · next h hholder => exact .resized _ _ hbase (by simpa using hlive) h hholder _

namespace CommitEnd

variable {l : GeometryLease} {leg : LegRef} {proceed : GeometryProceed} {live : Bool}
  {outcome : GeometryOutcome} {r : GeometryLease × List Effect}

theorem moves (h : CommitEnd (l.recordSize outcome) leg proceed live outcome r)
    (hholder : l.revision = proceed.baseRevision →
      ∀ cols rows, outcome = .resized cols rows → l.holder.isSome = true) :
    l.Moves r.1 (proceed.baseRevision ≠ l.revision ∨ (l.holder = none ∧ live = false)) := by
  cases h with
  | stale _ hstale =>
    exact ⟨Nat.le_refl _, fun hne => absurd rfl hne, fun _ => .inr (.inl (Ne.symm hstale))⟩
  | refused =>
    exact ⟨Nat.le_refl _, fun hne => absurd rfl hne, fun hne => absurd rfl hne⟩
  | empty _ _ hlive hnone =>
    exact ⟨Nat.le_refl _, fun hne => absurd rfl hne, fun _ => .inr (.inr ⟨hnone, hlive⟩)⟩
  | lapsed | claimed | resized =>
    exact ⟨Nat.le_succ _, fun _ => Nat.lt_succ_self _, fun _ => .inl (Nat.lt_succ_self _)⟩
  | gone cols rows hbase hnone =>
    have hsome := hholder hbase cols rows rfl
    have hnone : l.holder = none := hnone
    rw [hnone] at hsome
    cases hsome

theorem of_stale (h : CommitEnd (l.recordSize outcome) leg proceed live outcome r)
    (hstale : proceed.baseRevision ≠ l.revision) :
    r.1.holder = l.holder ∧ r.1.revision = l.revision := by
  cases h with
  | stale | refused | empty | gone => exact ⟨rfl, rfl⟩
  | lapsed _ hbase | claimed _ _ _ hbase | resized _ _ hbase => exact absurd hbase.symm hstale

theorem holder (h : CommitEnd (l.recordSize outcome) leg proceed live outcome r)
    {record : HolderRecord} (hr : r.1.holder = some record) :
    (∃ h, l.holder = some h ∧ record.clientId = h.clientId ∧
      record.activationId = h.activationId ∧ record.holderGeneration = h.holderGeneration) ∨
    (live = true ∧ record.clientId = proceed.clientId ∧
      record.activationId = proceed.ghostteaViewId) := by
  cases h with
  | stale | refused | empty | gone => exact .inl ⟨record, hr, rfl, rfl, rfl⟩
  | lapsed => cases hr
  | claimed _ _ _ _ hlive =>
    obtain rfl := some.inj hr
    exact .inr ⟨hlive, rfl, rfl⟩
  | resized _ _ _ _ h hholder =>
    obtain rfl := some.inj hr
    exact .inl ⟨h, hholder, rfl, rfl, rfl⟩

theorem issues (h : CommitEnd (l.recordSize outcome) leg proceed live outcome r) (s : SessionId) :
    (VerbRun.minted s outcome r.2 = [] ∧ r.1.nextGeneration = l.nextGeneration ∧
      ∀ record, r.1.holder = some record → ∃ h, l.holder = some h ∧
        record.holderGeneration = h.holderGeneration) ∨
    (VerbRun.minted s outcome r.2 = [(s, l.nextGeneration + 1)] ∧
      r.1.nextGeneration = l.nextGeneration + 1 ∧
      ∀ record, r.1.holder = some record → record.holderGeneration = l.nextGeneration + 1) := by
  cases h with
  | stale | empty =>
    refine .inl ⟨?_, rfl, fun record hr => ⟨record, hr, rfl⟩⟩
    cases outcome <;> rfl
  | refused | gone => exact .inl ⟨rfl, rfl, fun record hr => ⟨record, hr, rfl⟩⟩
  | lapsed =>
    refine .inl ⟨?_, rfl, fun record hr => by cases hr⟩
    cases outcome <;> rfl
  | claimed _ _ _ _ _ reply hreply =>
    refine .inr ⟨?_, rfl, fun record hr => ?_⟩
    · exact congrArg (fun g => [(s, g)]) hreply
    · obtain rfl := some.inj hr
      rfl
  | resized _ _ _ _ h hholder =>
    refine .inl ⟨rfl, rfl, fun record hr => ⟨h, hholder, ?_⟩⟩
    obtain rfl := some.inj hr
    rfl

end CommitEnd

namespace ActivationTable

variable {t : ActivationTable} {leg : LegRef} {proceed : GeometryProceed}
  {outcome : GeometryOutcome} {nowMs : Nat}

theorem lease_finalize (t : ActivationTable) (leg : LegRef) (proceed : GeometryProceed)
    (outcome : GeometryOutcome) (nowMs : Nat) (s : SessionId) :
    (t.geometryFinalize leg proceed outcome nowMs).1.lease s =
      if s = proceed.sessionId then
        (((t.lease proceed.sessionId).recordSize outcome).commitLease leg proceed outcome
          (t.destinationLive proceed nowMs)).1
      else t.lease s := by
  rw [← lease_setLease]
  simp only [geometryFinalize]
  split <;> rfl

theorem minted_announcements (t : ActivationTable) (s s' : SessionId) (outcome : GeometryOutcome)
    (es : List Effect) :
    VerbRun.minted s outcome (es ++ t.seatAnnouncements s') = VerbRun.minted s outcome es := by
  unfold VerbRun.minted
  split
  · rw [filterMap_append]
    refine (congrArg _ (filterMap_eq_nil_iff.mpr fun e he => ?_)).trans (append_nil _)
    unfold seatAnnouncements at he
    split at he
    · cases he
    · obtain ⟨a, -, rfl⟩ := List.mem_map.mp he
      rfl
  · rfl

theorem minted_finalize (t : ActivationTable) (leg : LegRef) (proceed : GeometryProceed)
    (outcome : GeometryOutcome) (nowMs : Nat) (s : SessionId) :
    VerbRun.minted s outcome (t.geometryFinalize leg proceed outcome nowMs).2 =
      VerbRun.minted s outcome (((t.lease proceed.sessionId).recordSize outcome).commitLease leg
        proceed outcome (t.destinationLive proceed nowMs)).2 := by
  simp only [geometryFinalize]
  split
  · rfl
  · exact minted_announcements _ _ _ _ _

theorem sits_of_destinationLive (h : t.destinationLive proceed nowMs = true)
    {record : HolderRecord} (hclient : record.clientId = proceed.clientId)
    (hactivation : record.activationId = proceed.ghostteaViewId) :
    ∃ a, t.get record.activationId = some a ∧ Sits a proceed.sessionId record := by
  obtain ⟨a, ha, hlive⟩ := (Option.any_eq_true _ _).mp h
  simp only [Bool.and_eq_true, beq_iff_eq] at hlive
  obtain ⟨⟨⟨⟨hc, hs⟩, hright⟩, -⟩, hview⟩ := hlive
  exact ⟨a, hactivation ▸ ha, hc.trans hclient.symm, hs, by rw [hview]; exact some_ne_none _,
    hright⟩

/-- What a precheck that authorizes a verb leaves behind. -/
structure Prechecked (u : ActivationTable) (session : SessionId) (expectRevision : Nat)
    (orders : GeometryProceed) : Prop where
  names : orders.sessionId = session
  base : orders.baseRevision = expectRevision
  revision : (u.lease session).revision = expectRevision
  resizes : ∀ epoch sequence cols rows, orders.op = .resize epoch sequence cols rows →
    (u.lease session).holder.isSome = true

theorem claim_prechecked {msg : ClaimGeometry} {orders : GeometryProceed}
    (h : (t.claimGeometry leg msg nowMs).2 = .proceed orders) :
    Prechecked (t.claimGeometry leg msg nowMs).1 msg.sessionId msg.expectRevision orders := by
  have hlease := lease_claim t leg msg nowMs msg.sessionId
  have hspec : orders.sessionId = msg.sessionId ∧ orders.baseRevision = msg.expectRevision ∧
      (t.lease msg.sessionId).revision = msg.expectRevision ∧
      orders.op = (t.lease msg.sessionId).claimOp msg := by
    rw [claimGeometry] at h
    split at h
    · cases h
    · split at h
      · cases h
      · split at h
        · cases h
        · dsimp only at h
          split at h
          · cases h
          · next hrevision =>
            have hrevision := not_not.mp hrevision
            split at h
            · cases h
            · cases h
              exact ⟨rfl, hrevision.symm, hrevision.symm, rfl⟩
  obtain ⟨hnames, hbase, hrevision, hop⟩ := hspec
  refine ⟨hnames, hbase, by rw [hlease]; exact hrevision,
    fun epoch sequence cols rows hresize => ?_⟩
  rw [hlease]
  rw [hop, GeometryLease.claimOp] at hresize
  split at hresize
  · next own hown =>
    have hholder := (filter_eq_some_iff.mp hown).1
    rw [hholder]
    rfl
  · cases hresize

theorem transfer_prechecked {msg : TransferGeometry} {orders : GeometryProceed}
    (h : (t.transferGeometry leg msg nowMs).2 = .proceed orders) :
    Prechecked (t.transferGeometry leg msg nowMs).1 msg.sessionId msg.expectRevision orders := by
  have hlease := lease_transfer t leg msg nowMs msg.sessionId
  have hspec : orders.sessionId = msg.sessionId ∧ orders.baseRevision = msg.expectRevision ∧
      (t.lease msg.sessionId).revision = msg.expectRevision ∧
      orders.op = .claim msg.cols msg.rows := by
    rw [transferGeometry] at h
    split at h
    · cases h
    · split at h
      · cases h
      · split at h
        · cases h
        · dsimp only at h
          split at h
          · cases h
          · split at h
            · cases h
            · next hrevision =>
              have hrevision := not_not.mp hrevision
              cases h
              exact ⟨rfl, hrevision.symm, hrevision.symm, rfl⟩
  obtain ⟨hnames, hbase, hrevision, hop⟩ := hspec
  refine ⟨hnames, hbase, by rw [hlease]; exact hrevision,
    fun epoch sequence cols rows hresize => ?_⟩
  rw [hop] at hresize
  cases hresize

end ActivationTable

namespace VerbRun

variable {s u : VerbRun} {m : Moment} {call : SeatCall} {cellBootId : String}

/-! ## What a run keeps -/

/-- A verb in flight: the seat has not gone back behind it, and a resize whose seat has
not moved still has its holder. -/
structure InFlight (t : ActivationTable) (session : SessionId) (v : Verb) : Prop where
  names : v.orders.sessionId = session
  base : v.orders.baseRevision = v.expectRevision
  revision : v.expectRevision ≤ (t.lease session).revision
  resizes : ∀ epoch sequence cols rows, v.orders.op = .resize epoch sequence cols rows →
    (t.lease session).revision = v.expectRevision → (t.lease session).holder.isSome = true

variable {session : SessionId}

theorem InFlight.yields {t t' : ActivationTable} {v : Verb}
    (h : InFlight t session v) (hy : (t.lease session).Yields (t'.lease session)) :
    InFlight t' session v := by
  refine ⟨h.names, h.base, Nat.le_trans h.revision hy.revision_le, fun e q c r hop hsame => ?_⟩
  rcases hy with hkept | ⟨-, hleft⟩
  · rw [hkept] at hsame ⊢
    exact h.resizes e q c r hop hsame
  · have hstep : (t'.lease session).revision = (t.lease session).revision + 1 := by rw [hleft]; rfl
    have hle := h.revision
    omega

structure Kept (s : VerbRun) : Prop where
  indexed : s.table.WellIndexed
  seated : s.table.Seated
  flight : ∀ session v, s.verbs session = some v → InFlight s.table session v
  bound : ∀ session g, (session, g) ∈ s.issued → g ≤ (s.table.lease session).nextGeneration
  issued : s.issued.Nodup
  held : ∀ session r, (s.table.lease session).holder = some r →
    (session, r.holderGeneration) ∈ s.issued

theorem Kept.yields (h : s.Kept) {t : ActivationTable} (hw : t.WellIndexed) (hs : t.Seated)
    (hy : ActivationTable.SeatsYield s.table t) : Kept { s with table := t } := by
  refine ⟨hw, hs, fun session v hv => (h.flight session v hv).yields (hy session),
    fun session g hg => ?_, h.issued, fun session r hr => ?_⟩
  · rw [(hy session).nextGeneration]
    exact h.bound session g hg
  · rw [(hy session).holder hr] at hr
    exact h.held session r hr

theorem Kept.started (h : s.Kept) {leg : LegRef} {expectRevision : Nat}
    {r : ActivationTable × GeometryDecision} (hw : r.1.WellIndexed) (hs : r.1.Seated)
    (hy : ActivationTable.SeatsYield s.table r.1)
    (hproceed : ∀ orders, r.2 = .proceed orders →
      ActivationTable.Prechecked r.1 session expectRevision orders) :
    (s.started session leg expectRevision r).Kept := by
  have hkept := h.yields hw hs hy
  unfold VerbRun.started
  split
  · exact hkept
  · next orders horders =>
    have hchecked := hproceed orders horders
    refine { hkept with flight := fun other v hv => ?_ }
    dsimp only at hv
    split at hv
    · next hother =>
      obtain rfl := some.inj hv
      subst hother
      exact ⟨hchecked.names, hchecked.base, Nat.le_of_eq hchecked.revision.symm,
        fun e q c r hop _ => hchecked.resizes e q c r hop⟩
    · exact hkept.flight other v hv

theorem InFlight.holder {t : ActivationTable} {v : Verb}
    {outcome : GeometryOutcome} (h : InFlight t session v)
    (hanswers : outcome.answers v.orders.op = true)
    (hsame : (t.lease session).revision = v.orders.baseRevision) (cols rows : Nat)
    (hresized : outcome = .resized cols rows) : (t.lease session).holder.isSome = true := by
  subst hresized
  cases hop : v.orders.op with
  | claim c r =>
    rw [hop] at hanswers
    cases hanswers
  | resize epoch sequence c r => exact h.resizes epoch sequence c r hop (hsame.trans h.base)

/-- What a finalization leaves: its own seat as the verb's end `r` says, the others and
the records as they were. -/
structure Finalized (s : VerbRun) (m : Moment) (session : SessionId) (v : Verb)
    (outcome : GeometryOutcome) (u : VerbRun) (r : GeometryLease × List Effect) : Prop where
  ends : CommitEnd ((s.table.lease session).recordSize outcome) v.leg v.orders
    (s.table.destinationLive v.orders m.nowMs) outcome r
  same : ActivationTable.SameIndexes s.table u.table
  lease : ∀ other, u.table.lease other = if other = session then r.1 else s.table.lease other
  verbs : ∀ other, u.verbs other = if other = session then none else s.verbs other
  issued : u.issued = minted session outcome r.2 ++ s.issued

theorem InFlight.finalized {v : Verb}
    (h : InFlight s.table session v) (outcome : GeometryOutcome) :
    Finalized s m session v outcome (s.finished m session v outcome)
      (((s.table.lease session).recordSize outcome).commitLease v.leg v.orders outcome
        (s.table.destinationLive v.orders m.nowMs)) := by
  have hlease := lease_finalize s.table v.leg v.orders outcome m.nowMs
  have hminted := minted_finalize s.table v.leg v.orders outcome m.nowMs session
  rw [h.names] at hlease hminted
  exact ⟨commitLease_end _ _ _ _ _,
    ActivationTable.WellIndexed.sameIndexes_finalize s.table v.leg v.orders outcome m.nowMs,
    hlease, fun _ => rfl, congrArg (· ++ s.issued) hminted⟩

namespace Finalized

variable {session : SessionId} {v : Verb} {outcome : GeometryOutcome}
  {r : GeometryLease × List Effect}

theorem own (h : Finalized s m session v outcome u r) : u.table.lease session = r.1 := by
  rw [h.lease, if_pos rfl]

theorem others (h : Finalized s m session v outcome u r) {other : SessionId}
    (hne : other ≠ session) : u.table.lease other = s.table.lease other := by
  rw [h.lease, if_neg hne]

theorem seated (h : Finalized s m session v outcome u r) (hs : s.table.Seated)
    (hnames : v.orders.sessionId = session) : u.table.Seated := by
  intro other record hr
  rw [h.same.get]
  by_cases hsession : other = session
  · subst hsession
    rw [h.own] at hr
    rcases h.ends.holder hr with ⟨k, hk, hclient, hactivation, -⟩ | ⟨hlive, hclient, hactivation⟩
    · obtain ⟨a, ha, hsits⟩ := hs other k hk
      exact ⟨a, hactivation ▸ ha, hsits.client.trans hclient.symm, hsits.session, hsits.view,
        hsits.right⟩
    · exact hnames ▸ sits_of_destinationLive hlive hclient hactivation
  · rw [h.others hsession] at hr
    exact hs other record hr

theorem issues (h : Finalized s m session v outcome u r) :
    (u.issued = s.issued ∧ r.1.nextGeneration = (s.table.lease session).nextGeneration ∧
      ∀ record, r.1.holder = some record → ∃ k, (s.table.lease session).holder = some k ∧
        record.holderGeneration = k.holderGeneration) ∨
    (u.issued = (session, r.1.nextGeneration) :: s.issued ∧
      r.1.nextGeneration = (s.table.lease session).nextGeneration + 1 ∧
      ∀ record, r.1.holder = some record → record.holderGeneration = r.1.nextGeneration) := by
  rw [h.issued]
  rcases h.ends.issues session with ⟨hnone, hnext, hkeeps⟩ | ⟨hone, hnext, hnew⟩
  · exact .inl ⟨by rw [hnone, nil_append], hnext, hkeeps⟩
  · exact .inr ⟨by rw [hone, hnext]; rfl, hnext, fun record hr => hnext ▸ hnew record hr⟩

theorem bound (h : Finalized s m session v outcome u r)
    (hs : ∀ other g, (other, g) ∈ s.issued → g ≤ (s.table.lease other).nextGeneration)
    (other : SessionId) (g : Nat) (hg : (other, g) ∈ u.issued) :
    g ≤ (u.table.lease other).nextGeneration := by
  by_cases hsession : other = session
  · subst hsession
    rw [h.own]
    rcases h.issues with ⟨hsame, hnext, -⟩ | ⟨hone, hnext, -⟩
    · rw [hsame] at hg
      rw [hnext]
      exact hs other g hg
    · rw [hone] at hg
      rcases mem_cons.mp hg with heq | hg
      · exact Nat.le_of_eq (Prod.mk.inj heq).2
      · rw [hnext]
        exact Nat.le_succ_of_le (hs other g hg)
  · rw [h.others hsession]
    rcases h.issues with ⟨hsame, -, -⟩ | ⟨hone, -, -⟩
    · rw [hsame] at hg
      exact hs other g hg
    · rw [hone] at hg
      rcases mem_cons.mp hg with heq | hg
      · exact absurd (Prod.mk.inj heq).1 hsession
      · exact hs other g hg

theorem nodup (h : Finalized s m session v outcome u r) (hs : s.issued.Nodup)
    (hbound : ∀ other g, (other, g) ∈ s.issued → g ≤ (s.table.lease other).nextGeneration) :
    u.issued.Nodup := by
  rcases h.issues with ⟨hsame, -, -⟩ | ⟨hone, hnext, -⟩
  · rw [hsame]
    exact hs
  · rw [hone, hnext]
    refine nodup_cons.mpr ⟨fun hmem => ?_, hs⟩
    have hle := hbound session _ hmem
    omega

theorem held (h : Finalized s m session v outcome u r)
    (hs : ∀ other k, (s.table.lease other).holder = some k →
      (other, k.holderGeneration) ∈ s.issued)
    (other : SessionId) (record : HolderRecord)
    (hr : (u.table.lease other).holder = some record) :
    (other, record.holderGeneration) ∈ u.issued := by
  have hgrows : s.issued ⊆ u.issued := by
    rw [h.issued]
    exact subset_append_right _ _
  by_cases hsession : other = session
  · subst hsession
    rw [h.own] at hr
    rcases h.issues with ⟨-, -, hkeeps⟩ | ⟨hone, -, hnew⟩
    · obtain ⟨k, hk, hgeneration⟩ := hkeeps record hr
      rw [hgeneration]
      exact hgrows (hs other k hk)
    · rw [hone, hnew record hr]
      exact mem_cons_self
  · rw [h.others hsession] at hr
    exact hgrows (hs other record hr)

end Finalized

theorem Kept.finished (h : s.Kept) {session : SessionId} {v : Verb}
    (hv : s.verbs session = some v) (outcome : GeometryOutcome) :
    (s.finished m session v outcome).Kept := by
  have hflight := h.flight session v hv
  have hfinal := hflight.finalized (m := m) outcome
  refine ⟨h.indexed.same hfinal.same, hfinal.seated h.seated hflight.names, fun other w hw => ?_,
    hfinal.bound h.bound, hfinal.nodup h.issued h.bound, hfinal.held h.held⟩
  rw [hfinal.verbs] at hw
  split at hw
  · cases hw
  · next hne =>
    refine (h.flight other w hw).yields ?_
    rw [hfinal.others hne]
    exact .refl _

theorem Kept.next (h : s.Kept) (hu : s.next m call = some u) : u.Kept := by
  cases call with
  | claim leg msg =>
    simp only [VerbRun.next] at hu
    split at hu
    · cases hu
    · obtain rfl := some.inj hu
      have hseated : (s.table.apply m (.claimGeometry leg msg)).1.Seated :=
        h.seated.apply h.indexed m rfl
      exact h.started (h.indexed.apply m (.claimGeometry leg msg)) hseated
        (.of_lease (lease_claim _ _ _ _))
        fun orders => claim_prechecked
  | transfer leg msg =>
    simp only [VerbRun.next] at hu
    split at hu
    · cases hu
    · obtain rfl := some.inj hu
      have hseated : (s.table.apply m (.transferGeometry leg msg)).1.Seated :=
        h.seated.apply h.indexed m rfl
      exact h.started (h.indexed.apply m (.transferGeometry leg msg)) hseated
        (.of_lease (lease_transfer _ _ _ _))
        fun orders => transfer_prechecked
  | outcome session outcome =>
    obtain ⟨v, hv, hu⟩ := bind_eq_some_iff.mp hu
    split at hu
    · obtain rfl := some.inj hu
      exact h.finished hv outcome
    · cases hu
  | other op =>
    simp only [VerbRun.next] at hu
    split at hu
    · cases hu
    · next hop =>
      obtain rfl := some.inj hu
      have hfinal : finalizes op = false := by
        cases op with
        | geometryFinalize => exact absurd rfl hop
        | _ => rfl
      exact h.yields (h.indexed.apply m op) (h.seated.apply h.indexed m hfinal)
        (seatsYield_apply _ m hfinal)

theorem kept_of_reachable (h : (machine cellBootId).Reachable s) : s.Kept := by
  refine h.invariant (P := Kept) ?_ fun s e u hs hnext => hs.next hnext
  exact ⟨.new cellBootId, .new cellBootId, (fun _ _ hv => by cases hv), (fun _ _ hg => by cases hg),
    .nil, fun _ _ hr => by cases hr⟩

theorem yields_next (hu : s.next m call = some u)
    (hcall : ∀ session outcome, call ≠ .outcome session outcome) :
    ActivationTable.SeatsYield s.table u.table := by
  have hstarted : ∀ session leg expectRevision (r : ActivationTable × GeometryDecision),
      (s.started session leg expectRevision r).table = r.1 := fun session leg e r => by
    unfold started
    split <;> rfl
  cases call with
  | claim leg msg =>
    simp only [VerbRun.next] at hu
    split at hu
    · cases hu
    · obtain rfl := some.inj hu
      rw [hstarted]
      exact .of_lease (lease_claim _ _ _ _)
  | transfer leg msg =>
    simp only [VerbRun.next] at hu
    split at hu
    · cases hu
    · obtain rfl := some.inj hu
      rw [hstarted]
      exact .of_lease (lease_transfer _ _ _ _)
  | outcome session outcome => exact absurd rfl (hcall session outcome)
  | other op =>
    simp only [VerbRun.next] at hu
    split at hu
    · cases hu
    · next hop =>
      obtain rfl := some.inj hu
      refine seatsYield_apply _ m ?_
      cases op with
      | geometryFinalize => exact absurd rfl hop
      | _ => rfl

theorem ends_next (h : s.Kept) {session : SessionId} {outcome : GeometryOutcome}
    (hu : s.next m (.outcome session outcome) = some u) :
    ∃ v r, s.verbs session = some v ∧ outcome.answers v.orders.op = true ∧
      Finalized s m session v outcome u r := by
  obtain ⟨v, hv, hu⟩ := bind_eq_some_iff.mp hu
  split at hu
  · next hanswers =>
    obtain rfl := some.inj hu
    exact ⟨v, _, hv, hanswers, (h.flight session v hv).finalized outcome⟩
  · cases hu

theorem moves_next (h : s.Kept) (hu : s.next m call = some u) (session : SessionId) :
    (s.table.lease session).Moves (u.table.lease session) (s.RecordsOnly m session call) := by
  have hyields : (s.table.lease session).Yields (u.table.lease session) →
      (s.table.lease session).Moves (u.table.lease session) (s.RecordsOnly m session call) :=
    fun hy => ⟨hy.revision_le, hy.holder_moves, fun hne => absurd hy.committed hne⟩
  by_cases hcall : ∃ other outcome, call = .outcome other outcome
  · obtain ⟨other, outcome, rfl⟩ := hcall
    obtain ⟨v, r, hv, hanswers, hfinal⟩ := ends_next h hu
    by_cases hsession : session = other
    · subst hsession
      have hflight := h.flight session v hv
      rw [hfinal.own]
      obtain ⟨hrevision, hholder, hcommitted⟩ := hfinal.ends.moves
        fun hbase cols rows hresized => hflight.holder hanswers hbase cols rows hresized
      refine ⟨hrevision, hholder, fun hne => (hcommitted hne).imp_right fun hlate => ?_⟩
      exact ⟨outcome, v, rfl, hv, hflight.base ▸ hlate⟩
    · refine hyields ?_
      rw [hfinal.others hsession]
      exact .refl _
  · exact hyields (yields_next hu (fun other outcome hc => hcall ⟨other, outcome, hc⟩) session)

/-- Over every run the seat has one live holder at most, its revision tells every change
of holder and, its two documented paths apart, of size, no generation is issued twice
and no stale verb moves the holder. -/
theorem seatLaw_of_reachable (h : (machine cellBootId).Reachable s) : SeatLaw s := by
  have hkept := kept_of_reachable h
  refine ⟨fun session x y hx hy => ?_, hkept.seated, hkept.issued, hkept.held,
    fun m call u hu session => moves_next hkept hu session,
    fun m session outcome v u hu hv hstale other => ?_⟩
  · obtain ⟨r, hr, rfl⟩ := ActivationTable.SeatsYield.holder_of_holdsSeat hx
    obtain ⟨r', hr', rfl⟩ := ActivationTable.SeatsYield.holder_of_holdsSeat hy
    rw [Option.some.inj (hr.symm.trans hr')]
  · obtain ⟨w, r, hw, -, hfinal⟩ := ends_next hkept hu
    obtain rfl := Option.some.inj (hv.symm.trans hw)
    by_cases hother : other = session
    · subst hother
      rw [hfinal.own]
      exact hfinal.ends.of_stale ((hkept.flight other v hv).base ▸ hstale)
    · rw [hfinal.others hother]
      exact ⟨rfl, rfl⟩

namespace Sample

def claims (expectRevision cols rows : Nat) : Moment × SeatCall :=
  (Tp.Sample.moment, .claim (Tp.Sample.leg 1)
    { sessionId := "s1"
      activationId := "a"
      claimant := { clientId := "win:1", viewId := "pane" }
      cols := cols
      rows := rows
      expectRevision := expectRevision })

def claiming : List (Moment × SeatCall) :=
  [(Tp.Sample.moment, .other (.attachControl (Tp.Sample.attach 1 "s1" "a" none))),
    (Tp.Sample.moment, .other (.viewAttached "a" "a" 1)),
    claims 0 80 24]

def detaches : Moment × SeatCall := (Tp.Sample.moment, .other (.viewDetached "a"))

def claimed : SeatCall := .outcome "s1" (.claimed 1 80 24)

def resized : SeatCall := .outcome "s1" (.resized 100 30)

end Sample

/-- The claim was granted. -/
theorem seatLaw_claimed :
    ∃ s : VerbRun, (s.table.lease "s1").holder.isSome = true ∧ SeatLaw s := by
  obtain ⟨s, hreach, hp⟩ := Machine.exists_of_run (M := machine "boot")
    (fun s => (s.table.lease "s1").holder.isSome)
    (Sample.claiming ++ [(Tp.Sample.moment, Sample.claimed)]) (by decide)
  exact ⟨s, hp, seatLaw_of_reachable hreach⟩

/-- The view of a claim in flight detaches, and the engine's size is recorded at the
revision the seat had.  The view of a resize in flight detaches, and the stale resize
still moves the size. -/
theorem size_moves_alone :
    (∃ s u, (machine "boot").Reachable s ∧ s.next Tp.Sample.moment Sample.claimed = some u ∧
      (u.table.lease "s1").committed ≠ (s.table.lease "s1").committed ∧
      (u.table.lease "s1").revision = (s.table.lease "s1").revision) ∧
    ∃ s u v, (machine "boot").Reachable s ∧ s.next Tp.Sample.moment Sample.resized = some u ∧
      s.verbs "s1" = some v ∧ v.expectRevision ≠ (s.table.lease "s1").revision ∧
      (u.table.lease "s1").committed ≠ (s.table.lease "s1").committed := by
  constructor
  · obtain ⟨s, hreach, hp⟩ := Machine.exists_of_run (M := machine "boot")
      (fun s => (s.next Tp.Sample.moment Sample.claimed).any fun u =>
        (u.table.lease "s1").committed != (s.table.lease "s1").committed &&
          (u.table.lease "s1").revision == (s.table.lease "s1").revision)
      (Sample.claiming ++ [Sample.detaches]) (by decide)
    obtain ⟨u, hu, hp⟩ := (Option.any_eq_true _ _).mp hp
    simp only [Bool.and_eq_true, bne_iff_ne, beq_iff_eq] at hp
    exact ⟨s, u, hreach, hu, hp⟩
  · obtain ⟨s, hreach, hp⟩ := Machine.exists_of_run (M := machine "boot")
      (fun s => (s.next Tp.Sample.moment Sample.resized).any fun u =>
        (s.verbs "s1").any fun v => v.expectRevision != (s.table.lease "s1").revision &&
          (u.table.lease "s1").committed != (s.table.lease "s1").committed)
      (Sample.claiming ++ [(Tp.Sample.moment, Sample.claimed), Sample.claims 1 100 30,
        Sample.detaches]) (by decide)
    obtain ⟨u, hu, hp⟩ := (Option.any_eq_true _ _).mp hp
    obtain ⟨v, hv, hp⟩ := (Option.any_eq_true _ _).mp hp
    simp only [Bool.and_eq_true, bne_iff_ne] at hp
    exact ⟨s, u, v, hreach, hu, hv, hp⟩

end VerbRun
end VibeField.Tp
