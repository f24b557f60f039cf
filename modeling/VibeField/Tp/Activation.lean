import Mathlib.Algebra.Group.Nat.Defs
import VibeField.Tp.Credit

/-!
# One activation

The record the cell holds for one attached `{client, session}` pair, and what
each operation of the table does to that record.  The presentation dimension
says whether the scene advances, the input dimension whether the client may
type, and `recomputeInput` derives the second from the first, the rights, the
demand, the view, the lag ledger and the clock.
-/

namespace VibeField.Tp

abbrev Instant := Nat

def fromMillis (ms : Nat) : Instant := ms * 1000000

def unackedUnitsCap : Nat := 1024

/-- What a table call reads beside its arguments: the wall clock, the monotonic
clock, and which legs' writers have gone. -/
structure Moment where
  nowMs : Nat
  instant : Instant
  outClosed : ConnectionId → Bool

/-- A handle on one accepted leg. -/
structure LegRef where
  connectionId : ConnectionId
  legGeneration : Nat
  /-- this leg's hello negotiated `geometry-events` -/
  geometryEvents : Bool
  deriving DecidableEq, Repr

/-- The connection set a leg belongs to, from the verified transport grant. -/
structure SetIdentity where
  clientId : ClientId
  connectionSetId : String
  deriving DecidableEq, Repr

inductive Reason where
  | pending
  | overload
  | exited
  | notGranted
  | rightRevoked
  | rightExpired
  | lagging
  | replaced
  | removed
  | legDead
  | attachDeadline
  deriving DecidableEq, Repr

def Reason.word : Reason → String
  | .pending => "pending"
  | .overload => "overload"
  | .exited => "exited"
  | .notGranted => "not-granted"
  | .rightRevoked => "right-revoked"
  | .rightExpired => "right-expired"
  | .lagging => "lagging"
  | .replaced => "replaced"
  | .removed => "removed"
  | .legDead => "leg-dead"
  | .attachDeadline => "attach-deadline"

inductive Presentation where
  /-- attached, no seed applied yet -/
  | pending
  | presenting
  | stopped (reason : Reason)
  | revoked (reason : Reason)
  deriving DecidableEq, Repr

def Presentation.isRevoked : Presentation → Bool
  | .revoked _ => true
  | _ => false

inductive Input where
  | allowed
  | suspended (reason : Reason)
  | revoked (reason : Reason)
  deriving DecidableEq, Repr

structure Activation where
  activationId : ActivationId
  clientId : ClientId
  connectionSetId : String
  sessionId : SessionId
  rights : List AttachRight
  grantGeneration : Nat
  grantExpiresAtMs : Nat
  leaseEpoch : Nat
  face : Option GeometryHolderFace
  control : LegRef
  frames : Option LegRef
  createdAt : Instant
  demand : SourceDemandMode
  demandSequence : Nat
  /-- the view attached for this activation, and its attachment epoch -/
  view : Option (ViewId × Nat)
  presentation : Presentation
  input : Input
  statusSequence : Nat
  accepted : Option SceneContentStamp
  resumeToken : Option String
  trfIdentity : Option TrfIdentity
  sceneEpoch : Option SceneEpoch
  /-- the revision of the first seed sent -/
  seedRevision : Option Nat
  /-- the first revision the pump sent after an overload stop -/
  resumeRevision : Option Nat
  pumpRunning : Bool
  sceneRepairGeneration : Nat
  /-- every unit sent and not yet acknowledged, oldest first -/
  unacked : List (Nat × Instant)
  lastStatusSentAt : Option Instant
  deriving DecidableEq, Repr

/-- What the door must do after a table call, outside the lock. -/
inductive Effect where
  | send (leg : LegRef) (msg : CellMessage)
  | attachView (activationId : ActivationId) (sessionId : SessionId) (clientId : ClientId)
      (viewId : ViewId) (readWrite : Bool)
  | detachView (activationId : ActivationId) (sessionId : SessionId) (clientId : ClientId)
      (viewId : ViewId)
  | startPump (activationId : ActivationId)
  | stopPump (activationId : ActivationId)
  | wakePump (activationId : ActivationId)
  deriving DecidableEq, Repr

namespace Activation

def hasRight (a : Activation) (right : AttachRight) : Bool := right ∈ a.rights

def grantLive (a : Activation) (nowMs : Nat) : Bool := nowMs < a.grantExpiresAtMs

/-- The lease, as the wire carries it. -/
def status (a : Activation) : CellActivationStatus where
  sessionId := a.sessionId
  activationId := a.activationId
  cellStatusSequence := a.statusSequence
  leaseTtlMs := cellLeaseTtlMs
  acceptedContent := a.accepted
  presentation :=
    match a.presentation with
    | .pending => { state := "stopped", reason := some Reason.pending.word }
    | .presenting => { state := "presenting", reason := none }
    | .stopped r => { state := "stopped", reason := some r.word }
    | .revoked r => { state := "revoked", reason := some r.word }
  input :=
    match a.input with
    | .allowed => { state := "allowed", reason := none }
    | .suspended r => { state := "suspended", reason := some r.word }
    | .revoked r => { state := "revoked", reason := some r.word }

/-! ## The lease -/

def countStatus (a : Activation) (m : Moment) : Activation :=
  { a with statusSequence := a.statusSequence + 1, lastStatusSentAt := some m.instant }

def statusSent (a : Activation) : Effect := .send a.control (.cellActivationStatus a.status)

def lagging (a : Activation) (m : Moment) : Bool :=
  a.unacked.head?.any fun unit => m.instant - unit.2 > fromMillis inputLagSuspendMs

/-- The input dimension, from presentation, rights, lag and expiry.  A revoked
right never comes back on its own. -/
def computedInput (a : Activation) (m : Moment) : Input :=
  match a.input with
  | .revoked r => .revoked r
  | _ =>
    if !a.hasRight .input then
      .revoked .notGranted
    else
      match a.presentation with
      | .stopped r => .suspended r
      | .presenting =>
        if a.demand ≠ .live ∨ a.view = none then
          .suspended .pending
        else if m.nowMs + attachRenewalMarginMs ≥ a.grantExpiresAtMs then
          .suspended .rightExpired
        else if a.lagging m then
          .suspended .lagging
        else
          .allowed
      | _ => .suspended .pending

def recomputeInput (a : Activation) (m : Moment) : Activation :=
  { a with input := a.computedInput m }

/-! ## Attaching -/

/-- What a control attach records for a new activation. -/
def opened (m : Moment) (set : SetIdentity) (leg : LegRef) (msg : AttachControlLeg)
    (claims : AttachClaims) : Activation where
  activationId := msg.activationId
  clientId := set.clientId
  connectionSetId := set.connectionSetId
  sessionId := claims.sessionId
  rights := claims.rights
  grantGeneration := claims.grantGeneration
  grantExpiresAtMs := claims.expiresAt
  leaseEpoch := claims.leaseEpoch.getD 0
  face := claims.face
  control := leg
  frames := none
  createdAt := m.instant
  demand := msg.initialDemand
  demandSequence := 0
  view := none
  presentation := .pending
  input := if .input ∈ claims.rights then .suspended .pending else .revoked .notGranted
  statusSequence := 0
  accepted := none
  resumeToken := none
  trfIdentity := none
  sceneEpoch := none
  seedRevision := none
  resumeRevision := none
  pumpRunning := false
  sceneRepairGeneration := 0
  unacked := []
  lastStatusSentAt := none

def renewGrant (a : Activation) (claims : AttachClaims) : Activation :=
  { a with
    rights := claims.rights
    grantGeneration := claims.grantGeneration
    grantExpiresAtMs := claims.expiresAt
    face := claims.face
    input :=
      if a.hasRight .input && !decide (.input ∈ claims.rights) then
        .revoked .rightRevoked
      else if a.input = .suspended .rightExpired then
        .suspended .pending
      else
        a.input }

def reattached (a : Activation) (m : Moment) (leg : LegRef) (claims : AttachClaims) : Activation :=
  if claims.grantGeneration > a.grantGeneration then
    (({ a.renewGrant claims with control := leg } : Activation).recomputeInput m).countStatus m
  else
    { a with control := leg }

def controlLegAttached (a : Activation) : CellMessage :=
  .controlLegAttached
    { sessionId := a.sessionId
      activationId := a.activationId
      grantGenerationAccepted := a.grantGeneration
      rights := a.rights }

def lineageChanged (a : Activation) (epoch : SceneEpoch) : Bool :=
  a.sceneEpoch.any fun held => held ≠ epoch

def framesAlready (a : Activation) (leg : LegRef) (epoch : SceneEpoch) : Bool :=
  (a.frames.any fun f => f.connectionId == leg.connectionId) && !a.lineageChanged epoch

def boundFrames (a : Activation) (leg : LegRef) (trf : TrfIdentity) (resumeToken : String)
    (epoch : SceneEpoch) : Activation :=
  { a with
    frames := some leg
    -- the new lineage's revisions do not compare with the old one's
    resumeRevision := if a.lineageChanged epoch then none else a.resumeRevision
    unacked := if a.lineageChanged epoch then [] else a.unacked
    resumeToken := some (a.resumeToken.getD resumeToken)
    trfIdentity := some trf
    sceneEpoch := some epoch }

def stopsPump (a : Activation) (epoch : SceneEpoch) : Bool :=
  a.lineageChanged epoch && a.pumpRunning

def startsPump (a : Activation) (leg : LegRef) (epoch : SceneEpoch) : Bool :=
  !a.framesAlready leg epoch && a.view.isSome && !(a.pumpRunning && !a.stopsPump epoch)

def framesAttached (a : Activation) (leg : LegRef) (trf : TrfIdentity) (resumeToken : String)
    (epoch : SceneEpoch) : Activation :=
  { a.boundFrames leg trf resumeToken epoch with
    pumpRunning := (a.pumpRunning && !a.stopsPump epoch) || a.startsPump leg epoch }

/-! ## Views and demand -/

def viewAttached (a : Activation) (viewId : ViewId) (epoch : Nat) : Activation :=
  { a with view := some (viewId, epoch), pumpRunning := a.pumpRunning || a.frames.isSome }

def viewDetached (a : Activation) : Activation := { a with view := none }

def demandSeen (a : Activation) (msg : DeclareDemand) : Bool :=
  msg.demandSequence ≤ a.demandSequence && a.demandSequence != 0

def demanded (a : Activation) (m : Moment) (msg : DeclareDemand) : Activation :=
  let b := { a with demandSequence := msg.demandSequence, demand := msg.demand }
  if msg.demand ≠ .live ∧ a.input = .allowed then
    ({ b with input := .suspended .pending } : Activation).countStatus m
  else
    b

def attachesView (a : Activation) (readWrite : Bool) : Effect :=
  .attachView a.activationId a.sessionId a.clientId a.activationId readWrite

def detachesView (a : Activation) (viewId : ViewId) : Effect :=
  .detachView a.activationId a.sessionId a.clientId viewId

def writesView (a : Activation) : Bool := a.hasRight .input || a.hasRight .geometry

def demandEffects (a : Activation) (m : Moment) (msg : DeclareDemand) : List Effect :=
  let b := a.demanded m msg
  match a.demand, msg.demand with
  | .live, .live => []
  | _, .live => if a.view = none then [b.attachesView b.writesView] else []
  | _, _ =>
    (if a.input = .allowed then [b.statusSent] else []) ++
      (a.view.map fun v => b.detachesView v.1).toList ++ [.wakePump a.activationId]

/-! ## The scene -/

def repairGenerations : Nat := 2 ^ 64

def mayRepair (a : Activation) (leg : LegRef) (msg : RequestScene) (nowMs : Nat) : Bool :=
  (a.frames.any fun f =>
      f.connectionId == leg.connectionId && f.legGeneration == leg.legGeneration) &&
    a.sessionId == msg.sessionId && a.leaseEpoch == msg.leaseEpoch && a.hasRight .read &&
    a.grantLive nowMs && a.demand == .live && a.view.isSome && a.pumpRunning &&
    !a.presentation.isRevoked

def repaired (a : Activation) : Activation :=
  { a with sceneRepairGeneration := (a.sceneRepairGeneration + 1) % repairGenerations }

def acceptedAfter (a : Activation) (content : SceneContentStamp) : Option SceneContentStamp :=
  match a.accepted with
  | none => some content
  | some held =>
    if held.sceneEpoch = content.sceneEpoch ∧ content.sceneRevision < held.sceneRevision then
      some held
    else
      some content

def unackedAfter (a : Activation) (content : SceneContentStamp) : List (Nat × Instant) :=
  if a.sceneEpoch = some content.sceneEpoch then
    a.unacked.dropWhile fun unit => unit.1 ≤ content.sceneRevision
  else
    a.unacked

def meetsSeed (a : Activation) (revision : Nat) : Bool :=
  a.presentation = .pending && a.seedRevision.any fun seed => revision ≥ seed

def meetsResume (a : Activation) (revision : Nat) : Bool :=
  a.presentation = .stopped .overload && a.resumeRevision.any fun resume => revision ≥ resume

def acknowledged (a : Activation) (m : Moment) (content : SceneContentStamp) : Activation :=
  ({ a with
      accepted := a.acceptedAfter content
      unacked := a.unackedAfter content
      presentation :=
        if a.meetsSeed content.sceneRevision || a.meetsResume content.sceneRevision then
          .presenting
        else
          a.presentation
      resumeRevision :=
        if a.meetsResume content.sceneRevision then none else a.resumeRevision } :
    Activation).recomputeInput m

def statusDue (before after : Activation) (m : Moment) : Bool :=
  after.presentation != before.presentation || after.input != before.input ||
    after.lastStatusSentAt.all fun sent =>
      m.instant - sent ≥ fromMillis presentationStatusRefreshMs

def sceneApplied (a : Activation) (m : Moment) (content : SceneContentStamp) : Activation :=
  let b := a.acknowledged m content
  if statusDue a b m then b.countStatus m else b

def unackedWith (a : Activation) (m : Moment) (revision : Nat) : List (Nat × Instant) :=
  if a.unacked.length ≥ unackedUnitsCap then
    a.unacked.modifyLast fun newest => (revision, newest.2)
  else
    a.unacked ++ [(revision, m.instant)]

def unitSent (a : Activation) (m : Moment) (revision : Nat) (seed : Bool) : Activation :=
  { a with
    unacked := a.unackedWith m revision
    seedRevision := if seed && a.seedRevision.isNone then some revision else a.seedRevision
    resumeRevision :=
      if a.presentation = .stopped .overload && a.resumeRevision.isNone then
        some revision
      else
        a.resumeRevision }

def presentationStopped (a : Activation) (m : Moment) (reason : Reason) : Activation :=
  if a.presentation = .stopped .exited then
    a
  else if a.presentation = .stopped reason then
    { a with resumeRevision := none }
  else
    (({ a with presentation := .stopped reason, resumeRevision := none } :
      Activation).recomputeInput m).countStatus m

def sessionExited (a : Activation) (m : Moment) : Activation :=
  if a.presentation = .stopped .exited then
    a
  else
    ({ a with
        presentation := .stopped .exited
        input := .revoked .exited
        resumeRevision := none } : Activation).countStatus m

def revoked (a : Activation) (reason : Reason) : Activation :=
  { a with
    presentation := .revoked reason
    input := .revoked reason
    statusSequence := a.statusSequence + 1 }

def revocationEffects (a : Activation) (m : Moment) (reason : Reason) : List Effect :=
  (if m.outClosed a.control.connectionId then [] else [(a.revoked reason).statusSent]) ++
    (a.view.map fun v => a.detachesView v.1).toList ++
    (if a.pumpRunning then [.stopPump a.activationId] else [])

end Activation
end VibeField.Tp
