import VibeField.Tp.Attach

/-!
# The geometry verbs

A claim and a transfer are prechecked against the caller, the destination and
the lease.  The door then makes the engine call, and `geometryFinalize` commits
what the lease still allows.
-/

namespace VibeField.Tp.ActivationTable

def verbCaller (t : ActivationTable) (leg : LegRef) (activationId : ActivationId)
    (sessionId : SessionId) : Option Activation :=
  (t.get activationId).filter fun a =>
    a.control.connectionId == leg.connectionId && a.sessionId == sessionId

/-- `ClaimGeometry`.  A re-claim of the own seat asks for a resize. -/
def claimGeometry (t : ActivationTable) (leg : LegRef) (msg : ClaimGeometry) (nowMs : Nat) :
    ActivationTable × GeometryDecision :=
  match (t.verbCaller leg msg.activationId msg.sessionId).filter fun a =>
      a.clientId == msg.claimant.clientId with
  | none => (t, .refuse (geometryRefuse leg "NOT_HOLDER" none none))
  | some caller =>
    if !caller.hasRight .geometry || !caller.grantLive nowMs then
      (t, .refuse (geometryRefuse leg "RIGHT_MISSING" none none))
    else
      match caller.view with
      | none => (t, .refuse (geometryRefuse leg "VIEW_NOT_PRESENTING" none none))
      | some (ghostteaViewId, attachmentEpoch) =>
        let lease := t.lease msg.sessionId
        let t := t.setLease msg.sessionId lease
        if msg.expectRevision ≠ lease.revision then
          (t, .refuse (lease.refuseWithSeat leg "STALE_REVISION"))
        else if lease.holder.isSome ∧ lease.ownSeat msg.claimant = none then
          (t, .refuse (lease.refuseWithSeat leg "SEAT_HELD"))
        else
          (t, .proceed
            { callerActivationId := caller.activationId
              sessionId := msg.sessionId
              clientId := caller.clientId
              ghostteaViewId := ghostteaViewId
              attachmentEpoch := attachmentEpoch
              baseRevision := lease.revision
              claimantViewId := msg.claimant.viewId
              op := lease.claimOp msg })

def mayTransfer (a : Activation) (msg : TransferGeometry) (nowMs : Nat) : Bool :=
  a.grantLive nowMs &&
    (a.clientId == msg.fromHolder.clientId || a.hasRight .geometryAdmin ||
      (msg.toClaimant.clientId == a.clientId && a.hasRight .geometry))

def transferDestination (t : ActivationTable) (msg : TransferGeometry) (nowMs : Nat) :
    Option (Activation × ViewId × Nat) :=
  (t.byKey.lookup (msg.toClaimant.clientId, msg.sessionId)).bind fun destId =>
    (t.get destId).bind fun dest =>
      if dest.hasRight .geometry && dest.grantLive nowMs &&
          dest.clientId == msg.toClaimant.clientId then
        dest.view.map fun view => (dest, view)
      else
        none

/-- `TransferGeometry`: one transition that revokes the seat, grants it to `toClaimant`
and commits the resize as one engine claim. -/
def transferGeometry (t : ActivationTable) (leg : LegRef) (msg : TransferGeometry)
    (nowMs : Nat) : ActivationTable × GeometryDecision :=
  match t.verbCaller leg msg.activationId msg.sessionId with
  | none => (t, .refuse (geometryRefuse leg "NOT_HOLDER" none none))
  | some caller =>
    if !mayTransfer caller msg nowMs then
      (t, .refuse (geometryRefuse leg "NOT_HOLDER" none none))
    else
      match t.transferDestination msg nowMs with
      | none => (t, .refuse (geometryRefuse leg "DESTINATION_INELIGIBLE" none none))
      | some (dest, destViewId, destEpoch) =>
        let lease := t.lease msg.sessionId
        let t := t.setLease msg.sessionId lease
        if !lease.holder.any fun h => h.named msg.fromHolder then
          (t, .refuse (lease.refuseWithSeat leg "NOT_HOLDER"))
        else if msg.expectRevision ≠ lease.revision then
          (t, .refuse (lease.refuseWithSeat leg "STALE_REVISION"))
        else
          (t, .proceed
            { callerActivationId := caller.activationId
              sessionId := msg.sessionId
              clientId := dest.clientId
              ghostteaViewId := destViewId
              attachmentEpoch := destEpoch
              baseRevision := lease.revision
              claimantViewId := msg.toClaimant.viewId
              op := .claim msg.cols msg.rows })

def destinationLive (t : ActivationTable) (proceed : GeometryProceed) (nowMs : Nat) : Bool :=
  (t.get proceed.ghostteaViewId).any fun d =>
    d.clientId == proceed.clientId && d.sessionId == proceed.sessionId &&
      d.hasRight .geometry && d.grantLive nowMs &&
      d.view == some (proceed.ghostteaViewId, proceed.attachmentEpoch)

def geometryFinalize (t : ActivationTable) (leg : LegRef) (proceed : GeometryProceed)
    (outcome : GeometryOutcome) (nowMs : Nat) : ActivationTable × List Effect :=
  let before := t.lease proceed.sessionId
  let done := (before.recordSize outcome).commitLease leg proceed outcome
    (t.destinationLive proceed nowMs)
  let t := t.setLease proceed.sessionId done.1
  if (done.1.revision, done.1.committed) = (before.revision, before.committed) then
    (t, done.2)
  else
    (t, done.2 ++ t.seatAnnouncements proceed.sessionId)

def releaseGeometry (t : ActivationTable) (leg : LegRef) (msg : ReleaseGeometry) :
    ActivationTable × List Effect :=
  match t.verbCaller leg msg.activationId msg.sessionId, t.geometry.lookup msg.sessionId with
  | some _, some lease =>
    if lease.holder.any fun h => h.named msg.holder then
      let t := t.setLease msg.sessionId lease.vacate
      (t, t.seatAnnouncements msg.sessionId)
    else
      (t, lease.refuseWithSeat leg "NOT_HOLDER")
  | _, _ => (t, geometryRefuse leg "NOT_HOLDER" none none)

end VibeField.Tp.ActivationTable
