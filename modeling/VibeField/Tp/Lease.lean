import VibeField.Tp.Verbs

/-!
# Views, demand and the lease

The operations that move one activation after it attached, the ones that move
every activation of a session, a leg or a client, and the reads that gate a
client's input and selection.
-/

namespace VibeField.Tp

/-- Which gate dropped one `SendInput`. -/
inductive InputDrop where
  | noActivation
  | wrongLeg
  | staleLeaseEpoch
  | lease (reason : Reason)
  | rightExpired
  | noView
  deriving DecidableEq, Repr

def InputDrop.tag : InputDrop → String
  | .noActivation => "no-activation"
  | .wrongLeg => "wrong-leg"
  | .staleLeaseEpoch => "stale-lease-epoch"
  | .lease _ => "input-not-allowed"
  | .rightExpired => "right-expired"
  | .noView => "no-view"

def InputDrop.answer : InputDrop → Option String
  | .noActivation => none
  | .wrongLeg => none
  | .staleLeaseEpoch => some "stale-lease-epoch"
  | .lease reason => some reason.word
  | .rightExpired => some "right-expired"
  | .noView => some "no-view"

/-- The cell-owned fence context for an authorized input op. -/
structure InputProceed where
  sessionId : SessionId
  clientId : ClientId
  ghostteaViewId : ViewId
  attachmentEpoch : Nat
  inputSequence : Nat
  deriving DecidableEq, Repr

inductive InputDecision where
  | drop (dropped : InputDrop)
  | proceed (orders : InputProceed)
  deriving DecidableEq, Repr

namespace ActivationTable

/-! ## One activation -/

def viewAttached (t : ActivationTable) (activationId : ActivationId) (viewId : ViewId)
    (epoch : Nat) : ActivationTable × List Effect :=
  match t.get activationId with
  | none => (t, [])
  | some a =>
    (t.modify activationId fun _ => a.viewAttached viewId epoch,
      if a.frames.isSome && !a.pumpRunning then [.startPump activationId]
      else [.wakePump activationId])

def viewDetached (t : ActivationTable) (activationId : ActivationId) :
    ActivationTable × List Effect :=
  match t.get activationId with
  | none => (t, [])
  | some a =>
    (t.modify activationId fun _ => a.viewDetached).releaseGeometryIfHeld a.sessionId activationId

def declareDemand (t : ActivationTable) (m : Moment) (leg : LegRef) (msg : DeclareDemand) :
    ActivationTable × List Effect :=
  match t.verbCaller leg msg.activationId msg.sessionId with
  | none => (t, [])
  | some a =>
    let accepted := Effect.send leg (.demandAccepted msg.demandSequence)
    if a.demandSeen msg then
      (t, [accepted])
    else
      (t.modify msg.activationId fun _ => a.demanded m msg, accepted :: a.demandEffects m msg)

def requestScene (t : ActivationTable) (leg : LegRef) (msg : RequestScene) (nowMs : Nat) :
    ActivationTable × List Effect :=
  match t.get msg.activationId with
  | none => (t, [])
  | some a =>
    if a.mayRepair leg msg nowMs then
      (t.modify msg.activationId fun _ => a.repaired, [.wakePump a.activationId])
    else
      (t, [])

def ackTarget (t : ActivationTable) (leg : LegRef) (msg : SceneApplied) : Option Activation :=
  (t.get msg.activationId).filter fun a =>
    a.frames.any (fun f => f.connectionId == leg.connectionId) && a.sessionId == msg.sessionId

def sceneApplied (t : ActivationTable) (m : Moment) (leg : LegRef) (msg : SceneApplied) :
    ActivationTable × List Effect :=
  match t.ackTarget leg msg with
  | none => (t, [])
  | some a =>
    let b := a.sceneApplied m msg.appliedContent
    (t.modify msg.activationId fun _ => b,
      if a.statusDue (a.acknowledged m msg.appliedContent) m then [b.statusSent] else [])

def unitSent (t : ActivationTable) (m : Moment) (activationId : ActivationId) (revision : Nat)
    (seed : Bool) : ActivationTable × List Effect :=
  (t.modify activationId fun a => a.unitSent m revision seed, [])

def presentationStopped (t : ActivationTable) (m : Moment) (activationId : ActivationId)
    (reason : Reason) : ActivationTable × List Effect :=
  match t.get activationId with
  | none => (t, [])
  | some a =>
    let b := a.presentationStopped m reason
    (t.modify activationId fun _ => b,
      if a.presentation = .stopped .exited ∨ a.presentation = .stopped reason then []
      else [b.statusSent])

def sceneGeneration (t : ActivationTable) (activationId : ActivationId) : Option (Nat × Nat) :=
  (t.get activationId).bind fun a =>
    if a.demand ≠ .live then none else a.view.map fun v => (v.2, a.sceneRepairGeneration)

/-! ## A session, a leg, a client -/

def exitsNow (sessionId : SessionId) (a : Activation) : Bool :=
  a.sessionId == sessionId && a.presentation != .stopped .exited

def sessionExited (t : ActivationTable) (m : Moment) (sessionId : SessionId) :
    ActivationTable × List Effect :=
  ({ t with
      byId := t.byId.mapVals fun _ a =>
        if exitsNow sessionId a then a.sessionExited m else a },
    (t.byId.values.filter (exitsNow sessionId)).map fun a => (a.sessionExited m).statusSent)

def sessionRemoved (t : ActivationTable) (m : Moment) (sessionId : SessionId) :
    ActivationTable × List Effect :=
  t.invalidateAll m .removed (t.idsWhere fun a => a.sessionId == sessionId)

def ridesLeg (connectionId : ConnectionId) (a : Activation) : Bool :=
  a.control.connectionId == connectionId ||
    a.frames.any fun f => f.connectionId == connectionId

def legClosed (t : ActivationTable) (m : Moment) (connectionId : ConnectionId) :
    ActivationTable × List Effect :=
  let dead := t.invalidateAll m .legDead (t.idsWhere (ridesLeg connectionId))
  ({ dead.1 with credit := dead.1.credit.erase connectionId }, dead.2)

def revokeClient (t : ActivationTable) (m : Moment) (clientId : ClientId) :
    ActivationTable × List Effect :=
  t.invalidateAll m .rightRevoked (t.idsWhere fun a => a.clientId == clientId)

def grantExpired (m : Moment) (a : Activation) : Bool := m.nowMs ≥ a.grantExpiresAtMs

def attachOverdue (deadline : Instant) (m : Moment) (a : Activation) : Bool :=
  a.frames.isNone && decide (m.instant - a.createdAt > deadline)

def recomputed (m : Moment) (a : Activation) : Activation :=
  if (a.recomputeInput m).input ≠ a.input then (a.recomputeInput m).countStatus m
  else a.recomputeInput m

def recomputeAll (t : ActivationTable) (m : Moment) : ActivationTable × List Effect :=
  ({ t with byId := t.byId.mapVals fun _ a => recomputed m a },
    (t.byId.values.filter fun a => (a.recomputeInput m).input ≠ a.input).map fun a =>
      (recomputed m a).statusSent)

def tick (t : ActivationTable) (m : Moment) : ActivationTable × List Effect :=
  let expired := t.invalidateAll m .rightRevoked (t.idsWhere (grantExpired m))
  let overdue := expired.1.invalidateAll m .attachDeadline
    (expired.1.idsWhere (attachOverdue expired.1.attachDeadline m))
  let told := overdue.1.recomputeAll m
  (told.1, expired.2 ++ overdue.2 ++ told.2)

/-! ## Input and selection -/

def selectionView (t : ActivationTable) (leg : LegRef) (msg : SelectionTextRequest)
    (nowMs : Nat) : Option ViewId :=
  (t.get msg.activationId).bind fun a =>
    if a.control.connectionId ≠ leg.connectionId ∨ a.sessionId ≠ msg.sessionId ∨
        a.leaseEpoch ≠ msg.leaseEpoch ∨ !a.hasRight .read ∨ !a.grantLive nowMs ∨
        a.presentation.isRevoked then
      none
    else
      a.view.map Prod.fst

/-- `SendInput`: the cell-side gate for one input op. -/
def sendInput (t : ActivationTable) (leg : LegRef) (msg : SendInput) (nowMs : Nat) :
    InputDecision :=
  match t.get msg.activationId with
  | none => .drop .noActivation
  | some a =>
    if a.control.connectionId ≠ leg.connectionId ∨ a.sessionId ≠ msg.sessionId then
      .drop .wrongLeg
    else if msg.leaseEpoch ≠ a.leaseEpoch then
      .drop .staleLeaseEpoch
    else
      match a.input with
      | .suspended reason => .drop (.lease reason)
      | .revoked reason => .drop (.lease reason)
      | .allowed =>
        -- a lease not recomputed since cannot leak input past the margin
        if nowMs + attachRenewalMarginMs ≥ a.grantExpiresAtMs then
          .drop .rightExpired
        else
          match a.view with
          | none => .drop .noView
          | some (ghostteaViewId, attachmentEpoch) =>
            .proceed
              { sessionId := a.sessionId
                clientId := a.clientId
                ghostteaViewId := ghostteaViewId
                attachmentEpoch := attachmentEpoch
                inputSequence := msg.inputSequence }

def inputRefusal (t : ActivationTable) (leg : LegRef) (msg : SendInput) (dropped : InputDrop) :
    Option String :=
  (t.verbCaller leg msg.activationId msg.sessionId).bind fun _ => dropped.answer

end ActivationTable
end VibeField.Tp
