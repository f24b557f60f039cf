import VibeField.Tp.Table

/-!
# Attaching the two legs

`attachControl` opens, retries, renews or replaces an activation, and
`attachFrames` binds its frames leg.  Both run after the grant verified.
-/

namespace VibeField.Tp

structure AttachControlInput where
  set : SetIdentity
  leg : LegRef
  msg : AttachControlLeg
  claims : AttachClaims
  sessionKnown : Bool

structure AttachFramesInput where
  set : SetIdentity
  leg : LegRef
  msg : AttachFramesLeg
  claims : AttachClaims
  trfIdentity : Option TrfIdentity
  resumeToken : String
  /-- the session's live model generation, as the engine counts it -/
  sessionEpoch : Nat

namespace AttachControlInput

def activationId (i : AttachControlInput) : ActivationId := i.msg.activationId

def key (i : AttachControlInput) : ClientId × SessionId := (i.set.clientId, i.claims.sessionId)

def refused (i : AttachControlInput) (code : String) (retryable : Bool) : Effect :=
  refuse i.leg (some i.activationId) code retryable

def opened (i : AttachControlInput) (m : Moment) : Activation :=
  Activation.opened m i.set i.leg i.msg i.claims

end AttachControlInput

def AttachFramesInput.activationId (i : AttachFramesInput) : ActivationId := i.msg.activationId

def AttachFramesInput.refused (i : AttachFramesInput) (code : String) (retryable : Bool) :
    Effect :=
  refuse i.leg (some i.activationId) code retryable

def seedReason (resume : Option ResumeRequest) (epoch : SceneEpoch) : String :=
  match resume with
  | none => "no-cursor"
  | some r =>
    if r.fromContent.sceneEpoch ≠ epoch then "epoch-changed" else "no-resume-capability"

def framesLegAttached (a : Activation) (trf : TrfIdentity) (resume : Option ResumeRequest)
    (epoch : SceneEpoch) : CellMessage :=
  .framesLegAttached
    { sessionId := a.sessionId
      activationId := a.activationId
      resumeToken := a.resumeToken.getD ""
      trfIdentity := trf
      outcome := { kind := "seed-required", reason := some (seedReason resume epoch) } }

namespace ActivationTable

/-- A control attach of the activation the key already names: an idempotent
retry, or a renewal.  A renewal that drops geometry gives the seat up. -/
def reattachControl (t : ActivationTable) (m : Moment) (i : AttachControlInput)
    (a : Activation) : ActivationTable × List Effect :=
  if i.claims.grantGeneration < a.grantGeneration then
    (t, [i.refused "GRANT_GENERATION_ROLLBACK" false])
  else
    let renewed := i.claims.grantGeneration > a.grantGeneration
    let movedToLeg :=
      if a.control.connectionId ≠ i.leg.connectionId then
        t.seatStateTo i.claims.sessionId i.leg
      else
        []
    let b := a.reattached m i.leg i.claims
    let told := .send i.leg b.controlLegAttached :: movedToLeg ++
      if renewed then [b.statusSent] else []
    let t := t.modify i.activationId fun _ => b
    if renewed ∧ a.hasRight .geometry ∧ ¬ b.hasRight .geometry then
      let released := t.releaseGeometryIfHeld i.claims.sessionId i.activationId
      (released.1, told ++ released.2)
    else
      (t, told)

/-- A control attach that opens a new activation, after `before` was done for
it. -/
def openControl (t : ActivationTable) (m : Moment) (i : AttachControlInput)
    (before : List Effect) : ActivationTable × List Effect :=
  if t.byId.len ≥ t.maxActivations then
    (t, [i.refused "CAPACITY" true])
  else if (t.get i.activationId).isSome then
    -- the id is taken by another key
    (t, [i.refused "ACTIVATION_CONFLICT" false])
  else
    let a := i.opened m
    let t :=
      { t with
        byKey := t.byKey.insert i.key i.activationId
        byId := t.byId.insert i.activationId a }
    (t, before ++ .send i.leg a.controlLegAttached :: t.seatStateTo a.sessionId i.leg ++
      if a.demand = .live then [a.attachesView a.writesView] else [])

/-- `AttachControlLeg`, after the grant verified and its generation was
admitted. -/
def attachControl (t : ActivationTable) (m : Moment) (i : AttachControlInput) :
    ActivationTable × List Effect :=
  if i.claims.clientId ≠ i.set.clientId then
    (t, [i.refused "GRANT_INVALID" false])
  else if !i.sessionKnown then
    (t, [i.refused "SESSION_UNKNOWN" false])
  else
    match t.byKey.lookup i.key with
    | none => t.openControl m i []
    | some existingId =>
      if existingId = i.activationId then
        match t.get existingId with
        | none => (t, [])
        | some a => t.reattachControl m i a
      else if i.msg.replacesActivationId = some existingId then
        let replaced := t.invalidate m existingId .replaced
        replaced.1.openControl m i replaced.2
      else
        (t, [i.refused "ACTIVATION_CONFLICT" true])

/-- The activation a frames attach may bind, or the code that refuses it. -/
def framesTarget (t : ActivationTable) (i : AttachFramesInput) :
    Except (String × Bool) (Activation × TrfIdentity) :=
  if i.claims.clientId ≠ i.set.clientId then
    .error ("GRANT_INVALID", false)
  else
    match t.get i.activationId with
    | none => .error ("ACTIVATION_CONFLICT", true)
    | some a =>
      if a.clientId ≠ i.set.clientId ∨ a.connectionSetId ≠ i.set.connectionSetId ∨
          a.sessionId ≠ i.claims.sessionId then
        .error ("GRANT_INVALID", false)
      else if i.claims.grantGeneration < a.grantGeneration then
        .error ("GRANT_GENERATION_ROLLBACK", false)
      else
        match i.trfIdentity with
        | none => .error ("SESSION_UNKNOWN", false)
        | some trf => .ok (a, trf)

def openAccount (t : ActivationTable) (connectionId : ConnectionId)
    (activationId : ActivationId) : ActivationTable :=
  { t with credit := t.credit.modify connectionId (·.openAccount activationId) }

def attachFrames (t : ActivationTable) (i : AttachFramesInput) : ActivationTable × List Effect :=
  match t.framesTarget i with
  | .error (code, retryable) => (t, [i.refused code retryable])
  | .ok (a, trf) =>
    let resolved := t.resolveSceneEpoch i.claims.sessionId i.sessionEpoch
    let epoch := resolved.2
    let b := a.framesAttached i.leg trf i.resumeToken epoch
    let t := (resolved.1.modify i.activationId fun _ => b).openAccount i.leg.connectionId
      i.activationId
    (t, [.send i.leg (framesLegAttached b trf i.msg.resume epoch)] ++
      (if a.stopsPump epoch then [.stopPump i.activationId] else []) ++
      (if a.startsPump i.leg epoch then [.startPump i.activationId] else []))

end ActivationTable
end VibeField.Tp
