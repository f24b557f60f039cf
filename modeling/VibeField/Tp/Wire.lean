/-!
# Wire shapes of the terminal pipeline

The messages of the control and frames legs that the activation table reads and
writes, under the names of the wire.  JSON text is left out: a message is its
typed body.  Counters, clocks and byte counts are natural numbers, since nothing
in the table wraps them.
-/

namespace VibeField.Tp

abbrev ActivationId := String
abbrev ClientId := String
abbrev SessionId := String
abbrev ViewId := String
abbrev ConnectionId := Nat

/-! ## The registry's numbers -/

def maxClockSkewMs : Nat := 5000
def maxGrantLifetimeMs : Nat := 600000
def cellMaxConcurrentActivations : Nat := 256
def presentationStatusRefreshMs : Nat := 2000
def activationAttachDeadlineMs : Nat := 5000
def cellLeaseTtlMs : Nat := 6000
def inputLagSuspendMs : Nat := 1500
def attachRenewalMarginMs : Nat := 60000

/-! ## Scene content -/

/-- Source-content lineage: the cell boot and the model generation.  A new epoch
always seeds. -/
structure SceneEpoch where
  cellBootId : String
  modelGeneration : Nat
  deriving DecidableEq, Repr

structure SceneContentStamp where
  sceneEpoch : SceneEpoch
  sceneRevision : Nat
  deriving DecidableEq, Repr

def compareSceneContent (a b : SceneContentStamp) : Option Ordering :=
  if a.sceneEpoch.cellBootId ≠ b.sceneEpoch.cellBootId ∨
      a.sceneEpoch.modelGeneration ≠ b.sceneEpoch.modelGeneration then
    none
  else if a.sceneRevision = b.sceneRevision then
    some .eq
  else if a.sceneRevision < b.sceneRevision then
    some .lt
  else
    some .gt

/-! ## Grants -/

inductive AttachRight where
  | geometry
  | geometryAdmin
  | input
  | read
  deriving DecidableEq, Repr

/-- Who a holder is, as a person reads it.  The cell echoes it. -/
structure GeometryHolderFace where
  kind : String
  name : String
  os : Option String
  deriving DecidableEq, Repr

/-- The claims of a verified session attach grant. -/
structure AttachClaims where
  clientId : ClientId
  sessionId : SessionId
  leaseEpoch : Option Nat
  grantGeneration : Nat
  rights : List AttachRight
  expiresAt : Nat
  face : Option GeometryHolderFace
  deriving DecidableEq, Repr

/-! ## Activation, demand, the lease -/

inductive SourceDemandMode where
  | none
  | snapshot
  | live
  deriving DecidableEq, Repr

structure DeclareDemand where
  sessionId : SessionId
  activationId : ActivationId
  demandSequence : Nat
  demand : SourceDemandMode
  deriving DecidableEq, Repr

structure AttachControlLeg where
  activationId : ActivationId
  replacesActivationId : Option ActivationId
  initialDemand : SourceDemandMode
  deriving DecidableEq, Repr

structure ControlLegAttached where
  sessionId : SessionId
  activationId : ActivationId
  grantGenerationAccepted : Nat
  rights : List AttachRight
  deriving DecidableEq, Repr

structure AttachRefused where
  activationId : Option ActivationId
  code : String
  retryable : Bool
  deriving DecidableEq, Repr

structure ResumeRequest where
  resumeToken : String
  fromContent : SceneContentStamp
  deriving DecidableEq, Repr

structure AttachFramesLeg where
  activationId : ActivationId
  resume : Option ResumeRequest
  deriving DecidableEq, Repr

structure TrfIdentity where
  sessionHandle : String
  viewHandle : String
  deriving DecidableEq, Repr

structure FramesAttachOutcome where
  kind : String
  reason : Option String
  deriving DecidableEq, Repr

structure FramesLegAttached where
  sessionId : SessionId
  activationId : ActivationId
  resumeToken : String
  trfIdentity : TrfIdentity
  outcome : FramesAttachOutcome
  deriving DecidableEq, Repr

structure SceneApplied where
  sessionId : SessionId
  activationId : ActivationId
  appliedContent : SceneContentStamp
  deriving DecidableEq, Repr

structure RequestScene where
  sessionId : SessionId
  activationId : ActivationId
  leaseEpoch : Nat
  deriving DecidableEq, Repr

structure LeaseDimension where
  state : String
  reason : Option String
  deriving DecidableEq, Repr

structure CellActivationStatus where
  sessionId : SessionId
  activationId : ActivationId
  cellStatusSequence : Nat
  leaseTtlMs : Nat
  acceptedContent : Option SceneContentStamp
  presentation : LeaseDimension
  input : LeaseDimension
  deriving DecidableEq, Repr

/-! ## Credit -/

structure ReceiverCapacities where
  connectionCreditBytes : Nat
  perActivationCreditBytes : Nat
  maxConcurrentSeeds : Nat
  deriving DecidableEq, Repr

structure CreditAccountReturn where
  activationId : ActivationId
  bytesReturned : Nat
  deriving DecidableEq, Repr

/-- Cumulative bytes returned within a credit epoch. -/
structure TransportCredit where
  creditEpoch : Nat
  creditSequence : Nat
  connectionBytesReturned : Nat
  accounts : List CreditAccountReturn
  deriving DecidableEq, Repr

/-! ## Geometry -/

structure GeometryClaimant where
  clientId : ClientId
  viewId : ViewId
  deriving DecidableEq, Repr

/-- The claimant and the generation the cell minted for its hold. -/
structure GeometryHolder where
  clientId : ClientId
  viewId : ViewId
  holderGeneration : Nat
  deriving DecidableEq, Repr

structure ClaimGeometry where
  sessionId : SessionId
  activationId : ActivationId
  claimant : GeometryClaimant
  cols : Nat
  rows : Nat
  expectRevision : Nat
  deriving DecidableEq, Repr

structure ReleaseGeometry where
  sessionId : SessionId
  activationId : ActivationId
  holder : GeometryHolder
  deriving DecidableEq, Repr

structure TransferGeometry where
  sessionId : SessionId
  activationId : ActivationId
  fromHolder : GeometryHolder
  toClaimant : GeometryClaimant
  expectRevision : Nat
  cols : Nat
  rows : Nat
  deriving DecidableEq, Repr

structure GeometryCommitted where
  holder : GeometryHolder
  geometryRevision : Nat
  cols : Nat
  rows : Nat
  deriving DecidableEq, Repr

structure GeometryRefused where
  code : String
  currentHolder : Option GeometryHolder
  geometryRevision : Option Nat
  deriving DecidableEq, Repr

structure GeometryStateHolder where
  clientId : ClientId
  viewId : ViewId
  holderGeneration : Nat
  face : Option GeometryHolderFace
  deriving DecidableEq, Repr

/-- The seat as it now is. -/
structure GeometryState where
  sessionId : SessionId
  holder : Option GeometryStateHolder
  geometryRevision : Nat
  cols : Nat
  rows : Nat
  deriving DecidableEq, Repr

/-! ## Input and selection -/

structure SendInput where
  sessionId : SessionId
  activationId : ActivationId
  leaseEpoch : Nat
  inputSequence : Nat
  deriving DecidableEq, Repr

structure SelectionTextRequest where
  sessionId : SessionId
  activationId : ActivationId
  leaseEpoch : Nat
  deriving DecidableEq, Repr

/-- What the cell says on a leg, each under its wire tag. -/
inductive CellMessage where
  | attachRefused (body : AttachRefused)
  | controlLegAttached (body : ControlLegAttached)
  | framesLegAttached (body : FramesLegAttached)
  | cellActivationStatus (body : CellActivationStatus)
  | demandAccepted (demandSequence : Nat)
  | geometryCommitted (body : GeometryCommitted)
  | geometryRefused (body : GeometryRefused)
  | geometryState (body : GeometryState)
  deriving DecidableEq, Repr

end VibeField.Tp
