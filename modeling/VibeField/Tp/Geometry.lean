import VibeField.Tp.Activation

/-!
# The geometry seat

The lease of one session: who holds the seat, its revision, the generation the
next holder is minted from, and the size last committed on the terminal.  A verb
is prechecked into an engine call, and its outcome commits or refuses the lease.
-/

namespace VibeField.Tp

structure HolderRecord where
  clientId : ClientId
  viewId : ViewId
  holderGeneration : Nat
  /-- the activation that holds, which is also its view's key in the engine -/
  activationId : ActivationId
  controlEpoch : Nat
  resizeSequence : Nat
  deriving DecidableEq, Repr

namespace HolderRecord

def wire (h : HolderRecord) : GeometryHolder where
  clientId := h.clientId
  viewId := h.viewId
  holderGeneration := h.holderGeneration

def announced (h : HolderRecord) (face : Option GeometryHolderFace) : GeometryStateHolder where
  clientId := h.clientId
  viewId := h.viewId
  holderGeneration := h.holderGeneration
  face := face

def named (h : HolderRecord) (holder : GeometryHolder) : Bool :=
  h.clientId == holder.clientId && h.viewId == holder.viewId &&
    h.holderGeneration == holder.holderGeneration

end HolderRecord

/-- The seat's committed size outlives its holders: a release resizes nothing. -/
structure GeometryLease where
  holder : Option HolderRecord
  revision : Nat
  nextGeneration : Nat
  committed : Option (Nat × Nat)
  deriving DecidableEq, Repr

def GeometryLease.default : GeometryLease where
  holder := none
  revision := 0
  nextGeneration := 0
  committed := none

/-- The engine call a precheck authorized. -/
inductive GeometryOp where
  | claim (cols rows : Nat)
  | resize (controlEpoch resizeSequence cols rows : Nat)
  deriving DecidableEq, Repr

structure GeometryProceed where
  callerActivationId : ActivationId
  sessionId : SessionId
  clientId : ClientId
  /-- the view to act on, the claimant's or the destination's activation id -/
  ghostteaViewId : ViewId
  attachmentEpoch : Nat
  baseRevision : Nat
  claimantViewId : ViewId
  op : GeometryOp
  deriving DecidableEq, Repr

inductive GeometryDecision where
  | refuse (effects : List Effect)
  | proceed (orders : GeometryProceed)
  deriving DecidableEq, Repr

/-- What the engine did. -/
inductive GeometryOutcome where
  | claimed (controlEpoch cols rows : Nat)
  | resized (cols rows : Nat)
  | engineRefused
  deriving DecidableEq, Repr

def GeometryOutcome.committedSize : GeometryOutcome → Option (Nat × Nat)
  | .claimed _ cols rows => some (cols, rows)
  | .resized cols rows => some (cols, rows)
  | .engineRefused => none

def geometryRefuse (leg : LegRef) (code : String) (currentHolder : Option GeometryHolder)
    (geometryRevision : Option Nat) : List Effect :=
  [.send leg (.geometryRefused
    { code := code, currentHolder := currentHolder, geometryRevision := geometryRevision })]

namespace GeometryLease

def holderWire (l : GeometryLease) : Option GeometryHolder := l.holder.map HolderRecord.wire

def refuseWithSeat (l : GeometryLease) (leg : LegRef) (code : String) : List Effect :=
  geometryRefuse leg code l.holderWire (some l.revision)

def ownSeat (l : GeometryLease) (claimant : GeometryClaimant) : Option HolderRecord :=
  l.holder.filter fun h => h.clientId == claimant.clientId && h.viewId == claimant.viewId

def claimOp (l : GeometryLease) (msg : ClaimGeometry) : GeometryOp :=
  match l.ownSeat msg.claimant with
  | some h => .resize h.controlEpoch (h.resizeSequence + 1) msg.cols msg.rows
  | none => .claim msg.cols msg.rows

def vacate (l : GeometryLease) : GeometryLease :=
  { l with holder := none, revision := l.revision + 1 }

def recordSize (l : GeometryLease) (outcome : GeometryOutcome) : GeometryLease :=
  { l with committed := outcome.committedSize <|> l.committed }

def seat (l : GeometryLease) (proceed : GeometryProceed) (controlEpoch : Nat) : GeometryLease :=
  { l with
    nextGeneration := l.nextGeneration + 1
    holder := some
      { clientId := proceed.clientId
        viewId := proceed.claimantViewId
        holderGeneration := l.nextGeneration + 1
        activationId := proceed.ghostteaViewId
        controlEpoch := controlEpoch
        resizeSequence := 0 }
    revision := l.revision + 1 }

def countResize (l : GeometryLease) (h : HolderRecord) : GeometryLease :=
  { l with
    holder := some { h with resizeSequence := h.resizeSequence + 1 }
    revision := l.revision + 1 }

def committedReply (leg : LegRef) (holder : GeometryHolder) (revision cols rows : Nat) :
    List Effect :=
  [.send leg (.geometryCommitted
    { holder := holder, geometryRevision := revision, cols := cols, rows := rows })]

def refuseLapsed (l : GeometryLease) (leg : LegRef) : GeometryLease × List Effect :=
  let emptied := if l.holder.isSome then l.vacate else l
  (emptied, geometryRefuse leg "DESTINATION_INELIGIBLE" none (some emptied.revision))

/-- Commit the holder, or refuse, answering the caller on `leg`. -/
def commitLease (l : GeometryLease) (leg : LegRef) (proceed : GeometryProceed)
    (outcome : GeometryOutcome) (destinationLive : Bool) : GeometryLease × List Effect :=
  if l.revision ≠ proceed.baseRevision then
    (l, l.refuseWithSeat leg "STALE_REVISION")
  else
    match outcome with
    | .engineRefused => (l, l.refuseWithSeat leg "VIEW_SUPERSEDED")
    | .claimed controlEpoch cols rows =>
      if !destinationLive then
        l.refuseLapsed leg
      else
        let seated := l.seat proceed controlEpoch
        (seated, (seated.holderWire.map fun h =>
          committedReply leg h seated.revision cols rows).getD [])
    | .resized cols rows =>
      if !destinationLive then
        l.refuseLapsed leg
      else
        match l.holder with
        | none => (l, geometryRefuse leg "VIEW_SUPERSEDED" none (some l.revision))
        | some h =>
          let resized := l.countResize h
          (resized, committedReply leg h.wire resized.revision cols rows)

end GeometryLease
end VibeField.Tp
