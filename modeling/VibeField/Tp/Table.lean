import VibeField.Tp.Geometry

/-!
# The activation table

The cell's activations by id and by `{client, session}` key, the credit ledger
of every frames connection, and the geometry seat of every session.  This module
has the parts the operations share: the seat's announcements and release, and
the invalidation of one activation.
-/

namespace VibeField.Tp

structure ActivationTable where
  cellBootId : String
  byId : Dict ActivationId Activation
  byKey : Dict (ClientId × SessionId) ActivationId
  modelGenerations : Dict (SessionId × Nat) Nat
  nextModelGeneration : Nat
  credit : Dict ConnectionId CreditLedger
  geometry : Dict SessionId GeometryLease
  attachDeadline : Instant
  maxActivations : Nat

def refuse (leg : LegRef) (activationId : Option ActivationId) (code : String)
    (retryable : Bool) : Effect :=
  .send leg (.attachRefused
    { activationId := activationId, code := code, retryable := retryable })

namespace ActivationTable

def new (cellBootId : String) : ActivationTable where
  cellBootId := cellBootId
  byId := ∅
  byKey := ∅
  modelGenerations := ∅
  nextModelGeneration := 1
  credit := ∅
  geometry := ∅
  attachDeadline := fromMillis activationAttachDeadlineMs
  maxActivations := cellMaxConcurrentActivations

def get (t : ActivationTable) (activationId : ActivationId) : Option Activation :=
  t.byId.lookup activationId

def modify (t : ActivationTable) (activationId : ActivationId) (f : Activation → Activation) :
    ActivationTable :=
  { t with byId := t.byId.modify activationId f }

def sceneEpoch (t : ActivationTable) (modelGeneration : Nat) : SceneEpoch where
  cellBootId := t.cellBootId
  modelGeneration := modelGeneration

def resolveSceneEpoch (t : ActivationTable) (sessionId : SessionId) (engineEpoch : Nat) :
    ActivationTable × SceneEpoch :=
  match t.modelGenerations.lookup (sessionId, engineEpoch) with
  | some generation => (t, t.sceneEpoch generation)
  | none =>
    ({ t with
        nextModelGeneration := t.nextModelGeneration + 1
        modelGenerations :=
          t.modelGenerations.insert (sessionId, engineEpoch) t.nextModelGeneration },
      t.sceneEpoch t.nextModelGeneration)

def pruneModelGenerations (t : ActivationTable) (sessionIsLive : SessionId → Bool) :
    ActivationTable :=
  { t with modelGenerations := t.modelGenerations.retain fun key _ => sessionIsLive key.1 }

/-! ## Credit -/

def openCredit (t : ActivationTable) (connectionId : ConnectionId) (creditEpoch : Nat)
    (windows : ReceiverCapacities) (urgentReserve : Nat) : ActivationTable :=
  { t with
    credit := t.credit.insert connectionId (CreditLedger.new creditEpoch windows urgentReserve) }

def creditLedger (t : ActivationTable) (connectionId : ConnectionId) : Option CreditLedger :=
  t.credit.lookup connectionId

def creditReturned (t : ActivationTable) (connectionId : ConnectionId) (credit : TransportCredit) :
    ActivationTable × List Effect :=
  match t.credit.lookup connectionId with
  | none => (t, [])
  | some ledger =>
    let after := ledger.returned credit
    ({ t with credit := t.credit.insert connectionId after.1 }, after.2.map .wakePump)

def tryAdmit (t : ActivationTable) (connectionId : ConnectionId) (activationId : ActivationId)
    (bytes : Nat) (cls : UnitClass) : ActivationTable × Bool :=
  match t.credit.lookup connectionId with
  | none => (t, false)
  | some ledger =>
    let after := ledger.tryAdmit activationId bytes cls
    ({ t with credit := t.credit.insert connectionId after.1 }, after.2)

def canAdmit (t : ActivationTable) (connectionId : ConnectionId) (activationId : ActivationId)
    (bytes : Nat) (cls : UnitClass) : ActivationTable × Option Bool :=
  match t.credit.lookup connectionId with
  | none => (t, none)
  | some ledger =>
    let after := ledger.canAdmit activationId bytes cls
    ({ t with credit := t.credit.insert connectionId after.1 }, after.2)

/-! ## The seat -/

def lease (t : ActivationTable) (sessionId : SessionId) : GeometryLease :=
  (t.geometry.lookup sessionId).getD .default

def setLease (t : ActivationTable) (sessionId : SessionId) (lease : GeometryLease) :
    ActivationTable :=
  { t with geometry := t.geometry.insert sessionId lease }

def seatState (t : ActivationTable) (sessionId : SessionId) : Option GeometryState :=
  (t.geometry.lookup sessionId).bind fun lease =>
    lease.committed.map fun size =>
      { sessionId := sessionId
        holder := lease.holder.map fun h =>
          h.announced ((t.get h.activationId).bind fun a => a.face)
        geometryRevision := lease.revision
        cols := size.1
        rows := size.2 }

def seatAnnouncements (t : ActivationTable) (sessionId : SessionId) : List Effect :=
  match t.seatState sessionId with
  | none => []
  | some state =>
    (t.byId.values.filter fun a => a.sessionId == sessionId && a.control.geometryEvents).map
      fun a => .send a.control (.geometryState state)

def seatStateTo (t : ActivationTable) (sessionId : SessionId) (leg : LegRef) : List Effect :=
  if leg.geometryEvents then
    ((t.seatState sessionId).map fun state => .send leg (.geometryState state)).toList
  else
    []

def holdsSeat (t : ActivationTable) (sessionId : SessionId) (activationId : ActivationId) : Bool :=
  (t.geometry.lookup sessionId).any fun lease =>
    lease.holder.any fun h => h.activationId == activationId

def releaseGeometryIfHeld (t : ActivationTable) (sessionId : SessionId)
    (activationId : ActivationId) : ActivationTable × List Effect :=
  if t.holdsSeat sessionId activationId then
    let t := t.setLease sessionId (t.lease sessionId).vacate
    (t, t.seatAnnouncements sessionId)
  else
    (t, [])

/-! ## Invalidation -/

def forget (t : ActivationTable) (a : Activation) (activationId : ActivationId) :
    ActivationTable :=
  { t with
    byId := t.byId.erase activationId
    byKey := t.byKey.erase (a.clientId, a.sessionId) }

def closeAccount (t : ActivationTable) (a : Activation) : ActivationTable :=
  match a.frames with
  | none => t
  | some frames =>
    { t with credit := t.credit.modify frames.connectionId (·.closeAccount a.activationId) }

def invalidate (t : ActivationTable) (m : Moment) (activationId : ActivationId)
    (reason : Reason) : ActivationTable × List Effect :=
  match t.get activationId with
  | none => (t, [])
  | some a =>
    let released := (t.forget a activationId).releaseGeometryIfHeld a.sessionId activationId
    (released.1.closeAccount a, released.2 ++ a.revocationEffects m reason)

def invalidateAll (t : ActivationTable) (m : Moment) (reason : Reason) :
    List ActivationId → ActivationTable × List Effect
  | [] => (t, [])
  | id :: rest =>
    let first := t.invalidate m id reason
    let others := first.1.invalidateAll m reason rest
    (others.1, first.2 ++ others.2)

def idsWhere (t : ActivationTable) (p : Activation → Bool) : List ActivationId :=
  (t.byId.values.filter p).map Activation.activationId

end ActivationTable
end VibeField.Tp
