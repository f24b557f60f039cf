import VibeField.Tp.Ledger

/-!
# The host's keyring

One client's tickets and their renewals.  A generation is minted above the last one of
its key and above the floor.  A revoke names the generation every cell must refuse
below, one above every grant out, and until a new link opens for the client nothing is
minted.  The grants are the typed claims their issuer signs.
-/

namespace VibeField.Freeway

open Tp

abbrev RequestId := String

def transportGrantTtlMs : Nat := 60000

def keyringAttachTtlMs : Nat := 120000

def renewalMemory : Nat := 8

structure CellRoute where
  cellBootId : CellBootId
  routeRevision : Nat

structure SessionRoute where
  cellBootId : CellBootId
  leaseEpoch : Option Nat

structure Placement where
  cells : Dict CellBootId CellRoute
  sessions : Dict SessionId SessionRoute

/-- Why a row or a renewal is refused. -/
structure Refusal where
  code : String
  message : String
  retryable : Bool
  deriving DecidableEq, Repr

namespace Refusal

def noSession : Refusal where
  code := "NOT_FOUND"
  message := "no such session on this desktop"
  retryable := false

def noCell : Refusal where
  code := "UNAVAILABLE"
  message := "the session's terminal host is not serving"
  retryable := true

def revoked : Refusal where
  code := "UNAUTHORIZED"
  message := "this link's approval was revoked"
  retryable := false

def stale : Refusal where
  code := "CONFLICT"
  message := "the session's grant is at another generation"
  retryable := false

end Refusal

/-! ## Minting -/

structure TransportMint where
  clientId : ClientId
  connectionSetId : ConnectionSetId
  channels : List Channel
  generation : Nat
  issuedAt : Nat
  expiresAt : Nat
  nonce : Nonce

structure AttachMint where
  clientId : ClientId
  sessionId : SessionId
  leaseEpoch : Option Nat
  routeRevision : Nat
  generation : Nat
  rights : List AttachRight
  issuedAt : Nat
  expiresAt : Nat

/-- Claims of a `SessionAttachGrant`. -/
structure AttachGrant where
  audienceCellBootId : CellBootId
  clientId : ClientId
  sessionId : SessionId
  routeRevision : Nat
  grantGeneration : Nat
  rights : List AttachRight
  issuedAt : Nat
  expiresAt : Nat
  leaseEpoch : Option Nat
  deriving DecidableEq, Repr

def transportGrant (cellBootId : CellBootId) (mint : TransportMint) : TransportClaims where
  audienceCellBootId := cellBootId
  clientId := mint.clientId
  connectionSetId := mint.connectionSetId
  allowedChannels := [Channel.control, .frames].filter (· ∈ mint.channels)
  transportGrantGeneration := mint.generation
  issuedAt := mint.issuedAt
  expiresAt := mint.expiresAt
  nonce := mint.nonce

def attachGrant (cellBootId : CellBootId) (mint : AttachMint) : AttachGrant where
  audienceCellBootId := cellBootId
  clientId := mint.clientId
  sessionId := mint.sessionId
  routeRevision := mint.routeRevision
  grantGeneration := mint.generation
  rights := [AttachRight.geometry, .geometryAdmin, .input, .read].filter (· ∈ mint.rights)
  issuedAt := mint.issuedAt
  expiresAt := mint.expiresAt
  leaseEpoch := mint.leaseEpoch

def bump {κ : Type} [DecidableEq κ] (generations : Dict κ Nat) (key : κ) (floor : Nat) :
    Dict κ Nat × Nat :=
  let generation := max ((generations.lookup key).getD 0) floor + 1
  (generations.insert key generation, generation)

def route (sessionId : SessionId) (placement : Placement) :
    Except Refusal (SessionRoute × CellRoute) :=
  match placement.sessions.lookup sessionId with
  | none => .error .noSession
  | some session =>
    match placement.cells.lookup session.cellBootId with
    | none => .error .noCell
    | some cell => .ok (session, cell)

/-! ## The keyring -/

structure Ticket where
  cellBootId : CellBootId
  routeRevision : Nat
  leaseEpoch : Option Nat
  controlUrl : String
  framesUrl : String
  transportGrant : TransportClaims
  attachGrant : AttachGrant
  deriving DecidableEq, Repr

structure Keyring where
  clientId : ClientId
  rights : List AttachRight
  /-- Every mint is above this: a revoke's `beforeGeneration`, less one. -/
  floor : Nat
  /-- A revoke stands until `reopen`. -/
  revoked : Bool
  transportGenerations : Dict CellBootId Nat
  attachGenerations : Dict SessionId Nat
  renewals : Dict SessionId (List (RequestId × AttachGrant))

namespace Keyring

def new (clientId : ClientId) (rights : List AttachRight) : Keyring where
  clientId := clientId
  rights := rights
  floor := 0
  revoked := false
  transportGenerations := ∅
  attachGenerations := ∅
  renewals := ∅

def setRights (k : Keyring) (rights : List AttachRight) : Keyring := { k with rights := rights }

def minted (k : Keyring) : Nat :=
  (k.transportGenerations.values ++ k.attachGenerations.values).foldl max 0

def revoke (k : Keyring) : Keyring × Nat :=
  let before := max k.minted k.floor + 1
  ({ k with floor := before - 1, revoked := true, renewals := ∅ }, before)

def reopen (k : Keyring) : Keyring := { k with revoked := false }

def attach (k : Keyring) (sessionId : SessionId) (placement : Placement) (now : Nat) :
    Keyring × Except Refusal AttachGrant :=
  match route sessionId placement with
  | .error refusal => (k, .error refusal)
  | .ok (session, cell) =>
    let (generations, generation) := bump k.attachGenerations sessionId k.floor
    ({ k with attachGenerations := generations },
      .ok (Freeway.attachGrant cell.cellBootId
        { clientId := k.clientId
          sessionId := sessionId
          leaseEpoch := session.leaseEpoch
          routeRevision := cell.routeRevision
          generation := generation
          rights := k.rights
          issuedAt := now
          expiresAt := now + keyringAttachTtlMs }))

def ticket (k : Keyring) (sessionId : SessionId) (placement : Placement) (nonce : Nonce)
    (now : Nat) : Keyring × Except Refusal Ticket :=
  if k.revoked then
    (k, .error .revoked)
  else
    match route sessionId placement with
    | .error refusal => (k, .error refusal)
    | .ok (session, cell) =>
      let (generations, generation) := bump k.transportGenerations cell.cellBootId k.floor
      let transport := Freeway.transportGrant cell.cellBootId
        { clientId := k.clientId
          connectionSetId := k.clientId ++ "@" ++ cell.cellBootId
          channels := [.control, .frames]
          generation := generation
          issuedAt := now
          expiresAt := now + transportGrantTtlMs
          nonce := nonce }
      let attached := { k with transportGenerations := generations }.attach sessionId placement now
      (attached.1, attached.2.map fun grant =>
        { cellBootId := cell.cellBootId
          routeRevision := cell.routeRevision
          leaseEpoch := session.leaseEpoch
          controlUrl := "freeway://cell/" ++ cell.cellBootId ++ "/control"
          framesUrl := "freeway://cell/" ++ cell.cellBootId ++ "/frames"
          transportGrant := transport
          attachGrant := grant })

def tickets (k : Keyring) (placement : Placement) (now : Nat) :
    List (SessionId × Nonce) → Keyring × List (SessionId × Except Refusal Ticket)
  | [] => (k, [])
  | (sessionId, nonce) :: rest =>
    let row := k.ticket sessionId placement nonce now
    let rows := row.1.tickets placement now rest
    (rows.1, (sessionId, row.2) :: rows.2)

def remembered (k : Keyring) (sessionId : SessionId) (requestId : RequestId) :
    Option AttachGrant :=
  (k.renewals.lookup sessionId).bind fun memory =>
    (memory.find? fun answer => answer.1 == requestId).map Prod.snd

def remember (k : Keyring) (sessionId : SessionId) (requestId : RequestId) (grant : AttachGrant) :
    Keyring :=
  let memory := (k.renewals.lookup sessionId).getD [] ++ [(requestId, grant)]
  { k with renewals := k.renewals.insert sessionId (memory.drop (memory.length - renewalMemory)) }

/-- A renewal is a compare-and-set on the generation the client holds, idempotent by
its request. -/
def renew (k : Keyring) (sessionId : SessionId) (expectGeneration : Nat) (requestId : RequestId)
    (placement : Placement) (now : Nat) : Keyring × Except Refusal AttachGrant :=
  if k.revoked then
    (k, .error .revoked)
  else
    match k.remembered sessionId requestId with
    | some grant => (k, .ok grant)
    | none =>
      if (k.attachGenerations.lookup sessionId).getD 0 ≠ expectGeneration then
        (k, .error .stale)
      else
        let attached := k.attach sessionId placement now
        match attached.2 with
        | .error refusal => (attached.1, .error refusal)
        | .ok grant => (attached.1.remember sessionId requestId grant, .ok grant)

end Keyring
end VibeField.Freeway
