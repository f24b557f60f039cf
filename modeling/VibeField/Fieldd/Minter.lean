import VibeField.Base.Ledger
import VibeField.Base.Machine
import VibeField.Fieldd.Principal

/-!
# The minter of terminal grants

The minter keeps three ledgers in memory.  Two count generations: of the transport grants
of a client and a cell, of the attach grants of a client and a session.  The third
remembers the last answers to renewals.  A client id carries the minter's epoch, so a
restarted daemon, whose ledgers are empty, mints for clients no cell has met.

A grant is signed with the key of its cell.  The signature is a parameter.
-/

namespace VibeField.Fieldd

open Ledger
open Tp (AttachRight CellBootId Channel GeometryHolderFace TransportClaims)

/-! ## The face of a holder -/

/-- One row of the roster of devices. -/
structure DeviceInfo where
  deviceId : String
  name : String
  platform : Option String := none
  docHost : Option Bool := none
  deriving DecidableEq, Repr

structure HolderFaceRoster where
  currentDeviceId : String
  get : String → Option DeviceInfo
  deviceIdByNodeId : String → Option String

def osOfPlatform : Option String → Option String
  | some "darwin" => some "macos"
  | some "win32" => some "windows"
  | some "linux" => some "linux"
  | _ => none

def faceOf (kind : String) (row : Option DeviceInfo) (os : Option String) :
    Option GeometryHolderFace :=
  match row with
  | none => none
  | some row =>
    if row.name.length = 0 ∨ row.name = row.deviceId then none
    else some { kind := kind, name := row.name, os := os.or (osOfPlatform row.platform) }

def phoneFaceOf (row : Option DeviceInfo) : Option GeometryHolderFace :=
  if row.bind (fun row => row.docHost) = some true then none
  else faceOf "phone" row (some "ios")

def holderFaceFor (principal : GrantPrincipal) (forwardedFor : Option ForwardedFor)
    (roster : Option HolderFaceRoster) : Option GeometryHolderFace :=
  match roster with
  | none => none
  | some roster =>
    if principal.kind = "local-token" ∧ principal.rendererParticipant.isSome then
      faceOf "window" (roster.get roster.currentDeviceId) none
    else if isSelfTailnetPrincipal principal then
      phoneFaceOf ((principal.tailscaleId.bind roster.deviceIdByNodeId).bind roster.get)
    else if isSelfPeerDaemon principal then
      match forwardedFor with
      | none => none
      | some f =>
        match f.clientDeviceId with
        | some device => phoneFaceOf (roster.get device)
        | none =>
          if f.clientKind = "renderer" then faceOf "peer-window" (roster.get f.deviceId) none
          else none
    else none

/-! ## Grants -/

def tpTransportGrantTtlMs : Nat := 60000

def tpAttachGrantTtlMs : Nat := Tp.maxGrantLifetimeMs

/-- The key of one cell boot, as its route row delivers it. -/
structure CellGrantKey where
  cellBootId : CellBootId
  keyHex : String
  keyGeneration : Nat
  deriving DecidableEq, Repr

inductive GrantType where
  | cellTransportGrant
  | sessionAttachGrant
  deriving DecidableEq, Repr

structure GrantKeyId where
  cellBootId : CellBootId
  keyGeneration : Nat
  deriving DecidableEq, Repr

structure GrantProtectedHeader where
  v : Nat
  typ : GrantType
  iss : String
  alg : String
  kid : GrantKeyId
  deriving DecidableEq, Repr

structure RouteBinding where
  cellBootId : CellBootId
  routeRevision : Nat
  leaseEpoch : Option Nat := none
  deriving DecidableEq, Repr

structure SessionAttachGrantClaims where
  audienceCellBootId : CellBootId
  clientId : String
  sessionId : String
  leaseEpoch : Option Nat
  routeRevision : Nat
  grantGeneration : Nat
  rights : List AttachRight
  issuedAt : Nat
  expiresAt : Nat
  face : Option GeometryHolderFace
  deriving DecidableEq, Repr

/-- What a signature covers beside the header. -/
inductive GrantClaims where
  | transport (claims : TransportClaims)
  | attach (claims : SessionAttachGrantClaims)
  deriving DecidableEq, Repr

abbrev SignGrant := CellGrantKey → GrantProtectedHeader → GrantClaims → String

structure CellTransportGrant where
  «protected» : GrantProtectedHeader
  claims : TransportClaims
  mac : String
  deriving DecidableEq, Repr

structure SessionAttachGrant where
  «protected» : GrantProtectedHeader
  claims : SessionAttachGrantClaims
  mac : String
  deriving DecidableEq, Repr

def protectedHeader (key : CellGrantKey) (typ : GrantType) : GrantProtectedHeader where
  v := 1
  typ := typ
  iss := "fieldd"
  alg := "HS256"
  kid := { cellBootId := key.cellBootId, keyGeneration := key.keyGeneration }

/-- The two doors of a cell. -/
structure TicketEndpointSet where
  controlUrl : String
  framesUrl : String
  deriving DecidableEq, Repr

structure TerminalOpenTicket where
  route : RouteBinding
  endpoints : TicketEndpointSet
  transportGrant : CellTransportGrant
  attachGrant : SessionAttachGrant
  deriving DecidableEq, Repr

/-- What an attach grant is minted for. -/
structure AttachInput where
  key : CellGrantKey
  principal : GrantPrincipal
  sessionId : String
  route : RouteBinding
  forwardedFor : Option ForwardedFor := none
  deriving DecidableEq, Repr

structure MintTicketInput extends AttachInput where
  doors : TicketEndpointSet
  deriving DecidableEq, Repr

structure RenewAttachInput extends AttachInput where
  expectGeneration : Nat
  requestId : String
  deriving DecidableEq, Repr

structure RpcCallError where
  kind : String
  message : String
  retryable : Bool
  deriving DecidableEq, Repr

/-! ## The minter -/

def renewalMemory : Nat := 8

def mintedClientId (principal : GrantPrincipal) (epoch : String)
    (forwardedFor : Option ForwardedFor) : String :=
  clientIdFor principal forwardedFor ++ "~" ++ epoch

def connectionSetIdFor (clientId : String) (cellBootId : CellBootId) : String :=
  clientId ++ "@" ++ cellBootId

def ledgerKey (clientId name : String) : String := clientId ++ "|" ++ name

structure TerminalGrantMinter where
  epoch : String
  transportGenerations : Dict String Nat
  attachGenerations : Dict String Nat
  renewals : Dict String (List (String × SessionAttachGrant))

/-- What a mint reads outside the ledgers: the clock, the roster and fresh random bytes. -/
structure Moment where
  now : Nat
  roster : Option HolderFaceRoster := none
  nonce : String := ""

namespace TerminalGrantMinter

def new (epoch : String) : TerminalGrantMinter where
  epoch := epoch
  transportGenerations := ∅
  attachGenerations := ∅
  renewals := ∅

def mintTransport (sign : SignGrant) (m : TerminalGrantMinter) (key : CellGrantKey)
    (principal : GrantPrincipal) (forwardedFor : Option ForwardedFor) (w : Moment) :
    TerminalGrantMinter × CellTransportGrant :=
  let clientId := mintedClientId principal m.epoch forwardedFor
  let ledger := ledgerKey clientId key.cellBootId
  let claims : TransportClaims :=
    { audienceCellBootId := key.cellBootId
      clientId := clientId
      connectionSetId := connectionSetIdFor clientId key.cellBootId
      allowedChannels := [.control, .frames]
      transportGrantGeneration := count m.transportGenerations ledger + 1
      issuedAt := w.now
      expiresAt := w.now + tpTransportGrantTtlMs
      nonce := w.nonce }
  let header := protectedHeader key .cellTransportGrant
  ({ m with transportGenerations := bump m.transportGenerations ledger },
    { «protected» := header, claims := claims, mac := sign key header (.transport claims) })

def attachGrantAt (sign : SignGrant) (input : AttachInput) (clientId : String)
    (generation : Nat) (w : Moment) : SessionAttachGrant :=
  let claims : SessionAttachGrantClaims :=
    { audienceCellBootId := input.key.cellBootId
      clientId := clientId
      sessionId := input.sessionId
      routeRevision := input.route.routeRevision
      leaseEpoch := input.route.leaseEpoch
      grantGeneration := generation
      rights := rightsFor input.principal input.forwardedFor
      face := holderFaceFor input.principal input.forwardedFor w.roster
      issuedAt := w.now
      expiresAt := w.now + tpAttachGrantTtlMs }
  let header := protectedHeader input.key .sessionAttachGrant
  { «protected» := header, claims := claims, mac := sign input.key header (.attach claims) }

def bumpAttachGeneration (m : TerminalGrantMinter) (clientId sessionId : String) :
    TerminalGrantMinter × Nat :=
  let ledger := ledgerKey clientId sessionId
  ({ m with attachGenerations := bump m.attachGenerations ledger },
    count m.attachGenerations ledger + 1)

def mintAttach (sign : SignGrant) (m : TerminalGrantMinter) (input : AttachInput) (w : Moment) :
    TerminalGrantMinter × SessionAttachGrant :=
  let clientId := mintedClientId input.principal m.epoch input.forwardedFor
  let (m, generation) := m.bumpAttachGeneration clientId input.sessionId
  (m, attachGrantAt sign input clientId generation w)

def mintTicket (sign : SignGrant) (m : TerminalGrantMinter) (input : MintTicketInput)
    (w w' : Moment) : TerminalGrantMinter × TerminalOpenTicket :=
  let (m, transportGrant) :=
    m.mintTransport sign input.key input.principal input.forwardedFor w
  let (m, attachGrant) := m.mintAttach sign input.toAttachInput w'
  (m, { route := input.route, endpoints := input.doors, transportGrant, attachGrant })

def remembered (m : TerminalGrantMinter) (ledger requestId : String) :
    Option SessionAttachGrant :=
  answerTo ((m.renewals.lookup ledger).getD []) requestId

def conflict (expected current : Nat) : RpcCallError where
  kind := "CONFLICT"
  message := "renewAttach: expected grant generation " ++ toString expected ++
    " but the current one is " ++ toString current
  retryable := false

def renewAttach (sign : SignGrant) (m : TerminalGrantMinter) (input : RenewAttachInput)
    (w : Moment) : TerminalGrantMinter × Except RpcCallError SessionAttachGrant :=
  let clientId := mintedClientId input.principal m.epoch input.forwardedFor
  let ledger := ledgerKey clientId input.sessionId
  match m.remembered ledger input.requestId with
  | some grant => (m, .ok grant)
  | none =>
    let current := count m.attachGenerations ledger
    if current ≠ input.expectGeneration then
      (m, .error (conflict input.expectGeneration current))
    else
      let (m, generation) := m.bumpAttachGeneration clientId input.sessionId
      let grant := attachGrantAt sign input.toAttachInput clientId generation w
      let memory :=
        remember renewalMemory ((m.renewals.lookup ledger).getD []) input.requestId grant
      ({ m with renewals := m.renewals.insert ledger memory }, .ok grant)

def attachGeneration (m : TerminalGrantMinter) (principal : GrantPrincipal) (sessionId : String)
    (forwardedFor : Option ForwardedFor) : Nat :=
  count m.attachGenerations (ledgerKey (mintedClientId principal m.epoch forwardedFor) sessionId)

end TerminalGrantMinter

/-! ## What a call does -/

def SessionAttachGrant.ledger (g : SessionAttachGrant) : String :=
  ledgerKey g.claims.clientId g.claims.sessionId

def CellTransportGrant.ledger (g : CellTransportGrant) : String :=
  ledgerKey g.claims.clientId g.claims.audienceCellBootId

namespace TerminalGrantMinter

def ledgerOf (m : TerminalGrantMinter) (input : AttachInput) : String :=
  ledgerKey (mintedClientId input.principal m.epoch input.forwardedFor) input.sessionId

variable (sign : SignGrant)

theorem mintAttach_ledger (m : TerminalGrantMinter) (input : AttachInput) (w : Moment) :
    (m.mintAttach sign input w).2.ledger = m.ledgerOf input := rfl

theorem mintAttach_generation (m : TerminalGrantMinter) (input : AttachInput) (w : Moment) :
    (m.mintAttach sign input w).2.claims.grantGeneration =
      count m.attachGenerations (m.ledgerOf input) + 1 := rfl

theorem renewAttach_cases (m : TerminalGrantMinter) (input : RenewAttachInput) (w : Moment) :
    (∃ grant, m.remembered (m.ledgerOf input.toAttachInput) input.requestId = some grant ∧
      m.renewAttach sign input w = (m, .ok grant)) ∨
    (m.remembered (m.ledgerOf input.toAttachInput) input.requestId = none ∧
      count m.attachGenerations (m.ledgerOf input.toAttachInput) ≠ input.expectGeneration ∧
      m.renewAttach sign input w =
        (m, .error (conflict input.expectGeneration
          (count m.attachGenerations (m.ledgerOf input.toAttachInput))))) ∨
    (m.remembered (m.ledgerOf input.toAttachInput) input.requestId = none ∧
      count m.attachGenerations (m.ledgerOf input.toAttachInput) = input.expectGeneration ∧
      m.renewAttach sign input w =
        ({ (m.mintAttach sign input.toAttachInput w).1 with
            renewals := m.renewals.insert (m.ledgerOf input.toAttachInput)
              (remember renewalMemory
                ((m.renewals.lookup (m.ledgerOf input.toAttachInput)).getD []) input.requestId
                (m.mintAttach sign input.toAttachInput w).2) },
          .ok (m.mintAttach sign input.toAttachInput w).2)) := by
  have hfun : m.renewAttach sign input w =
      match m.remembered (m.ledgerOf input.toAttachInput) input.requestId with
      | some grant => (m, .ok grant)
      | none =>
        if count m.attachGenerations (m.ledgerOf input.toAttachInput) ≠
            input.expectGeneration then
          (m, .error (conflict input.expectGeneration
            (count m.attachGenerations (m.ledgerOf input.toAttachInput))))
        else
          ({ (m.mintAttach sign input.toAttachInput w).1 with
              renewals := m.renewals.insert (m.ledgerOf input.toAttachInput)
                (remember renewalMemory
                  ((m.renewals.lookup (m.ledgerOf input.toAttachInput)).getD []) input.requestId
                  (m.mintAttach sign input.toAttachInput w).2) },
            .ok (m.mintAttach sign input.toAttachInput w).2) := rfl
  rw [hfun]
  cases hrem : m.remembered (m.ledgerOf input.toAttachInput) input.requestId with
  | some grant => exact .inl ⟨grant, rfl, rfl⟩
  | none =>
    by_cases hcur :
        count m.attachGenerations (m.ledgerOf input.toAttachInput) = input.expectGeneration
    · exact .inr (.inr ⟨rfl, hcur, if_neg (not_not_intro hcur)⟩)
    · exact .inr (.inl ⟨rfl, hcur, if_pos hcur⟩)

end TerminalGrantMinter
end VibeField.Fieldd
