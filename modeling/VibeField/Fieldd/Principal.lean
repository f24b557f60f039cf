import VibeField.Base.Uri
import VibeField.Tp.Grant

/-!
# Who a grant is minted for

A principal is what the door made of a caller: a window or another holder of a local
token, a caller at the tailnet door, an agent, a plugin, or another desktop's daemon.  A
daemon forwards calls for the windows and the phones behind it, and says for whom.  The
client of a grant is named after the principal, and after whom a daemon's call is for.
-/

namespace VibeField.Fieldd

open Uri
open Tp (AttachRight)

/-! ## The principal a minter sees -/

structure RendererParticipant where
  participantId : String
  incarnation : String
  deriving DecidableEq, Repr

structure GrantPrincipal where
  kind : String
  tokenId : Option String := none
  login : Option String := none
  /-- The node id the sidecar injected; an older sidecar injects none. -/
  tailscaleId : Option String := none
  deviceId : Option String := none
  self : Option Bool := none
  rendererParticipant : Option RendererParticipant := none
  deriving DecidableEq, Repr

/-- Whom a daemon's call is for, as it restates it. -/
structure ForwardedFor where
  clientKind : String
  deviceId : String
  windowId : Option String := none
  userId : Option String := none
  clientDeviceId : Option String := none
  deriving DecidableEq, Repr

def isSelfTailnetPrincipal (principal : GrantPrincipal) : Bool :=
  principal.kind == "tailnet" && principal.self == some true

def isSelfPeerDaemon (principal : GrantPrincipal) : Bool := principal.kind == "peer-fieldd"

def isSelfPrincipal (principal : GrantPrincipal) : Bool :=
  principal.kind == "local-token" || principal.kind == "shell-main" ||
    isSelfTailnetPrincipal principal || isSelfPeerDaemon principal

def forwardedClientKey (carrierDeviceId : String) (forwardedFor : Option ForwardedFor) :
    Option String :=
  match forwardedFor with
  | none => none
  | some f =>
    let client : Option String :=
      match f.clientDeviceId, f.windowId with
      | some device, _ => some ("phone:" ++ encodeURIComponent device)
      | none, some window => some (encodeURIComponent window)
      | none, none => none
    client.map fun client =>
      if f.deviceId = carrierDeviceId then client
      else encodeURIComponent f.deviceId ++ "/" ++ client

/-- The principal's identity. -/
def clientIdFor (principal : GrantPrincipal) (forwardedFor : Option ForwardedFor) : String :=
  match principal.rendererParticipant with
  | some rp => "win:" ++ rp.participantId ++ "#" ++ rp.incarnation
  | none =>
    if principal.kind = "tailnet" ∨ principal.kind = "tailnet-guest" then
      let login := principal.login.getD "unknown"
      match principal.tailscaleId with
      | none => principal.kind ++ ":" ++ login
      | some node => principal.kind ++ ":" ++ login ++ "#" ++ node
    else
      match principal.deviceId with
      | some device =>
        if principal.kind = "peer-fieldd" then
          let daemon := "peer-fieldd:" ++ encodeURIComponent device
          match forwardedClientKey device forwardedFor with
          | none => daemon
          | some client => daemon ++ "#" ++ client
        else
          match principal.tokenId with
          | some tokenId => principal.kind ++ ":" ++ tokenId
          | none => principal.kind
      | none =>
        match principal.tokenId with
        | some tokenId => principal.kind ++ ":" ++ tokenId
        | none => principal.kind

def rightsFor (principal : GrantPrincipal) (forwardedFor : Option ForwardedFor) :
    List AttachRight :=
  if isSelfPeerDaemon principal then
    match forwardedFor with
    | some _ => [.geometry, .input, .read]
    | none => [.read]
  else if isSelfPrincipal principal then [.geometry, .input, .read]
  else [.read]

/-! ## The principals the door makes -/

def isParticipantPart (text : String) : Bool :=
  match text.toList with
  | [] => false
  | first :: rest =>
    first.isAlphanum &&
      rest.all (fun c => c.isAlphanum || c == '.' || c == '_' || c == ':' || c == '-') &&
      decide (text.length ≤ 256)

structure ParticipantPart where
  text : String
  valid : isParticipantPart text = true

inductive Principal where
  | localToken (tokenId : String) (participant : Option (ParticipantPart × ParticipantPart))
  | shellMain (tokenId : String)
  | tailnet (login : String) (tailscaleId : Option String) (self : Option Bool)
  | tailnetGuest (login : String) (tailscaleId : Option String)
  | mcpAgent (sessionId : String)
  | peerFieldd (deviceId : String) (tailscaleId : Option String)
  | plugin (id : String) (tokenId : Option String)

/-- What the minter sees of it. -/
def Principal.grant : Principal → GrantPrincipal
  | localToken tokenId participant =>
    { kind := "local-token"
      tokenId := some tokenId
      rendererParticipant := participant.map fun p => ⟨p.1.text, p.2.text⟩ }
  | shellMain tokenId => { kind := "shell-main", tokenId := some tokenId }
  | tailnet login tailscaleId self =>
    { kind := "tailnet", login := some login, tailscaleId := tailscaleId, self := self }
  | tailnetGuest login tailscaleId =>
    { kind := "tailnet-guest", login := some login, tailscaleId := tailscaleId }
  | mcpAgent _ => { kind := "mcp-agent" }
  | peerFieldd deviceId tailscaleId =>
    { kind := "peer-fieldd", deviceId := some deviceId, tailscaleId := tailscaleId }
  | plugin _ tokenId => { kind := "plugin", tokenId := tokenId }

/-! ## Whom a client id is of -/

inductive TokenKind where
  | localToken
  | shellMain
  | plugin
  deriving DecidableEq, Repr

def TokenKind.name : TokenKind → String
  | localToken => "local-token"
  | shellMain => "shell-main"
  | plugin => "plugin"

/-- The window or the phone a forward is for. -/
inductive Inner where
  | window (windowId : String)
  | phone (deviceId : String)
  deriving DecidableEq, Repr

/-- One client, as the door can tell it.  A caller at the tailnet door whose node was not
injected is told by its login alone; agents, and plugins without a token, are not told
apart. -/
inductive Client where
  | window (participantId incarnation : String)
  | token (kind : TokenKind) (tokenId : String)
  | agents
  | plugins
  | tailnet (guest : Bool) (login : String) (node : Option String)
  | daemon (carrier : String)
  | forwarded (carrier home : String) (inner : Inner)
  deriving DecidableEq, Repr

def ForwardedFor.inner (f : ForwardedFor) : Option Inner :=
  match f.clientDeviceId, f.windowId with
  | some device, _ => some (.phone device)
  | none, some window => some (.window window)
  | none, none => none

/-- The client a request comes from. -/
def clientOf (principal : Principal) (forwardedFor : Option ForwardedFor) : Client :=
  match principal with
  | .localToken _ (some (participantId, incarnation)) =>
    .window participantId.text incarnation.text
  | .localToken tokenId none => .token .localToken tokenId
  | .shellMain tokenId => .token .shellMain tokenId
  | .tailnet login node _ => .tailnet false login node
  | .tailnetGuest login node => .tailnet true login node
  | .mcpAgent _ => .agents
  | .plugin _ (some tokenId) => .token .plugin tokenId
  | .plugin _ none => .plugins
  | .peerFieldd deviceId _ =>
    match forwardedFor with
    | none => .daemon deviceId
    | some f =>
      match f.inner with
      | none => .daemon deviceId
      | some inner => .forwarded deviceId f.deviceId inner

end VibeField.Fieldd
