import VibeField.Base.Watermark
import VibeField.Tp.Grant

/-!
# The transport ledger

The cell's anti-rollback memory: the highest accepted generation of every
connection set and of every client's session, the floor under a revoked client,
and the consumed `(nonce, channel)` pairs.  Nothing is recorded before a grant is
committed, and a prune drops what has served its time.
-/

namespace VibeField.Tp

inductive TransportRefusal where
  | grantGenerationRollback
  | grantNonceReplayed
  | channelNotAllowed
  | versionUnsupported
  | setChannelBusy
  | capacity
  deriving DecidableEq, Repr

namespace TransportRefusal

def asStr : TransportRefusal → String
  | grantGenerationRollback => "GRANT_GENERATION_ROLLBACK"
  | grantNonceReplayed => "GRANT_NONCE_REPLAYED"
  | channelNotAllowed => "CHANNEL_NOT_ALLOWED"
  | versionUnsupported => "VERSION_UNSUPPORTED"
  | setChannelBusy => "SET_CHANNEL_BUSY"
  | capacity => "CAPACITY"

def retryable : TransportRefusal → Bool
  | setChannelBusy | capacity => true
  | _ => false

end TransportRefusal

/-- The leg that holds a channel. -/
structure CurrentLeg where
  transportGrantGeneration : Nat
  grantIssuedAt : Nat
  deriving DecidableEq, Repr

structure Admission where
  raisesHighWater : Bool
  replacesCurrentLeg : Bool
  deriving DecidableEq, Repr

def TransportClaims.grantIssuedAtNewerThan (claims : TransportClaims) (leg : CurrentLeg) : Bool :=
  claims.issuedAt > leg.grantIssuedAt

structure TransportLedger where
  maxClockSkewMs : Nat
  maxGrantLifetimeMs : Nat
  transportHighWater : Watermarks ConnectionSetId
  attachHighWater : Watermarks (ClientId × SessionId)
  clientFloors : Watermarks ClientId
  nonces : Dict (Nonce × Channel) Nat

namespace TransportLedger

def new (maxClockSkewMs maxGrantLifetimeMs : Nat) : TransportLedger where
  maxClockSkewMs := maxClockSkewMs
  maxGrantLifetimeMs := maxGrantLifetimeMs
  transportHighWater := ∅
  attachHighWater := ∅
  clientFloors := ∅
  nonces := ∅

def limits (l : TransportLedger) : GrantValidityLimits where
  maxClockSkewMs := l.maxClockSkewMs
  maxGrantLifetimeMs := l.maxGrantLifetimeMs

def tombstoneUntil (l : TransportLedger) (firstAcceptedAtMs : Nat) : Nat :=
  firstAcceptedAtMs + l.maxGrantLifetimeMs + l.maxClockSkewMs

def belowFloor (l : TransportLedger) (clientId : ClientId) (generation : Nat) : Bool :=
  l.clientFloors.below clientId generation

/-- Decide the admission of a verified grant, given the leg that holds the
channel.  Nothing is recorded. -/
def checkTransport (l : TransportLedger) (claims : TransportClaims) (channel : Channel)
    (current : Option CurrentLeg) : Except TransportRefusal Admission :=
  if !claims.allowedChannels.contains channel then
    .error .channelNotAllowed
  else if l.transportHighWater.below claims.connectionSetId claims.transportGrantGeneration then
    .error .grantGenerationRollback
  else if l.belowFloor claims.clientId claims.transportGrantGeneration then
    .error .grantGenerationRollback
  else if (l.nonces.lookup (claims.nonce, channel)).isSome then
    .error .grantNonceReplayed
  else
    let above := HighWater.raises (l.transportHighWater.lookup claims.connectionSetId)
      claims.transportGrantGeneration
    match current with
    | none => .ok { raisesHighWater := above, replacesCurrentLeg := false }
    | some leg =>
      if above || claims.grantIssuedAtNewerThan leg then
        .ok { raisesHighWater := above, replacesCurrentLeg := true }
      else
        .error .setChannelBusy

def commitTransport (l : TransportLedger) (claims : TransportClaims) (channel : Channel)
    (now : Nat) : TransportLedger :=
  { l with
    transportHighWater := l.transportHighWater.raise claims.connectionSetId
      { generation := claims.transportGrantGeneration, firstAcceptedAtMs := now }
    nonces := l.nonces.insert (claims.nonce, channel)
      (saturatingAdd claims.expiresAt l.maxClockSkewMs) }

def acceptAttachGeneration (l : TransportLedger) (clientId : ClientId) (sessionId : SessionId)
    (grantGeneration now : Nat) : TransportLedger × Bool :=
  if l.belowFloor clientId grantGeneration then
    (l, false)
  else if l.attachHighWater.below (clientId, sessionId) grantGeneration then
    (l, false)
  else
    ({ l with
        attachHighWater := l.attachHighWater.raise (clientId, sessionId)
          { generation := grantGeneration, firstAcceptedAtMs := now } }, true)

def revokeClient (l : TransportLedger) (clientId : ClientId) (beforeGeneration now : Nat) :
    TransportLedger :=
  { l with
    clientFloors := l.clientFloors.raise clientId
      { generation := beforeGeneration, firstAcceptedAtMs := now } }

def prune (l : TransportLedger) (now : Nat) : TransportLedger :=
  let ttl := l.maxGrantLifetimeMs + l.maxClockSkewMs
  { l with
    nonces := l.nonces.retain fun _ keepUntil => decide (now < keepUntil)
    transportHighWater := l.transportHighWater.prune ttl now
    attachHighWater := l.attachHighWater.prune ttl now
    clientFloors := l.clientFloors.prune ttl now }

/-! ## What each operation leaves -/

theorem acceptAttachGeneration_frame (l : TransportLedger) (clientId : ClientId)
    (sessionId : SessionId) (generation now : Nat) :
    let l' := (l.acceptAttachGeneration clientId sessionId generation now).1
    l'.limits = l.limits ∧ l'.transportHighWater = l.transportHighWater ∧
      l'.nonces = l.nonces ∧ l'.clientFloors = l.clientFloors := by
  unfold acceptAttachGeneration
  split
  · exact ⟨rfl, rfl, rfl, rfl⟩
  · split <;> exact ⟨rfl, rfl, rfl, rfl⟩

theorem of_checkTransport {l : TransportLedger} {claims : TransportClaims} {channel : Channel}
    {current : Option CurrentLeg} {admission : Admission}
    (h : l.checkTransport claims channel current = .ok admission) :
    (∀ mark, l.transportHighWater.lookup claims.connectionSetId = some mark →
      mark.generation ≤ claims.transportGrantGeneration) ∧
    l.nonces.lookup (claims.nonce, channel) = none := by
  unfold checkTransport at h
  split at h
  · cases h
  · split at h
    · cases h
    · next hmark =>
      split at h
      · cases h
      · split at h
        · cases h
        · next hnonce =>
          refine ⟨fun mark hl => ?_, by simpa using hnonce⟩
          refine Nat.le_of_not_lt fun hlt => hmark ?_
          exact Watermarks.below_iff.mpr ⟨mark, hl, hlt⟩

theorem lookup_nonces_commit (l : TransportLedger) (claims : TransportClaims) (channel : Channel)
    (now : Nat) (key : Nonce × Channel) :
    (l.commitTransport claims channel now).nonces.lookup key =
      if key = (claims.nonce, channel) then some (l.limits.deadline claims.expiresAt)
      else l.nonces.lookup key :=
  Dict.lookup_insert _ _ _ _

theorem lookup_highWater_commit (l : TransportLedger) (claims : TransportClaims)
    (channel : Channel) (now : Nat) (set : ConnectionSetId) :
    (l.commitTransport claims channel now).transportHighWater.lookup set =
      if set = claims.connectionSetId then
        some (HighWater.raised (l.transportHighWater.lookup claims.connectionSetId)
          { generation := claims.transportGrantGeneration, firstAcceptedAtMs := now })
      else l.transportHighWater.lookup set :=
  Watermarks.lookup_raise _ _ _ _

theorem lookup_nonces_prune (l : TransportLedger) (now : Nat) (key : Nonce × Channel) :
    (l.prune now).nonces.lookup key =
      (l.nonces.lookup key).filter fun keepUntil => decide (now < keepUntil) :=
  Dict.lookup_retain _ _ _

end TransportLedger
end VibeField.Tp
