import Mathlib.Algebra.Group.Nat.Defs
import VibeField.Tp.Wire

/-!
# Transport grants and their verification

The claims of a transport grant and the checks the cell's verifier makes of
them once the MAC is known to be good.  The envelope itself (its JSON text, the
header and the MAC) is left out: a grant here is the typed claims its issuer
signed.
-/

namespace VibeField.Tp

abbrev ConnectionSetId := String
abbrev Nonce := String
abbrev CellBootId := String

inductive Channel where
  | control
  | frames
  deriving DecidableEq, Repr

namespace Channel

def toNat : Channel → Nat
  | control => 0
  | frames => 1

def other : Channel → Channel
  | control => frames
  | frames => control

end Channel

/-- Claims of a `CellTransportGrant`. -/
structure TransportClaims where
  audienceCellBootId : CellBootId
  clientId : ClientId
  connectionSetId : ConnectionSetId
  allowedChannels : List Channel
  transportGrantGeneration : Nat
  issuedAt : Nat
  expiresAt : Nat
  nonce : Nonce
  deriving DecidableEq, Repr

structure GrantValidityLimits where
  maxClockSkewMs : Nat
  maxGrantLifetimeMs : Nat
  deriving DecidableEq, Repr

def GrantValidityLimits.default : GrantValidityLimits where
  maxClockSkewMs := Tp.maxClockSkewMs
  maxGrantLifetimeMs := Tp.maxGrantLifetimeMs

/-- The silent refusals the claims of an authentic grant can meet. -/
inductive PreAuthFailureCode where
  | grantAudienceMismatch
  | grantExpired
  | grantNotYetValid
  | grantLifetimeExceeded
  | helloMalformed
  deriving DecidableEq, Repr

structure PreAuthFailure where
  code : PreAuthFailureCode
  detail : String
  deriving DecidableEq, Repr

def saturatingAdd (a b : Nat) : Nat := min (a + b) (2 ^ 64 - 1)

theorem saturatingAdd_le (a b : Nat) : saturatingAdd a b ≤ a + b := Nat.min_le_left _ _

namespace GrantValidityLimits

def deadline (limits : GrantValidityLimits) (expiresAt : Nat) : Nat :=
  saturatingAdd expiresAt limits.maxClockSkewMs

def checkValidity (limits : GrantValidityLimits) (issuedAt expiresAt now : Nat) :
    Except PreAuthFailure Unit :=
  if expiresAt < issuedAt || expiresAt - issuedAt > limits.maxGrantLifetimeMs then
    .error
      { code := .grantLifetimeExceeded, detail := "expiresAt - issuedAt > maxGrantLifetimeMs" }
  else if now < issuedAt - limits.maxClockSkewMs then
    .error { code := .grantNotYetValid, detail := "now < issuedAt - skew" }
  else if now ≥ limits.deadline expiresAt then
    .error { code := .grantExpired, detail := "now >= expiresAt + skew" }
  else
    .ok ()

theorem of_checkValidity {limits : GrantValidityLimits} {issuedAt expiresAt now : Nat}
    (h : limits.checkValidity issuedAt expiresAt now = .ok ()) :
    issuedAt ≤ expiresAt ∧ expiresAt ≤ issuedAt + limits.maxGrantLifetimeMs ∧
      issuedAt ≤ now + limits.maxClockSkewMs ∧ now < limits.deadline expiresAt := by
  unfold checkValidity at h
  split at h
  · cases h
  · next hlife =>
    split at h
    · cases h
    · next hearly =>
      split at h
      · cases h
      · next hlate =>
        have hlife' : issuedAt ≤ expiresAt ∧ expiresAt - issuedAt ≤ limits.maxGrantLifetimeMs := by
          simpa using hlife
        exact ⟨hlife'.1, by omega, by omega, by omega⟩

theorem checkValidity_of_deadline {limits : GrantValidityLimits} {issuedAt expiresAt now : Nat}
    (h : limits.deadline expiresAt ≤ now) :
    limits.checkValidity issuedAt expiresAt now ≠ .ok () := fun hok => by
  have hlt := (of_checkValidity hok).2.2.2
  omega

end GrantValidityLimits

def isSortedUnique (items : List Channel) : Bool :=
  decide (items.Pairwise fun a b => a.toNat < b.toNat)

/-- The verifier of one cell boot. -/
structure GrantVerifier where
  cellBootId : CellBootId
  limits : GrantValidityLimits
  deriving DecidableEq, Repr

def GrantVerifier.verifyTransport (v : GrantVerifier) (grant : TransportClaims) (now : Nat) :
    Except PreAuthFailure TransportClaims :=
  if grant.audienceCellBootId ≠ v.cellBootId then
    .error { code := .grantAudienceMismatch, detail := "audienceCellBootId" }
  else
    match v.limits.checkValidity grant.issuedAt grant.expiresAt now with
    | .error failure => .error failure
    | .ok () =>
      if !isSortedUnique grant.allowedChannels then
        .error
          { code := .helloMalformed, detail := "allowedChannels is not a sorted unique array" }
      else
        .ok grant

theorem GrantVerifier.of_verifyTransport {v : GrantVerifier} {grant claims : TransportClaims}
    {now : Nat} (h : v.verifyTransport grant now = .ok claims) :
    claims = grant ∧ grant.audienceCellBootId = v.cellBootId ∧
      v.limits.checkValidity grant.issuedAt grant.expiresAt now = .ok () := by
  unfold verifyTransport at h
  split at h
  · cases h
  · next haudience =>
    split at h
    · cases h
    · next hvalid =>
      split at h
      · cases h
      · injection h with h
        exact ⟨h.symm, Decidable.not_not.mp haudience, hvalid⟩

end VibeField.Tp
