import VibeField.Base.Machine
import VibeField.Base.Utf16
import VibeField.Updates.RootChain
import VibeField.Updates.Vouched

/-!
# The update controller's memory

The controller runs chain verifications, any number of them at once.  Each reads the remembered
versions and the root keys in force when it begins and writes them back when it ends, with the
trust-root that rotated the keys where there is one.  What is persisted is loaded at a restart, the
adopted trust-roots verified again.
-/

namespace VibeField.Updates

open Contracts Trust

/-! ## The persisted state -/

/-- The persisted state; `other` is what a verification leaves as it is: the off switch, the
declined versions, the last check, the last apply and the staged version. -/
structure UpdateClientState (Other : Type) where
  channel : Option UpdateChannel
  remembered : RememberedVersions
  trustRoots : List AdoptedRoot
  other : Other

def jsLength (text : String) : Nat := (Utf16.encode text.toList).length

def AdoptedRoot.fits (root : AdoptedRoot) : Bool :=
  1 ≤ root.version && (1 ≤ jsLength root.doc && jsLength root.doc ≤ 65536) &&
    (1 ≤ jsLength root.sig && jsLength root.sig ≤ 8192)

def versionFits (version : Option Nat) : Bool := version.all (1 ≤ ·)

def RememberedVersions.fits (r : RememberedVersions) : Bool :=
  versionFits r.trustRoot && versionFits r.channels && versionFits r.policy.nightly &&
    versionFits r.policy.beta && versionFits r.policy.stable

/-- What the controller is made with; the staged identity's schema asks for floors of 1 and up. -/
structure UpdateOptions (Other : Type) where
  origin : String
  rootKeys : List String
  floors : Option RememberedVersions
  feedFile : String
  buildChannel : UpdateChannel
  freshOther : Other
  otherFits : Other → Bool
  floors_fit : ∀ f ∈ floors, f.fits = true
  fresh_fits : otherFits freshOther = true

variable {Other : Type} (P : ChainPlatform) (o : UpdateOptions Other)

def freshClientState : UpdateClientState Other :=
  { channel := none, remembered := nothingRemembered, trustRoots := [], other := o.freshOther }

def UpdateClientState.fits (state : UpdateClientState Other) : Bool :=
  state.remembered.fits && o.otherFits state.other &&
    (state.trustRoots.all AdoptedRoot.fits && state.trustRoots.length ≤ maxAdoptedRoots)

def load (file : Option (UpdateClientState Other)) :
    UpdateClientState Other × Option (UpdateClientState Other) :=
  match file with
  | none => (freshClientState o, none)
  | some state => if state.fits o then (state, file) else (freshClientState o, none)

/-! ## The controller -/

/-- A kind of signed document. -/
inductive DocumentKind where
  | trustRoot
  | channels
  | policy (channel : UpdateChannel)
  deriving DecidableEq, Repr

def RememberedVersions.of (r : RememberedVersions) : DocumentKind → Option Nat
  | .trustRoot => r.trustRoot
  | .channels => r.channels
  | .policy channel => r.policy.get channel

/-- The documents a verification accepts, by its own steps. -/
inductive Accepts (P : ChainPlatform) (input : ChainInput) : DocumentKind → Nat → Prop
  | trustRoot {newestTag : Option String} {root : TrustRoot × AcceptedRoot}
      (newest : newestRelease P input = .ok newestTag)
      (took : acceptTrustRoot P input newestTag = .ok root) :
      Accepts P input .trustRoot root.1.version
  | channels {newestTag : Option String} {root : TrustRoot × AcceptedRoot} {heads : ChannelHeads}
      (newest : newestRelease P input = .ok newestTag)
      (tookRoot : acceptTrustRoot P input newestTag = .ok root)
      (took : acceptHeads P input newestTag root.1
        ⟨rootRemembered input root.1, some root.2⟩ = .ok heads) :
      Accepts P input .channels heads.version
  | policy {newestTag : Option String} {root : TrustRoot × AcceptedRoot} {heads : ChannelHeads}
      {head : String} {policy : UpdatePolicy}
      (newest : newestRelease P input = .ok newestTag)
      (tookRoot : acceptTrustRoot P input newestTag = .ok root)
      (tookHeads : acceptHeads P input newestTag root.1
        ⟨rootRemembered input root.1, some root.2⟩ = .ok heads)
      (resolved : heads.heads.get input.channel = some head)
      (took : acceptPolicy P input newestTag root.1
        ⟨headsRemembered input root.1 heads, some root.2⟩ = .ok policy) :
      Accepts P input (.policy input.channel) policy.version

/-- A verification in flight: what it read when it began; `heard` is what verifications that had
finished by then had accepted. -/
structure Flight where
  channel : UpdateChannel
  rootKeys : List String
  remembered : RememberedVersions
  now : Int
  heard : DocumentKind → Nat → Prop

def Flight.input (f : Flight) (fetch : Nat → String → Except String (Option ByteArray)) :
    ChainInput :=
  { origin := o.origin, channel := f.channel, rootKeys := f.rootKeys, remembered := f.remembered,
    floors := o.floors, now := f.now, feedFile := o.feedFile, fetch }

/-- The file and the running process.  `accepted` is what finished verifications have accepted, and
`replaced` the root sets that were in force before, each with the version of the trust-root that
replaced it. -/
structure Controller (Other : Type) where
  file : Option (UpdateClientState Other)
  client : UpdateClientState Other
  anchor : RootAnchor
  flights : List Flight
  accepted : DocumentKind → Nat → Prop
  replaced : List (RootAnchor × Nat)

def construct (file : Option (UpdateClientState Other)) (accepted : DocumentKind → Nat → Prop)
    (replaced : List (RootAnchor × Nat)) : Controller Other :=
  let loaded := load o file
  let roots := anchorFrom P.toPlatform o.rootKeys loaded.1.trustRoots
  if roots.dropped > 0 then
    let client := { loaded.1 with trustRoots := roots.kept }
    ⟨some client, client, roots.anchor, [], accepted, replaced⟩
  else ⟨loaded.2, loaded.1, roots.anchor, [], accepted, replaced⟩

namespace Controller

variable (s : Controller Other)

def channel : UpdateChannel := s.client.channel.getD o.buildChannel

def persist (client : UpdateClientState Other) : Controller Other :=
  { s with client, file := some client }

def beginVerify (now : Int) : Controller Other :=
  { s with
    flights := s.flights ++ [⟨s.channel o, s.anchor.keys, s.client.remembered, now, s.accepted⟩] }

end Controller

def ChainResult.remembered {P : ChainPlatform} : ChainResult P → RememberedVersions
  | .verified chain => chain.remembered
  | .refused chain => chain.remembered

def ChainResult.acceptedRoot {P : ChainPlatform} : ChainResult P → Option AcceptedRoot
  | .verified chain => some chain.acceptedRoot
  | .refused chain => chain.acceptedRoot

namespace Controller

variable (s : Controller Other)

def adopt (accepted : Option AcceptedRoot) : Controller Other × List AdoptedRoot :=
  match accepted with
  | none => (s, s.client.trustRoots)
  | some root =>
    if rotates s.anchor root.rootKeys then
      if s.client.trustRoots.length ≥ maxAdoptedRoots then (s, s.client.trustRoots)
      else
        ({ s with
            anchor := ⟨root.rootKeys, some root.version⟩
            replaced := s.replaced ++ [(s.anchor, root.version)] },
          s.client.trustRoots ++ [⟨root.version, root.doc, root.sig⟩])
    else (s, s.client.trustRoots)

variable {accepted : AcceptedRoot}

theorem adopt_same (h : rotates s.anchor accepted.rootKeys = false) :
    s.adopt (some accepted) = (s, s.client.trustRoots) := by
  unfold adopt
  dsimp only
  rw [if_neg (by rw [h]; exact Bool.false_ne_true)]

theorem adopt_rotated (h : rotates s.anchor accepted.rootKeys = true)
    (hroom : s.client.trustRoots.length < maxAdoptedRoots) :
    s.adopt (some accepted) =
      ({ s with
          anchor := ⟨accepted.rootKeys, some accepted.version⟩
          replaced := s.replaced ++ [(s.anchor, accepted.version)] },
        s.client.trustRoots ++ [⟨accepted.version, accepted.doc, accepted.sig⟩]) := by
  unfold adopt
  dsimp only
  rw [if_pos h, if_neg (Nat.not_le.mpr hroom)]

theorem adopt_full (h : s.client.trustRoots.length ≥ maxAdoptedRoots) :
    s.adopt (some accepted) = (s, s.client.trustRoots) := by
  unfold adopt
  dsimp only
  rw [if_pos h, ite_self]

@[simp]
theorem adopt_flights (accepted : Option AcceptedRoot) :
    (s.adopt accepted).1.flights = s.flights := by
  unfold adopt
  split
  · rfl
  · split
    · split <;> rfl
    · rfl

theorem adopt_anchor (accepted : Option AcceptedRoot) :
    ((s.adopt accepted).1.anchor = s.anchor ∧ (s.adopt accepted).1.replaced = s.replaced) ∨
      ∃ root ∈ accepted, rotates s.anchor root.rootKeys = true ∧
        s.client.trustRoots.length < maxAdoptedRoots ∧
        (s.adopt accepted).1.anchor = ⟨root.rootKeys, some root.version⟩ ∧
        (s.adopt accepted).1.replaced = s.replaced ++ [(s.anchor, root.version)] := by
  cases accepted with
  | none => exact .inl ⟨rfl, rfl⟩
  | some root =>
    cases hrotates : rotates s.anchor root.rootKeys with
    | false =>
      rw [s.adopt_same hrotates]
      exact .inl ⟨rfl, rfl⟩
    | true =>
      by_cases hroom : s.client.trustRoots.length < maxAdoptedRoots
      · rw [s.adopt_rotated hrotates hroom]
        exact .inr ⟨root, rfl, hrotates, hroom, rfl, rfl⟩
      · rw [s.adopt_full (Nat.le_of_not_lt hroom)]
        exact .inl ⟨rfl, rfl⟩

def endVerify (input : ChainInput) (result : ChainResult P) : Controller Other :=
  let adopted := s.adopt result.acceptedRoot
  let ended := adopted.1.persist
    { s.client with remembered := result.remembered, trustRoots := adopted.2 }
  { ended with accepted := fun kind v => s.accepted kind v ∨ Accepts P input kind v }

theorem endVerify_rotated (input : ChainInput) (result : ChainResult P) (accepted : AcceptedRoot)
    (hroot : result.acceptedRoot = some accepted)
    (hrotates : rotates s.anchor accepted.rootKeys = true)
    (hroom : s.client.trustRoots.length < maxAdoptedRoots) :
    (s.endVerify P input result).flights = s.flights ∧
      (s.endVerify P input result).anchor = ⟨accepted.rootKeys, some accepted.version⟩ ∧
      (s.endVerify P input result).client.remembered = result.remembered ∧
      (s.endVerify P input result).client.trustRoots =
        s.client.trustRoots ++ [⟨accepted.version, accepted.doc, accepted.sig⟩] ∧
      (s.endVerify P input result).file = some (s.endVerify P input result).client := by
  unfold endVerify
  rw [hroot, s.adopt_rotated hrotates hroom]
  exact ⟨rfl, rfl, rfl, rfl, rfl⟩

end Controller

/-- What happens: a verification begins, or one in flight ends with what the server answered it; the
person's channel or another persisted choice changes; the app starts again. -/
inductive UpdateEvent (Other : Type) where
  | beginVerify (now : Int)
  | endVerify (flight : Nat) (fetch : Nat → String → Except String (Option ByteArray))
  | setChannel (channel : UpdateChannel)
  | choose (other : Other)
  | restart

/-- One step; a verification that throws writes nothing back. -/
def Controller.next (s : Controller Other) : UpdateEvent Other → Option (Controller Other)
  | .beginVerify now => some (s.beginVerify o now)
  | .endVerify i fetch =>
    match s.flights[i]? with
    | none => none
    | some f =>
      let landed := { s with flights := s.flights.eraseIdx i }
      match verifyUpdateChain P (f.input o fetch) with
      | .error _ => some landed
      | .ok result => some (landed.endVerify P (f.input o fetch) result)
  | .setChannel channel =>
    if channel = s.channel o then some s
    else some (s.persist { s.client with channel := some channel })
  | .choose other => some (s.persist { s.client with other })
  | .restart => some (construct P o s.file s.accepted s.replaced)

def updateMachine (file : Option (UpdateClientState Other)) :
    Machine (Controller Other) (UpdateEvent Other) where
  start := construct P o file (fun _ _ => False) []
  next := Controller.next P o

end VibeField.Updates
