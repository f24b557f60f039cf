import VibeField.Base.Ends
import VibeField.Base.Uri
import VibeField.Trust.Signed

/-!
# The update chain

Before any payload is downloaded, a chain of signed files is fetched and verified: the newest
release's trust-root, by the root keys the client trusts, then its channel heads and its policy
and the head release's feed and manifest, by the release role of that trust-root.  Each document
is remembered the moment it is accepted, also where a later step refuses.
-/

namespace VibeField.Updates

open Contracts Trust

/-! ## Channels -/

inductive UpdateChannel where
  | nightly
  | beta
  | stable
  deriving DecidableEq, Repr

def UpdateChannel.name : UpdateChannel → String
  | .nightly => "nightly"
  | .beta => "beta"
  | .stable => "stable"

/-- `Record<UpdateChannel, α>`. -/
structure PerChannel (α : Type) where
  nightly : α
  beta : α
  stable : α
  deriving DecidableEq, Repr

namespace PerChannel

variable {α : Type}

def get (r : PerChannel α) : UpdateChannel → α
  | .nightly => r.nightly
  | .beta => r.beta
  | .stable => r.stable

def set (r : PerChannel α) (channel : UpdateChannel) (a : α) : PerChannel α :=
  match channel with
  | .nightly => { r with nightly := a }
  | .beta => { r with beta := a }
  | .stable => { r with stable := a }

theorem get_set (r : PerChannel α) (channel other : UpdateChannel) (a : α) :
    (r.set channel a).get other = if other = channel then a else r.get other := by
  cases channel <;> cases other <;> rfl

end PerChannel

/-! ## The documents -/

def trustRootFile : String := "trust-root.json"

def channelHeadsFile : String := "channels.json"

def releaseManifestFile : String := "release-manifest.json"

def signatureSuffix : String := ".sig"

def updatePolicyFile (channel : UpdateChannel) : String :=
  "update-policy." ++ channel.name ++ ".json"

structure ChannelHeads where
  version : Nat
  expires : String
  heads : PerChannel (Option String)
  one_le : 1 ≤ version

structure UpdatePolicy where
  version : Nat
  expires : String
  channel : UpdateChannel
  one_le : 1 ≤ version

structure ReleaseManifest (Raw : Type) where
  version : String
  tag : String
  notes : Option Raw

structure NotesIssue where
  path : List String
  message : String

/-- What the chain takes from the platform: also the schemas of its documents, and `Date.parse`. -/
structure ChainPlatform extends Platform where
  dateParse : String → Option Int
  channelHeads : Raw → Except String ChannelHeads
  updatePolicy : Raw → Except String UpdatePolicy
  releaseManifest : Raw → Except String (ReleaseManifest Raw)
  Notes : Type
  releaseNotes : Raw → Except (Option NotesIssue) Notes

/-- The last accepted version of each signed document, none where none was ever accepted. -/
structure RememberedVersions where
  trustRoot : Option Nat
  channels : Option Nat
  policy : PerChannel (Option Nat)
  deriving DecidableEq, Repr

def nothingRemembered : RememberedVersions := ⟨none, none, ⟨none, none, none⟩⟩

/-- The states of `UPDATES_SERVICE` that the chain refuses with. -/
inductive UpdatesUnavailableState where
  | feedUnverified
  | policyExpired
  | policyRollback
  | trustRootRejected
  | channelUnresolved
  deriving DecidableEq, Repr

/-- `fetch` answers by the number of the call and its URL, so that a server may answer one URL in
several ways; it throws on a network failure. -/
structure ChainInput where
  origin : String
  channel : UpdateChannel
  rootKeys : List String
  remembered : RememberedVersions
  floors : Option RememberedVersions
  now : Int
  feedFile : String
  fetch : Nat → String → Except String (Option ByteArray)

/-- The trust-root the chain accepted, as text and signature, with its root set. -/
structure AcceptedRoot where
  version : Nat
  doc : String
  sig : String
  rootKeys : List String
  deriving DecidableEq, Repr

structure VerifiedChain (P : ChainPlatform) where
  head : String
  headBase : String
  feedFile : String
  feedText : String
  headVersion : Option String
  manifest : Option (ReleaseManifest P.Raw)
  notes : Option P.Notes
  notesDropped : Option String
  trustRoot : TrustRoot
  heads : ChannelHeads
  policy : UpdatePolicy
  remembered : RememberedVersions
  acceptedRoot : AcceptedRoot

structure RefusedChain where
  state : UpdatesUnavailableState
  detail : String
  remembered : RememberedVersions
  acceptedRoot : Option AcceptedRoot

inductive ChainResult (P : ChainPlatform) where
  | verified (chain : VerifiedChain P)
  | refused (chain : RefusedChain)

inductive Stop where
  | threw (error : String)
  | refused (chain : RefusedChain)

/-! ## Reading the atom feed and the update feed -/

def fromFirst (pattern : List Char) : List Char → Option (List Char)
  | [] => if pattern = [] then some [] else none
  | c :: rest =>
    if pattern.isPrefixOf (c :: rest) then some (c :: rest) else fromFirst pattern rest

def isQuote (c : Char) : Bool := c == '"' || c == '\''

def tagAt (text : List Char) : Option (List Char) :=
  let lead := "/releases/tag/".toList
  if lead.isPrefixOf text then
    let rest := text.drop lead.length
    let inTag := fun c => !(isQuote c || c == '<' || c == '>' || isSpace c)
    let tag := rest.takeWhile inTag
    if tag ≠ [] ∧ ((rest.dropWhile inTag).head?.any isQuote) = true then some tag else none
  else none

def firstTag : List Char → Option (List Char)
  | [] => none
  | c :: rest =>
    match tagAt (c :: rest) with
    | some tag => some tag
    | none => firstTag rest

def newestTagFromAtom (atom : String) : Option String :=
  ((fromFirst "<entry".toList atom.toList).bind firstTag).bind Uri.decodeURIComponent

def isLineEnd (c : Char) : Bool :=
  c == '\n' || c == '\r' || c.toNat == 0x2028 || c.toNat == 0x2029

def patternLines : List Char → List (List Char)
  | [] => [[]]
  | c :: rest =>
    if isLineEnd c then [] :: patternLines rest
    else
      match patternLines rest with
      | line :: lines => (c :: line) :: lines
      | [] => [[c]]

def isBlank (c : Char) : Bool := c == ' ' || c == '\t'

def dropQuote : List Char → List Char
  | [] => []
  | c :: rest => if isQuote c then rest else c :: rest

def versionOfLine (line : List Char) : Option (List Char) :=
  let lead := "version:".toList
  if lead.isPrefixOf line then
    let rest := dropQuote ((line.drop lead.length).dropWhile isBlank)
    let inVersion := fun c => !(isQuote c || isSpace c)
    let version := rest.takeWhile inVersion
    if version ≠ [] ∧ (dropQuote (rest.dropWhile inVersion)).dropWhile isBlank = [] then
      some version
    else none
  else none

def feedVersionOf (feedText : String) : Option String :=
  ((patternLines feedText.toList).findSome? versionOfLine).map String.ofList

/-! ## Floors -/

def atLeast : Option Nat → Option Nat → Option Nat
  | none, floor => floor
  | some r, none => some r
  | some r, some f => some (Nat.max r f)

def withFloors (remembered : RememberedVersions) : Option RememberedVersions → RememberedVersions
  | none => remembered
  | some floors =>
    { trustRoot := atLeast remembered.trustRoot floors.trustRoot
      channels := atLeast remembered.channels floors.channels
      policy :=
        { nightly := atLeast remembered.policy.nightly floors.policy.nightly
          beta := atLeast remembered.policy.beta floors.policy.beta
          stable := atLeast remembered.policy.stable floors.policy.stable } }

/-! ## The chain -/

def withoutSlashes (origin : String) : String :=
  String.ofList (origin.toList.reverse.dropWhile (· == '/')).reverse

def decode (bytes : ByteArray) : Option String :=
  if bytes.data.toList.take 3 = [0xEF, 0xBB, 0xBF] then
    String.fromUTF8? ⟨(bytes.data.toList.drop 3).toArray⟩
  else String.fromUTF8? bytes

def droppedReason : Option NotesIssue → String
  | none => "malformed"
  | some issue =>
    if issue.path.length > 0 then ".".intercalate issue.path ++ ": " ++ issue.message
    else issue.message

variable (P : ChainPlatform)

structure Standing where
  remembered : RememberedVersions
  acceptedRoot : Option AcceptedRoot

def Standing.refuse (standing : Standing) (state : UpdatesUnavailableState) (detail : String) :
    Stop :=
  .refused ⟨state, detail, standing.remembered, standing.acceptedRoot⟩

def readDocument {α : Type} (schema : P.Raw → Except String α) (bytes : ByteArray)
    (malformed : String → Stop) (notJson : Stop) : Except Stop α := do
  let text ← present (decode bytes) notJson
  let raw ← present (P.jsonParse text) notJson
  orStop (schema raw) malformed

def judged (verdict : SignedDocumentVerdict) (rollback stale : Stop) : Except Stop Unit :=
  match verdict with
  | .rollback => .error rollback
  | .stale => .error stale
  | .accepted => .ok ()

structure Fetched where
  bytes : Option ByteArray
  sigText : Option String

variable (input : ChainInput)

namespace ChainInput

def fetchBytes (call : Nat) (url : String) : Except Stop (Option ByteArray) :=
  orStop (input.fetch call url) .threw

def signed (call : Nat) (base file : String) : Except Stop Fetched := do
  let bytes ← input.fetchBytes call (base ++ file)
  let sig ← input.fetchBytes (call + 1) (base ++ file ++ signatureSuffix)
  .ok ⟨bytes, sig.map P.bufferToString⟩

def trimmedOrigin : String := withoutSlashes input.origin

def releaseBase (tag : String) : String :=
  input.trimmedOrigin ++ "/download/" ++ Uri.encodeURIComponent tag ++ "/"

def newestBase (newestTag : Option String) : String :=
  match newestTag with
  | none => input.trimmedOrigin ++ "/latest/download/"
  | some tag => input.releaseBase tag

def floored : RememberedVersions := withFloors input.remembered input.floors

end ChainInput

def versionText (version : Nat) : String := "v" ++ toString version

def lastText (last : Option Nat) : String := (last.map versionText).getD "vnull"

def newestRelease : Except Stop (Option String) := do
  let atom ← input.fetchBytes 0 (input.trimmedOrigin ++ ".atom")
  .ok (atom.bind fun bytes => newestTagFromAtom (P.bufferToString bytes))

/-- 2. Its trust-root, by the root keys the client trusts. -/
def acceptTrustRoot (newestTag : Option String) : Except Stop (TrustRoot × AcceptedRoot) := do
  let standing : Standing := ⟨input.floored, none⟩
  let root ← input.signed P 1 (input.newestBase newestTag) trustRootFile
  let missing :=
    match newestTag with
    | none => standing.refuse .channelUnresolved "no release found"
    | some tag => standing.refuse .trustRootRejected (tag ++ " carries no signed trust-root")
  let bytes ← present root.bytes missing
  let sigText ← present root.sigText missing
  let verdict ← orStop (verifyTrustRoot P.toPlatform bytes sigText ⟨input.rootKeys, 1⟩)
    (standing.refuse .trustRootRejected)
  let doc := verdict.1
  require (doc.root.threshold ≤ verdict.2.length) (standing.refuse .trustRootRejected
    ("the trust-root needs " ++ toString doc.root.threshold ++ " root signatures; " ++
      toString verdict.2.length ++ " verified"))
  judged
    (judgeSignedDocument P.dateParse doc.version doc.expires standing.remembered.trustRoot
      input.now)
    (standing.refuse .trustRootRejected ("trust-root " ++ versionText doc.version ++
      " is older than the accepted " ++ lastText standing.remembered.trustRoot))
    (standing.refuse .trustRootRejected
      ("trust-root " ++ versionText doc.version ++ " has expired"))
  .ok (doc, ⟨doc.version, P.bufferToString bytes, sigText, doc.root.keys⟩)

def releaseAnchor (trustRoot : TrustRoot) : TrustAnchor :=
  ⟨trustRoot.release.keys, trustRoot.release.threshold⟩

/-- 3. The channel heads, by the release role. -/
def acceptHeads (newestTag : Option String) (trustRoot : TrustRoot) (standing : Standing) :
    Except Stop ChannelHeads := do
  let file ← input.signed P 3 (input.newestBase newestTag) channelHeadsFile
  let unverified := standing.refuse .feedUnverified
  let missing := unverified "the newest release carries no signed channel heads"
  let bytes ← present file.bytes missing
  let sigText ← present file.sigText missing
  require (verifySignedBytes P.toPlatform bytes sigText (releaseAnchor trustRoot) = true)
    (unverified "channels.json does not verify by the release role")
  let heads ← readDocument P P.channelHeads bytes
    (fun message => unverified ("channels.json is malformed: " ++ message))
    (unverified "channels.json is not JSON")
  judged
    (judgeSignedDocument P.dateParse heads.version heads.expires standing.remembered.channels
      input.now)
    (standing.refuse .policyRollback ("channel heads " ++ versionText heads.version ++
      " are older than the accepted " ++ lastText standing.remembered.channels))
    (standing.refuse .policyExpired
      ("channel heads " ++ versionText heads.version ++ " have expired"))
  .ok heads

/-- 5. The policy for the client's channel, from the newest release. -/
def acceptPolicy (newestTag : Option String) (trustRoot : TrustRoot) (standing : Standing) :
    Except Stop UpdatePolicy := do
  let channel := input.channel
  let file ← input.signed P 5 (input.newestBase newestTag) (updatePolicyFile channel)
  let unverified := standing.refuse .feedUnverified
  let missing := unverified
    ("the newest release carries no signed " ++ channel.name ++ " policy")
  let bytes ← present file.bytes missing
  let sigText ← present file.sigText missing
  require (verifySignedBytes P.toPlatform bytes sigText (releaseAnchor trustRoot) = true)
    (unverified ("the " ++ channel.name ++ " policy does not verify by the release role"))
  let policy ← readDocument P P.updatePolicy bytes
    (fun message => unverified ("the " ++ channel.name ++ " policy is malformed: " ++ message))
    (unverified ("the " ++ channel.name ++ " policy is not JSON"))
  require (policy.channel = channel) (unverified
    (updatePolicyFile channel ++ " names the " ++ policy.channel.name ++ " channel"))
  judged
    (judgeSignedDocument P.dateParse policy.version policy.expires
      (standing.remembered.policy.get channel) input.now)
    (standing.refuse .policyRollback ("the " ++ channel.name ++ " policy " ++
      versionText policy.version ++ " is older than the accepted " ++
      lastText (standing.remembered.policy.get channel)))
    (standing.refuse .policyExpired
      ("the " ++ channel.name ++ " policy " ++ versionText policy.version ++ " has expired"))
  .ok policy

def readFeed (head : String) (trustRoot : TrustRoot) (standing : Standing) :
    Except Stop String := do
  let feed ← input.signed P 7 (input.releaseBase head) input.feedFile
  let unverified := standing.refuse .feedUnverified
    (input.feedFile ++ " does not verify by the release role")
  let bytes ← present feed.bytes
    (standing.refuse .channelUnresolved (head ++ " carries no " ++ input.feedFile))
  let sigText ← present feed.sigText unverified
  require (verifySignedBytes P.toPlatform bytes sigText (releaseAnchor trustRoot) = true)
    unverified
  present (decode bytes) (standing.refuse .feedUnverified (input.feedFile ++ " is not UTF-8"))

/-- 6b. The head's release manifest, by the release role; none for a release without one. -/
def readManifest (head : String) (headVersion : Option String) (trustRoot : TrustRoot)
    (standing : Standing) : Except Stop (Option (ReleaseManifest P.Raw)) := do
  let file ← input.signed P 9 (input.releaseBase head) releaseManifestFile
  let refuse := fun detail => standing.refuse .feedUnverified (releaseManifestFile ++ detail)
  match file.bytes with
  | none => .ok none
  | some bytes => do
    let sigText ← present file.sigText (refuse " does not verify by the release role")
    require (verifySignedBytes P.toPlatform bytes sigText (releaseAnchor trustRoot) = true)
      (refuse " does not verify by the release role")
    let manifest ← readDocument P P.releaseManifest bytes
      (fun message => refuse (" is malformed: " ++ message)) (refuse " is not JSON")
    require (manifest.tag = head ∧ some manifest.version = headVersion)
      (refuse (" names " ++ manifest.tag ++ " " ++ manifest.version ++ ", not " ++ head ++ " " ++
        headVersion.getD "(no version)"))
    .ok (some manifest)

def readNotes (manifest : Option (ReleaseManifest P.Raw)) : Option P.Notes × Option String :=
  match manifest.bind ReleaseManifest.notes with
  | none => (none, none)
  | some raw =>
    match P.releaseNotes raw with
    | .ok notes => (some notes, none)
    | .error issue => (none, some (droppedReason issue))

def rootRemembered (trustRoot : TrustRoot) : RememberedVersions :=
  { input.floored with trustRoot := some trustRoot.version }

def headsRemembered (trustRoot : TrustRoot) (heads : ChannelHeads) : RememberedVersions :=
  { rootRemembered input trustRoot with channels := some heads.version }

def policyRemembered (trustRoot : TrustRoot) (heads : ChannelHeads) (policy : UpdatePolicy) :
    RememberedVersions :=
  { headsRemembered input trustRoot heads with
    policy := (headsRemembered input trustRoot heads).policy.set input.channel
      (some policy.version) }

def afterPolicy (trustRoot : TrustRoot) (accepted : AcceptedRoot) (heads : ChannelHeads)
    (head : String) (policy : UpdatePolicy) : Except Stop (VerifiedChain P) := do
  let remembered := policyRemembered input trustRoot heads policy
  let feedText ← readFeed P input head trustRoot ⟨remembered, some accepted⟩
  let headVersion := feedVersionOf feedText
  let manifest ← readManifest P input head headVersion trustRoot ⟨remembered, some accepted⟩
  let notes := readNotes P manifest
  .ok
    { head, headBase := input.releaseBase head, feedFile := input.feedFile, feedText, headVersion,
      manifest, notes := notes.1, notesDropped := notes.2, trustRoot, heads, policy, remembered,
      acceptedRoot := accepted }

def afterHeads (newestTag : Option String) (trustRoot : TrustRoot) (accepted : AcceptedRoot)
    (heads : ChannelHeads) : Except Stop (VerifiedChain P) := do
  let standing : Standing := ⟨headsRemembered input trustRoot heads, some accepted⟩
  let head ← present (heads.heads.get input.channel)
    (standing.refuse .channelUnresolved ("no " ++ input.channel.name ++ " release yet"))
  let policy ← acceptPolicy P input newestTag trustRoot standing
  afterPolicy P input trustRoot accepted heads head policy

def afterTrustRoot (newestTag : Option String) (trustRoot : TrustRoot)
    (accepted : AcceptedRoot) : Except Stop (VerifiedChain P) := do
  let heads ← acceptHeads P input newestTag trustRoot
    ⟨rootRemembered input trustRoot, some accepted⟩
  afterHeads P input newestTag trustRoot accepted heads

def chainSteps : Except Stop (VerifiedChain P) := do
  let newestTag ← newestRelease P input
  let root ← acceptTrustRoot P input newestTag
  afterTrustRoot P input newestTag root.1 root.2

def verifyUpdateChain : Except String (ChainResult P) :=
  match chainSteps P input with
  | .ok chain => .ok (.verified chain)
  | .error (.refused chain) => .ok (.refused chain)
  | .error (.threw error) => .error error

/-! ## What each step takes -/

variable {P input}

/-- A file and its signature were fetched, the file as call `call`. -/
structure Served (input : ChainInput) (call : Nat) (url : String) (bytes sig : ByteArray) :
    Prop where
  file : input.fetch call url = .ok (some bytes)
  signature : input.fetch (call + 1) (url ++ signatureSuffix) = .ok (some sig)

/-- The bytes decode, parse and pass the schema. -/
def Reads {α : Type} (schema : P.Raw → Except String α) (bytes : ByteArray) (a : α) : Prop :=
  ∃ text ∈ decode bytes, ∃ raw ∈ P.jsonParse text, schema raw = .ok a

/-- The verdict on a document's version and time is to take it. -/
def Judged (P : ChainPlatform) (input : ChainInput) (version : Nat) (expires : String)
    (last : Option Nat) : Prop :=
  judgeSignedDocument P.dateParse version expires last input.now = .accepted

def Carries (input : ChainInput) (standing : Standing) : Stop → Prop
  | .threw error => ∃ call url, input.fetch call url = .error error
  | .refused chain =>
    chain.remembered = standing.remembered ∧ chain.acceptedRoot = standing.acceptedRoot

theorem carries_refuse (input : ChainInput) (standing : Standing) (state : UpdatesUnavailableState)
    (detail : String) : Carries input standing (standing.refuse state detail) := ⟨rfl, rfl⟩

variable {E : Stop → Prop}

/-- `E` holds of what a fetch throws. -/
def Throws (input : ChainInput) (E : Stop → Prop) : Prop :=
  ∀ call url error, input.fetch call url = .error error → E (.threw error)

theorem throws_carries (standing : Standing) : Throws input (Carries input standing) :=
  fun call url _ h => ⟨call, url, h⟩

theorem ends_fetchBytes (hE : Throws input E) (call : Nat) (url : String) :
    Ends (fun bytes => input.fetch call url = .ok bytes) E (input.fetchBytes call url) :=
  .orStop (hE call url)

theorem ends_signed (hE : Throws input E) (call : Nat) (base file : String) :
    Ends (fun fetched => input.fetch call (base ++ file) = .ok fetched.bytes ∧
        ∀ bytes sigText, fetched.bytes = some bytes → fetched.sigText = some sigText →
          ∃ sig, P.bufferToString sig = sigText ∧ Served input call (base ++ file) bytes sig)
      E (input.signed P call base file) := by
  refine (ends_fetchBytes hE call _).bind fun bytes hbytes => ?_
  refine (ends_fetchBytes hE (call + 1) _).bind fun sig hsig => .ok ⟨hbytes, ?_⟩
  rintro _ sigText rfl hsigText
  cases sig with
  | none => cases hsigText
  | some sig => exact ⟨sig, Option.some.inj hsigText, hbytes, hsig⟩

theorem ends_readDocument {α : Type} {schema : P.Raw → Except String α} {bytes : ByteArray}
    {malformed : String → Stop} {notJson : Stop} (hmalformed : ∀ message, E (malformed message))
    (hnot : E notJson) :
    Ends (Reads schema bytes) E (readDocument P schema bytes malformed notJson) :=
  (Ends.present hnot).bind fun text htext =>
    (Ends.present hnot).bind fun raw hraw =>
      (Ends.orStop fun why _ => hmalformed why).mono (fun _ _ h => ⟨text, htext, raw, hraw, h⟩)
        fun _ h => h

theorem ends_judged {verdict : SignedDocumentVerdict} {rollback stale : Stop}
    (hrollback : E rollback) (hstale : E stale) :
    Ends (fun _ => verdict = .accepted) E (judged verdict rollback stale) := by
  cases verdict with
  | accepted => exact Eq.refl SignedDocumentVerdict.accepted
  | stale => exact hstale
  | rollback => exact hrollback

/-- A trust-root the chain takes, and what it hands on of it. -/
structure RootTaken (P : ChainPlatform) (input : ChainInput) (base : String) (doc : TrustRoot)
    (accepted : AcceptedRoot) (bytes sig : ByteArray) : Prop where
  served : Served input 1 (base ++ trustRootFile) bytes sig
  verified : ∃ signers, verifyTrustRoot P.toPlatform bytes (P.bufferToString sig)
    ⟨input.rootKeys, 1⟩ = .ok (doc, signers) ∧ doc.root.threshold ≤ signers.length
  judged : Judged P input doc.version doc.expires input.floored.trustRoot
  accepted_eq :
    accepted = ⟨doc.version, P.bufferToString bytes, P.bufferToString sig, doc.root.keys⟩

theorem ends_acceptTrustRoot (newestTag : Option String) :
    Ends (fun root => ∃ bytes sig,
        RootTaken P input (input.newestBase newestTag) root.1 root.2 bytes sig)
      (Carries input ⟨input.floored, none⟩) (acceptTrustRoot P input newestTag) := by
  have hrefuse := carries_refuse input ⟨input.floored, none⟩
  have hmissing : Carries input ⟨input.floored, none⟩ (match newestTag with
      | none => (⟨input.floored, none⟩ : Standing).refuse .channelUnresolved "no release found"
      | some tag => (⟨input.floored, none⟩ : Standing).refuse .trustRootRejected
          (tag ++ " carries no signed trust-root")) := by
    cases newestTag <;> exact hrefuse _ _
  refine (ends_signed (throws_carries _) 1 _ _).bind fun root hroot => ?_
  refine (Ends.present hmissing).bind fun bytes hbytes => ?_
  refine (Ends.present hmissing).bind fun sigText hsigText => ?_
  obtain ⟨sig, rfl, hserved⟩ := hroot.2 bytes sigText hbytes hsigText
  refine (Ends.orStop fun _ _ => hrefuse _ _).bind fun verdict hverdict => ?_
  refine (Ends.require (hrefuse _ _)).bind fun _ hall => ?_
  refine (ends_judged (hrefuse _ _) (hrefuse _ _)).bind fun _ hjudged => ?_
  exact .ok ⟨bytes, sig, hserved, ⟨verdict.2, hverdict, hall⟩, hjudged, rfl⟩

/-- A file that the release role of `trustRoot` signed. -/
structure ReleaseSigned (P : ChainPlatform) (input : ChainInput) (trustRoot : TrustRoot)
    (call : Nat) (url : String) (bytes : ByteArray) : Prop where
  served : ∃ sig, Served input call url bytes sig ∧
    verifySignedBytes P.toPlatform bytes (P.bufferToString sig) (releaseAnchor trustRoot) = true

/-- Channel heads the chain takes. -/
def HeadsTaken (P : ChainPlatform) (input : ChainInput) (base : String) (trustRoot : TrustRoot)
    (last : Option Nat) (heads : ChannelHeads) : Prop :=
  ∃ bytes, ReleaseSigned P input trustRoot 3 (base ++ channelHeadsFile) bytes ∧
    Reads P.channelHeads bytes heads ∧ Judged P input heads.version heads.expires last

theorem ends_acceptHeads (newestTag : Option String) (trustRoot : TrustRoot)
    (standing : Standing) :
    Ends (HeadsTaken P input (input.newestBase newestTag) trustRoot standing.remembered.channels)
      (Carries input standing) (acceptHeads P input newestTag trustRoot standing) := by
  have hrefuse := carries_refuse input standing
  refine (ends_signed (throws_carries _) 3 _ _).bind fun file hfile => ?_
  refine (Ends.present (hrefuse _ _)).bind fun bytes hbytes => ?_
  refine (Ends.present (hrefuse _ _)).bind fun sigText hsigText => ?_
  obtain ⟨sig, rfl, hserved⟩ := hfile.2 bytes sigText hbytes hsigText
  refine (Ends.require (hrefuse _ _)).bind fun _ hverify => ?_
  refine (ends_readDocument (fun _ => hrefuse _ _) (hrefuse _ _)).bind fun heads hheads => ?_
  refine (ends_judged (hrefuse _ _) (hrefuse _ _)).bind fun _ hjudged => ?_
  exact .ok ⟨bytes, ⟨sig, hserved, hverify⟩, hheads, hjudged⟩

/-- A policy the chain takes. -/
def PolicyTaken (P : ChainPlatform) (input : ChainInput) (base : String) (trustRoot : TrustRoot)
    (last : Option Nat) (policy : UpdatePolicy) : Prop :=
  ∃ bytes, ReleaseSigned P input trustRoot 5 (base ++ updatePolicyFile input.channel) bytes ∧
    Reads P.updatePolicy bytes policy ∧ policy.channel = input.channel ∧
    Judged P input policy.version policy.expires last

theorem ends_acceptPolicy (newestTag : Option String) (trustRoot : TrustRoot)
    (standing : Standing) :
    Ends (PolicyTaken P input (input.newestBase newestTag) trustRoot
        (standing.remembered.policy.get input.channel))
      (Carries input standing) (acceptPolicy P input newestTag trustRoot standing) := by
  have hrefuse := carries_refuse input standing
  refine (ends_signed (throws_carries _) 5 _ _).bind fun file hfile => ?_
  refine (Ends.present (hrefuse _ _)).bind fun bytes hbytes => ?_
  refine (Ends.present (hrefuse _ _)).bind fun sigText hsigText => ?_
  obtain ⟨sig, rfl, hserved⟩ := hfile.2 bytes sigText hbytes hsigText
  refine (Ends.require (hrefuse _ _)).bind fun _ hverify => ?_
  refine (ends_readDocument (fun _ => hrefuse _ _) (hrefuse _ _)).bind fun policy hpolicy => ?_
  refine (Ends.require (hrefuse _ _)).bind fun _ hchannel => ?_
  refine (ends_judged (hrefuse _ _) (hrefuse _ _)).bind fun _ hjudged => ?_
  exact .ok ⟨bytes, ⟨sig, hserved, hverify⟩, hpolicy, hchannel, hjudged⟩

/-- A feed the chain takes. -/
def FeedTaken (P : ChainPlatform) (input : ChainInput) (head : String) (trustRoot : TrustRoot)
    (feedText : String) : Prop :=
  ∃ bytes, ReleaseSigned P input trustRoot 7 (input.releaseBase head ++ input.feedFile) bytes ∧
    decode bytes = some feedText

theorem ends_readFeed (head : String) (trustRoot : TrustRoot) (standing : Standing) :
    Ends (FeedTaken P input head trustRoot) (Carries input standing)
      (readFeed P input head trustRoot standing) := by
  have hrefuse := carries_refuse input standing
  refine (ends_signed (throws_carries _) 7 _ _).bind fun feed hfeed => ?_
  refine (Ends.present (hrefuse _ _)).bind fun bytes hbytes => ?_
  refine (Ends.present (hrefuse _ _)).bind fun sigText hsigText => ?_
  obtain ⟨sig, rfl, hserved⟩ := hfeed.2 bytes sigText hbytes hsigText
  refine (Ends.require (hrefuse _ _)).bind fun _ hverify => ?_
  refine (Ends.present (hrefuse _ _)).mono (fun text _ htext => ?_) fun _ h => h
  exact ⟨bytes, ⟨sig, hserved, hverify⟩, htext⟩

def ManifestTaken (P : ChainPlatform) (input : ChainInput) (head : String)
    (headVersion : Option String) (trustRoot : TrustRoot) :
    Option (ReleaseManifest P.Raw) → Prop
  | none => input.fetch 9 (input.releaseBase head ++ releaseManifestFile) = .ok none
  | some manifest =>
    ∃ bytes, ReleaseSigned P input trustRoot 9 (input.releaseBase head ++ releaseManifestFile)
        bytes ∧ Reads P.releaseManifest bytes manifest ∧ manifest.tag = head ∧
      some manifest.version = headVersion

theorem ends_readManifest (head : String) (headVersion : Option String) (trustRoot : TrustRoot)
    (standing : Standing) :
    Ends (ManifestTaken P input head headVersion trustRoot) (Carries input standing)
      (readManifest P input head headVersion trustRoot standing) := by
  have hrefuse := carries_refuse input standing
  refine (ends_signed (throws_carries _) 9 _ _).bind fun file hfile => ?_
  obtain ⟨bytes, sigText⟩ := file
  cases bytes with
  | none => exact .ok hfile.1
  | some bytes =>
    refine (Ends.present (hrefuse _ _)).bind fun sigText hsigText => ?_
    obtain ⟨sig, rfl, hserved⟩ := hfile.2 bytes sigText rfl hsigText
    refine (Ends.require (hrefuse _ _)).bind fun _ hverify => ?_
    refine (ends_readDocument (fun _ => hrefuse _ _) (hrefuse _ _)).bind
      fun manifest hmanifest => ?_
    refine (Ends.require (hrefuse _ _)).bind fun _ hnames => ?_
    exact .ok ⟨bytes, ⟨sig, hserved, hverify⟩, hmanifest, hnames.1, hnames.2⟩

theorem ends_newestRelease (standing : Standing) :
    Ends (fun _ => True) (Carries input standing) (newestRelease P input) :=
  (ends_fetchBytes (throws_carries standing) 0 _).bind fun _ _ => .ok trivial

/-! ## The rest of the chain -/

/-- The head release's feed and manifest as the chain takes them. -/
structure HeadTaken (P : ChainPlatform) (input : ChainInput) (chain : VerifiedChain P) :
    Prop where
  base : chain.headBase = input.releaseBase chain.head
  file : chain.feedFile = input.feedFile
  feed : FeedTaken P input chain.head chain.trustRoot chain.feedText
  version : chain.headVersion = feedVersionOf chain.feedText
  manifest : ManifestTaken P input chain.head chain.headVersion chain.trustRoot chain.manifest
  notes : (chain.notes, chain.notesDropped) = readNotes P chain.manifest

theorem ends_afterPolicy (trustRoot : TrustRoot) (accepted : AcceptedRoot)
    (heads : ChannelHeads) (head : String) (policy : UpdatePolicy) :
    Ends (fun chain => HeadTaken P input chain ∧ chain.head = head ∧
        chain.trustRoot = trustRoot ∧ chain.heads = heads ∧ chain.policy = policy ∧
        chain.remembered = policyRemembered input trustRoot heads policy ∧
        chain.acceptedRoot = accepted)
      (Carries input ⟨policyRemembered input trustRoot heads policy, some accepted⟩)
      (afterPolicy P input trustRoot accepted heads head policy) := by
  refine (ends_readFeed head trustRoot _).bind fun feedText hfeed => ?_
  refine (ends_readManifest head _ trustRoot _).bind fun manifest hmanifest => ?_
  exact .ok ⟨⟨rfl, rfl, hfeed, rfl, hmanifest, rfl⟩, rfl, rfl, rfl, rfl, rfl, rfl⟩

end VibeField.Updates
