import VibeField.Updates.VerifyChain

/-!
# What the roots vouch for

Whatever a server answers, a chain that is taken was signed from the trusted root keys down: the
trust-root by these keys, and every other file by the release role it names.  What is remembered
never falls below what was remembered and the build's floors, and only a document so signed raises
it.
-/

namespace VibeField.Updates

open Contracts Trust

/-! ## Versions -/

/-- The second version is no lower than the first. -/
def NoLower (first second : Option Nat) : Prop := ∀ v ∈ first, ∃ w ∈ second, v ≤ w

namespace NoLower

theorem refl (a : Option Nat) : NoLower a a := fun v hv => ⟨v, hv, Nat.le_refl v⟩

theorem some {a : Option Nat} {version : Nat} (h : ∀ v ∈ a, v ≤ version) :
    NoLower a (some version) := fun v hv => ⟨version, rfl, h v hv⟩

theorem atLeast_left (a b : Option Nat) : NoLower a (atLeast a b) := by
  intro v hv
  cases hv
  cases b with
  | none => exact ⟨v, rfl, Nat.le_refl v⟩
  | some f => exact ⟨Nat.max v f, rfl, Nat.le_max_left v f⟩

end NoLower

/-- No remembered version of the second is lower than that of the first. -/
structure RememberedVersions.NoLower (r s : RememberedVersions) : Prop where
  trustRoot : Updates.NoLower r.trustRoot s.trustRoot
  channels : Updates.NoLower r.channels s.channels
  policy : ∀ channel, Updates.NoLower (r.policy.get channel) (s.policy.get channel)

namespace RememberedVersions.NoLower

variable {r s t : RememberedVersions}

theorem refl (r : RememberedVersions) : r.NoLower r :=
  ⟨.refl _, .refl _, fun _ => .refl _⟩

theorem withFloors (r : RememberedVersions) (floors : Option RememberedVersions) :
    r.NoLower (withFloors r floors) := by
  cases floors with
  | none => exact refl r
  | some f =>
    refine ⟨.atLeast_left _ _, .atLeast_left _ _, fun channel => ?_⟩
    cases channel <;> exact .atLeast_left _ _

end RememberedVersions.NoLower

/-! ## Documents that are vouched for -/

variable (P : ChainPlatform) (signed : String → ByteArray → Prop) (input : ChainInput)

structure Current (version : Nat) (expires : String) (last : Option Nat) : Prop where
  unexpired : ∃ t ∈ P.dateParse expires, input.now < t
  no_older : ∀ v ∈ last, v ≤ version

/-- The trust-root's exact bytes are signed by a trusted root key, and by as many as its own
threshold. -/
def RootVouched (base : String) (doc : TrustRoot) : Prop :=
  ∃ bytes, (∃ sig, Served input 1 (base ++ trustRootFile) bytes sig) ∧
    Vouched signed input.rootKeys doc.root.threshold bytes ∧
    (∃ raw ∈ P.jsonParse (P.bufferToString bytes), readTrustRoot P.toPlatform raw = .ok doc) ∧
    Current P input doc.version doc.expires input.floored.trustRoot

/-- A file's exact bytes are signed to the threshold of the trust-root's release role. -/
structure RoleVouched (trustRoot : TrustRoot) (call : Nat) (url : String) (bytes : ByteArray) :
    Prop where
  served : ∃ sig, Served input call url bytes sig
  vouched : Vouched signed trustRoot.release.keys trustRoot.release.threshold bytes

def HeadsVouched (base : String) (trustRoot : TrustRoot) (heads : ChannelHeads) : Prop :=
  ∃ bytes, RoleVouched signed input trustRoot 3 (base ++ channelHeadsFile) bytes ∧
    Reads P.channelHeads bytes heads ∧
    Current P input heads.version heads.expires input.floored.channels

def PolicyVouched (base : String) (trustRoot : TrustRoot) (policy : UpdatePolicy) : Prop :=
  ∃ bytes, RoleVouched signed input trustRoot 5 (base ++ updatePolicyFile input.channel) bytes ∧
    Reads P.updatePolicy bytes policy ∧ policy.channel = input.channel ∧
    Current P input policy.version policy.expires (input.floored.policy.get input.channel)

def FeedVouched (trustRoot : TrustRoot) (head feedText : String) : Prop :=
  ∃ bytes, RoleVouched signed input trustRoot 7 (input.releaseBase head ++ input.feedFile) bytes ∧
    decode bytes = some feedText

def ManifestVouched (trustRoot : TrustRoot) (head : String) (headVersion : Option String) :
    Option (ReleaseManifest P.Raw) → Prop
  | none => input.fetch 9 (input.releaseBase head ++ releaseManifestFile) = .ok none
  | some manifest =>
    ∃ bytes, RoleVouched signed input trustRoot 9 (input.releaseBase head ++ releaseManifestFile)
        bytes ∧ Reads P.releaseManifest bytes manifest ∧ manifest.tag = head ∧
      some manifest.version = headVersion

structure ChainVouched (chain : VerifiedChain P) : Prop where
  documents : ∃ base, RootVouched P signed input base chain.trustRoot ∧
    HeadsVouched P signed input base chain.trustRoot chain.heads ∧
    PolicyVouched P signed input base chain.trustRoot chain.policy
  head : chain.heads.heads.get input.channel = some chain.head
  headBase : chain.headBase = input.releaseBase chain.head
  feed : FeedVouched signed input chain.trustRoot chain.head chain.feedText
  headVersion : chain.headVersion = feedVersionOf chain.feedText
  manifest : ManifestVouched P signed input chain.trustRoot chain.head chain.headVersion
    chain.manifest
  notes : (chain.notes, chain.notesDropped) = readNotes P chain.manifest

/-- Each remembered version is the one at the start or that of a document so vouched for. -/
structure RaisedByVouched (remembered : RememberedVersions) : Prop where
  trustRoot : remembered.trustRoot = input.floored.trustRoot ∨
    ∃ base doc, RootVouched P signed input base doc ∧ remembered.trustRoot = some doc.version
  channels : remembered.channels = input.floored.channels ∨
    ∃ base doc heads, RootVouched P signed input base doc ∧
      HeadsVouched P signed input base doc heads ∧ remembered.channels = some heads.version
  policy : ∀ channel, remembered.policy.get channel = input.floored.policy.get channel ∨
    channel = input.channel ∧ ∃ base doc policy, RootVouched P signed input base doc ∧
      PolicyVouched P signed input base doc policy ∧
      remembered.policy.get channel = some policy.version

variable {P signed input}

/-! ## What is taken is vouched for -/

theorem current_of_judged {version : Nat} {expires : String} {last : Option Nat}
    (h : Judged P input version expires last) : Current P input version expires last :=
  ⟨(judge_accepted h).2, (judge_accepted h).1⟩

theorem RootTaken.vouched (hsigned : Unforgeable P.toPlatform signed) {base : String}
    {doc : TrustRoot} {accepted : AcceptedRoot} {bytes sig : ByteArray}
    (h : RootTaken P input base doc accepted bytes sig) : RootVouched P signed input base doc := by
  obtain ⟨signers, hverified, hall⟩ := h.verified
  obtain ⟨rfl, _, hone, hread⟩ := verifyTrustRoot_ok hverified
  exact ⟨bytes, ⟨sig, h.served⟩, vouched_of_signers hsigned hone hall, hread,
    current_of_judged h.judged⟩

variable {trustRoot : TrustRoot}

theorem ReleaseSigned.vouched (hsigned : Unforgeable P.toPlatform signed)
    {call : Nat} {url : String} {bytes : ByteArray}
    (h : ReleaseSigned P input trustRoot call url bytes) :
    RoleVouched signed input trustRoot call url bytes := by
  obtain ⟨sig, hserved, hverify⟩ := h.served
  exact ⟨⟨sig, hserved⟩, vouched_of_verifySignedBytes hsigned hverify⟩

theorem HeadsTaken.vouched (hsigned : Unforgeable P.toPlatform signed) {base : String}
    {heads : ChannelHeads}
    (h : HeadsTaken P input base trustRoot input.floored.channels heads) :
    HeadsVouched P signed input base trustRoot heads := by
  obtain ⟨bytes, hrelease, hreads, hjudged⟩ := h
  exact ⟨bytes, hrelease.vouched hsigned, hreads, current_of_judged hjudged⟩

theorem PolicyTaken.vouched (hsigned : Unforgeable P.toPlatform signed) {base : String}
    {policy : UpdatePolicy}
    (h : PolicyTaken P input base trustRoot (input.floored.policy.get input.channel) policy) :
    PolicyVouched P signed input base trustRoot policy := by
  obtain ⟨bytes, hrelease, hreads, hchannel, hjudged⟩ := h
  exact ⟨bytes, hrelease.vouched hsigned, hreads, hchannel, current_of_judged hjudged⟩

theorem FeedTaken.vouched (hsigned : Unforgeable P.toPlatform signed)
    {head feedText : String} (h : FeedTaken P input head trustRoot feedText) :
    FeedVouched signed input trustRoot head feedText := by
  obtain ⟨bytes, hrelease, hdecode⟩ := h
  exact ⟨bytes, hrelease.vouched hsigned, hdecode⟩

theorem ManifestTaken.vouched (hsigned : Unforgeable P.toPlatform signed)
    {head : String} {headVersion : Option String}
    {manifest : Option (ReleaseManifest P.Raw)}
    (h : ManifestTaken P input head headVersion trustRoot manifest) :
    ManifestVouched P signed input trustRoot head headVersion manifest := by
  cases manifest with
  | none => exact h
  | some manifest =>
    obtain ⟨bytes, hrelease, hreads, htag, hversion⟩ := h
    exact ⟨bytes, hrelease.vouched hsigned, hreads, htag, hversion⟩

/-! ## What is remembered -/

namespace RaisedByVouched

variable {base : String} {doc : TrustRoot} {heads : ChannelHeads} {policy : UpdatePolicy}

theorem floored : RaisedByVouched P signed input input.floored :=
  ⟨.inl rfl, .inl rfl, fun _ => .inl rfl⟩

theorem trustRoot_of (hroot : RootVouched P signed input base doc) :
    RaisedByVouched P signed input (rootRemembered input doc) :=
  ⟨.inr ⟨base, doc, hroot, rfl⟩, .inl rfl, fun _ => .inl rfl⟩

theorem heads_of (hroot : RootVouched P signed input base doc)
    (hheads : HeadsVouched P signed input base doc heads) :
    RaisedByVouched P signed input (headsRemembered input doc heads) :=
  ⟨.inr ⟨base, doc, hroot, rfl⟩, .inr ⟨base, doc, heads, hroot, hheads, rfl⟩, fun _ => .inl rfl⟩

theorem policy_of (hroot : RootVouched P signed input base doc)
    (hheads : HeadsVouched P signed input base doc heads)
    (hpolicy : PolicyVouched P signed input base doc policy) :
    RaisedByVouched P signed input (policyRemembered input doc heads policy) := by
  refine ⟨.inr ⟨base, doc, hroot, rfl⟩, .inr ⟨base, doc, heads, hroot, hheads, rfl⟩, ?_⟩
  intro channel
  have hget : (policyRemembered input doc heads policy).policy.get channel =
      if channel = input.channel then some policy.version
      else input.floored.policy.get channel := PerChannel.get_set _ _ _ _
  by_cases hchannel : channel = input.channel
  · rw [if_pos hchannel] at hget
    exact .inr ⟨hchannel, base, doc, policy, hroot, hpolicy, hget⟩
  · rw [if_neg hchannel] at hget
    exact .inl hget

theorem noLower {remembered : RememberedVersions} (h : RaisedByVouched P signed input remembered) :
    input.floored.NoLower remembered := by
  refine ⟨?_, ?_, fun channel => ?_⟩
  · rcases h.trustRoot with heq | ⟨_, _, ⟨_, _, _, _, hcurrent⟩, heq⟩ <;> rw [heq]
    · exact .refl _
    · exact .some hcurrent.no_older
  · rcases h.channels with heq | ⟨_, _, _, _, ⟨_, _, _, hcurrent⟩, heq⟩ <;> rw [heq]
    · exact .refl _
    · exact .some hcurrent.no_older
  · rcases h.policy channel with heq | ⟨hchannel, _, _, _, _, ⟨_, _, _, _, hcurrent⟩, heq⟩ <;>
      rw [heq]
    · exact .refl _
    · rw [hchannel]
      exact .some hcurrent.no_older

end RaisedByVouched

def RefusalRaised (P : ChainPlatform) (signed : String → ByteArray → Prop) (input : ChainInput) :
    Stop → Prop
  | .threw error => ∃ call url, input.fetch call url = .error error
  | .refused chain => RaisedByVouched P signed input chain.remembered

theorem RefusalRaised.of_carries {standing : Standing} {stop : Stop}
    (h : RaisedByVouched P signed input standing.remembered)
    (hcarries : Carries input standing stop) : RefusalRaised P signed input stop := by
  cases stop with
  | threw error => exact hcarries
  | refused chain =>
    show RaisedByVouched P signed input chain.remembered
    rw [hcarries.1]
    exact h

/-! ## The chain -/

/-- What a chain that is taken comes to. -/
def ChainStands (P : ChainPlatform) (signed : String → ByteArray → Prop) (input : ChainInput)
    (chain : VerifiedChain P) : Prop :=
  ChainVouched P signed input chain ∧ RaisedByVouched P signed input chain.remembered

variable {newestTag : Option String} {doc : TrustRoot} {accepted : AcceptedRoot}

theorem ends_afterHeads_vouched (hsigned : Unforgeable P.toPlatform signed)
    {heads : ChannelHeads} (hroot : RootVouched P signed input (input.newestBase newestTag) doc)
    (hheads : HeadsVouched P signed input (input.newestBase newestTag) doc heads) :
    Ends (ChainStands P signed input) (RefusalRaised P signed input)
      (afterHeads P input newestTag doc accepted heads) := by
  have hrefusal : ∀ stop,
      Carries input ⟨headsRemembered input doc heads, some accepted⟩ stop →
        RefusalRaised P signed input stop :=
    fun _ => .of_carries (.heads_of hroot hheads)
  refine (Ends.present (hrefusal _ (carries_refuse _ _ _ _))).bind fun head hhead => ?_
  refine ((ends_acceptPolicy newestTag doc _).mono (fun _ _ h => h) hrefusal).bind
    fun policy hpolicy => ?_
  have hvouched := PolicyTaken.vouched hsigned hpolicy
  have hraised := RaisedByVouched.policy_of hroot hheads hvouched
  refine (ends_afterPolicy doc accepted heads head policy).mono (fun chain _ h => ?_)
    fun _ => .of_carries hraised
  obtain ⟨htaken, rfl, rfl, rfl, rfl, hremembered, rfl⟩ := h
  refine ⟨⟨⟨_, hroot, hheads, hvouched⟩, hhead, htaken.base, htaken.feed.vouched hsigned,
    htaken.version, htaken.manifest.vouched hsigned, htaken.notes⟩, ?_⟩
  rw [hremembered]
  exact hraised

theorem ends_afterTrustRoot_vouched (hsigned : Unforgeable P.toPlatform signed)
    (hroot : RootVouched P signed input (input.newestBase newestTag) doc) :
    Ends (ChainStands P signed input) (RefusalRaised P signed input)
      (afterTrustRoot P input newestTag doc accepted) := by
  refine ((ends_acceptHeads newestTag doc _).mono (fun _ _ h => h)
    fun _ => .of_carries (.trustRoot_of hroot)).bind fun heads hheads => ?_
  exact ends_afterHeads_vouched hsigned hroot (HeadsTaken.vouched hsigned hheads)

theorem ends_chainSteps_vouched (hsigned : Unforgeable P.toPlatform signed) :
    Ends (ChainStands P signed input) (RefusalRaised P signed input) (chainSteps P input) := by
  refine ((ends_newestRelease ⟨input.floored, none⟩).mono (fun _ _ h => h)
    fun _ => .of_carries .floored).bind fun newestTag _ => ?_
  refine ((ends_acceptTrustRoot newestTag).mono (fun _ _ h => h)
    fun _ => .of_carries .floored).bind fun root hroot => ?_
  obtain ⟨bytes, sig, htaken⟩ := hroot
  exact ends_afterTrustRoot_vouched hsigned (htaken.vouched hsigned)

/-- What is remembered when the chain ends. -/
def Remembers (P : ChainPlatform) (signed : String → ByteArray → Prop) (input : ChainInput)
    (remembered : RememberedVersions) : Prop :=
  input.floored.NoLower remembered ∧ RaisedByVouched P signed input remembered

/-- Whatever is fetched: a chain that is taken is vouched for by the roots, what is remembered is
no lower than what was and is raised only by what was vouched for, and only a fetch throws. -/
theorem update_chain_vouched (hsigned : Unforgeable P.toPlatform signed) :
    (∀ chain, verifyUpdateChain P input = .ok (.verified chain) →
      ChainVouched P signed input chain ∧ Remembers P signed input chain.remembered) ∧
    (∀ chain, verifyUpdateChain P input = .ok (.refused chain) →
      Remembers P signed input chain.remembered) ∧
    (∀ error, verifyUpdateChain P input = .error error →
      ∃ call url, input.fetch call url = .error error) := by
  have hends : Ends (ChainStands P signed input) (RefusalRaised P signed input)
      (chainSteps P input) := ends_chainSteps_vouched hsigned
  unfold verifyUpdateChain
  cases hsteps : chainSteps P input with
  | ok chain =>
    have hstands := hends.of_ok hsteps
    refine ⟨?_, fun _ h => ?_, fun _ h => ?_⟩
    · rintro _ ⟨⟩
      exact ⟨hstands.1, hstands.2.noLower, hstands.2⟩
    · cases h
    · cases h
  | error stop =>
    have hraised := hends.of_error hsteps
    cases stop with
    | refused chain =>
      refine ⟨fun _ h => ?_, ?_, fun _ h => ?_⟩
      · cases h
      · rintro _ ⟨⟩
        exact ⟨RaisedByVouched.noLower hraised, hraised⟩
      · cases h
    | threw error =>
      refine ⟨fun _ h => ?_, fun _ h => ?_, ?_⟩
      · cases h
      · cases h
      · rintro _ ⟨⟩
        exact hraised

/-! ## A release on a server -/

namespace Sample

def key (letter : Char) : String :=
  "MCowBQYDK2VwAyEA" ++ String.ofList (List.replicate 42 letter) ++ "A="

def keySet (keys : List String) : String :=
  "\x7b\"threshold\":1,\"keys\":[\"" ++ "\",\"".intercalate keys ++ "\"]\x7d"

def rootText : String :=
  "\x7b\"schemaVersion\":1,\"version\":1,\"expires\":\"2027-01-01T00:00:00Z\",\"root\":" ++
    keySet [key 'a', key 'b'] ++ ",\"roles\":\x7b\"release\":" ++ keySet [key 'c'] ++
    ",\"bundled\":" ++ keySet [key 'd'] ++ ",\"registry\":" ++ keySet [key 'e'] ++ "\x7d\x7d"

def rootFields : TrustRootFields :=
  { version := 1
    expires := "2027-01-01T00:00:00Z"
    root := ⟨1, [key 'a', key 'b'], Nat.le_refl 1⟩
    release := ⟨1, [key 'c'], Nat.le_refl 1⟩
    bundled := ⟨1, [key 'd'], Nat.le_refl 1⟩
    registry := ⟨1, [key 'e'], Nat.le_refl 1⟩
    one_le := Nat.le_refl 1 }

def headsText : String :=
  "\x7b\"schemaVersion\":1,\"version\":1,\"generatedAt\":0,\"expires\":" ++
    "\"2027-01-01T00:00:00Z\",\"trustRootVersion\":1,\"heads\":" ++
    "\x7b\"nightly\":null,\"beta\":null,\"stable\":\"v1.0.0\"\x7d\x7d"

def policyText : String :=
  "\x7b\"version\":1,\"generatedAt\":0,\"expires\":\"2027-01-01T00:00:00Z\"," ++
    "\"channel\":\"stable\",\"trustRootVersion\":1,\"killSwitch\":false," ++
    "\"requireUserConfirmation\":false\x7d"

def feedText : String := "version: 1.0.0\n"

def manifestText : String :=
  "\x7b\"schemaVersion\":1,\"version\":\"1.0.0\",\"tag\":\"v1.0.0\",\"channel\":\"stable\"," ++
    "\"commit\":\"0123456789012345678901234567890123456789\",\"builds\":\x7b\x7d," ++
    "\"touched\":[],\"previous\":null\x7d"

def platform : ChainPlatform where
  verifyEd25519 _ line signer := line == "c2ln" && [key 'a', key 'c'].contains signer
  bufferToString bytes := (String.fromUTF8? bytes).getD "\uFFFD"
  Raw := String
  jsonParse := some
  trustRootShape _ := .ok rootFields
  dateParse _ := some 1798761600000
  channelHeads _ := .ok ⟨1, "2027-01-01T00:00:00Z", ⟨none, none, some "v1.0.0"⟩, Nat.le_refl 1⟩
  updatePolicy _ := .ok ⟨1, "2027-01-01T00:00:00Z", .stable, Nat.le_refl 1⟩
  releaseManifest _ := .ok ⟨"1.0.0", "v1.0.0", none⟩
  Notes := Unit
  releaseNotes _ := .error none

/-- No atom feed, so the latest release is asked; and its manifest, where there is one. -/
def asked (manifest : Option String) : ChainInput where
  origin := "https://github.com/vibefield/vibefield/releases"
  channel := .stable
  rootKeys := [key 'a', key 'b']
  remembered := nothingRemembered
  floors := none
  now := 1767225600000
  feedFile := "latest-mac.yml"
  fetch call _ :=
    let sig := "c2ln\n".toUTF8
    match call with
    | 1 => .ok (some rootText.toUTF8)
    | 3 => .ok (some headsText.toUTF8)
    | 5 => .ok (some policyText.toUTF8)
    | 7 => .ok (some feedText.toUTF8)
    | 9 => .ok (manifest.map String.toUTF8)
    | 10 => .ok (manifest.map fun _ => sig)
    | 0 => .ok none
    | _ => .ok (some sig)

end Sample

def takes (p : VerifiedChain P → Bool) : Except String (ChainResult P) → Bool
  | .ok (.verified chain) => p chain
  | _ => false

theorem exists_of_takes {p : VerifiedChain P → Bool} {result : Except String (ChainResult P)}
    (h : takes p result = true) : ∃ chain, result = .ok (.verified chain) ∧ p chain = true := by
  unfold takes at h
  split at h
  · next chain => exact ⟨chain, rfl, h⟩
  · cases h

/-- A key has signed what some line verifies for it. -/
def Sample.signedBy (signer : String) (bytes : ByteArray) : Prop :=
  ∃ line, Sample.platform.verifyEd25519 bytes line signer = true

/-- A release with a manifest is taken, and everything in it is vouched for. -/
theorem update_chain_vouched_taken :
    ∃ chain, verifyUpdateChain Sample.platform (Sample.asked (some Sample.manifestText)) =
        .ok (.verified chain) ∧ chain.manifest.isSome = true ∧
      ChainVouched Sample.platform Sample.signedBy (Sample.asked (some Sample.manifestText))
        chain := by
  have htakes : takes (fun chain => chain.manifest.isSome) (verifyUpdateChain Sample.platform
      (Sample.asked (some Sample.manifestText))) = true := by
    decide +kernel
  obtain ⟨chain, hchain, hmanifest⟩ := exists_of_takes htakes
  exact ⟨chain, hchain, hmanifest,
    ((update_chain_vouched fun _ line _ h => ⟨line, h⟩).1 chain hchain).1⟩

/-- The newest release serves no atom feed and no manifest, and its chain is taken. -/
theorem absent_manifest_taken :
    ∃ chain, verifyUpdateChain Sample.platform (Sample.asked none) = .ok (.verified chain) ∧
      (Sample.asked none).fetch 0 ((Sample.asked none).trimmedOrigin ++ ".atom") = .ok none ∧
      (Sample.asked none).fetch 9 (chain.headBase ++ releaseManifestFile) = .ok none := by
  have htakes : takes (fun _ => true) (verifyUpdateChain Sample.platform (Sample.asked none)) =
      true := by
    decide +kernel
  obtain ⟨chain, hchain, -⟩ := exists_of_takes htakes
  exact ⟨chain, hchain, rfl, rfl⟩

end VibeField.Updates
