import VibeField.Updates.Controller

/-!
# Adopted roots read back

The set in force in memory is the one the persisted documents lead to from the embedded keys, as
long as each document that was adopted verifies, as it is persisted, by the set it replaced, is
newer than that set and fits the state file.
-/

namespace VibeField.Updates

open Contracts Trust List Option

variable {P : ChainPlatform} {input : ChainInput}

/-! ## What a verification leaves -/

def RefusedWith (W : RememberedVersions → Option AcceptedRoot → Prop) : Stop → Prop
  | .threw _ => True
  | .refused chain => W chain.remembered chain.acceptedRoot

/-- `W` holds of the remembered versions and the accepted trust-root, taken or refused. -/
def Leaves (W : RememberedVersions → Option AcceptedRoot → Prop)
    (x : Except Stop (VerifiedChain P)) : Prop :=
  Ends (fun chain => W chain.remembered (some chain.acceptedRoot)) (RefusedWith W) x

variable {W W' : RememberedVersions → Option AcceptedRoot → Prop}

theorem RefusedWith.of_carries {standing : Standing} {stop : Stop}
    (h : W standing.remembered standing.acceptedRoot) (hcarries : Carries input standing stop) :
    RefusedWith W stop := by
  cases stop with
  | threw error => exact trivial
  | refused chain =>
    show W chain.remembered chain.acceptedRoot
    rw [hcarries.1, hcarries.2]
    exact h

theorem Leaves.mono {x : Except Stop (VerifiedChain P)} (h : Leaves W x)
    (hW : ∀ r a, W r a → W' r a) : Leaves W' x := by
  refine Ends.mono h (fun _ _ => hW _ _) fun stop hstop => ?_
  cases stop with
  | threw error => exact trivial
  | refused chain => exact hW _ _ hstop

theorem Leaves.after {α : Type} {Q : α → Prop} {x : Except Stop α}
    {f : α → Except Stop (VerifiedChain P)} (h : Ends Q (RefusedWith W) x)
    (hf : ∀ a, Q a → Leaves W (f a)) : Leaves W (x >>= f) := Ends.bind h hf

theorem Leaves.of_result {result : ChainResult P} (h : Leaves W (chainSteps P input))
    (hresult : verifyUpdateChain P input = .ok result) :
    W result.remembered result.acceptedRoot := by
  unfold verifyUpdateChain at hresult
  split at hresult
  · next chain hchain =>
    obtain rfl := Except.ok.inj hresult
    exact h.of_ok hchain
  · next chain hchain =>
    obtain rfl := Except.ok.inj hresult
    exact h.of_error hchain
  · cases hresult

section Rest

variable {newestTag : Option String} {trustRoot : TrustRoot} {accepted : AcceptedRoot}
  {heads : ChannelHeads} {head : String} {policy : UpdatePolicy}

theorem leaves_afterPolicy :
    Leaves (fun r a => r = policyRemembered input trustRoot heads policy ∧ a = some accepted)
      (afterPolicy P input trustRoot accepted heads head policy) := by
  refine (ends_afterPolicy trustRoot accepted heads head policy).mono (fun chain _ h => ?_)
    fun _ => .of_carries ⟨rfl, rfl⟩
  obtain ⟨-, -, -, -, -, hremembered, hroot⟩ := h
  exact ⟨hremembered, congrArg some hroot⟩

theorem leaves_afterHeads :
    Leaves (fun r a => r.trustRoot = some trustRoot.version ∧ r.channels = some heads.version ∧
        a = some accepted)
      (afterHeads P input newestTag trustRoot accepted heads) := by
  have hrefused : ∀ stop,
      Carries input ⟨headsRemembered input trustRoot heads, some accepted⟩ stop →
      RefusedWith (fun r a => r.trustRoot = some trustRoot.version ∧
        r.channels = some heads.version ∧ a = some accepted) stop :=
    fun _ => .of_carries ⟨rfl, rfl, rfl⟩
  refine Leaves.after (Ends.present (hrefused _ (carries_refuse _ _ _ _))) fun head _ => ?_
  refine Leaves.after ((ends_acceptPolicy newestTag trustRoot _).mono (fun _ _ h => h) hrefused)
    fun policy _ => ?_
  refine leaves_afterPolicy.mono fun r a h => ?_
  rw [h.1]
  exact ⟨rfl, rfl, h.2⟩

theorem leaves_afterTrustRoot :
    Leaves (fun r a => r.trustRoot = some trustRoot.version ∧ a = some accepted)
      (afterTrustRoot P input newestTag trustRoot accepted) := by
  refine Leaves.after ((ends_acceptHeads newestTag trustRoot _).mono (fun _ _ h => h)
    fun _ => .of_carries ⟨rfl, rfl⟩) fun heads _ => ?_
  exact leaves_afterHeads.mono fun _ _ h => ⟨h.1, h.2.2⟩

end Rest

/-- A trust-root the verification accepted. -/
def RootFrom (P : ChainPlatform) (input : ChainInput) (accepted : AcceptedRoot) : Prop :=
  ∃ newestTag doc bytes sig, newestRelease P input = .ok newestTag ∧
    RootTaken P input (input.newestBase newestTag) doc accepted bytes sig

theorem leaves_chainSteps :
    Leaves (fun _ a => ∀ accepted ∈ a, RootFrom P input accepted) (chainSteps P input) := by
  have hnone : ∀ stop, Carries input ⟨input.floored, none⟩ stop →
      RefusedWith (fun _ a => ∀ accepted ∈ a, RootFrom P input accepted) stop :=
    fun _ => .of_carries fun _ h => by cases h
  have hnewest := ((Ends.self _).and (ends_newestRelease (P := P) ⟨input.floored, none⟩)).mono
    (fun _ _ h => h.1) (fun stop h => hnone stop h.2)
  refine Leaves.after hnewest fun newestTag hnewest => ?_
  refine Leaves.after ((ends_acceptTrustRoot newestTag).mono (fun _ _ h => h) hnone)
    fun root hroot => ?_
  obtain ⟨bytes, sig, htaken⟩ := hroot
  refine leaves_afterTrustRoot.mono fun r a h => ?_
  rintro _ ha
  rw [h.2] at ha
  obtain rfl := some.inj ha
  exact ⟨newestTag, root.1, bytes, sig, hnewest, htaken⟩

theorem rootFrom_of_result {result : ChainResult P} {accepted : AcceptedRoot}
    (hresult : verifyUpdateChain P input = .ok result)
    (haccepted : result.acceptedRoot = some accepted) : RootFrom P input accepted :=
  leaves_chainSteps.of_result hresult accepted haccepted

/-! ## Versions that fit the file -/

theorem versionFits_iff {version : Option Nat} :
    versionFits version = true ↔ ∀ v ∈ version, 1 ≤ v := by
  cases version with
  | none => exact ⟨fun _ _ h => (by cases h), fun _ => rfl⟩
  | some v =>
    unfold versionFits
    rw [all_some, decide_eq_true_eq]
    exact ⟨fun h w hw => some.inj hw ▸ h, fun h => h v rfl⟩

variable {r : RememberedVersions}

theorem RememberedVersions.fits_iff :
    r.fits = true ↔ ∀ kind, ∀ v ∈ r.of kind, 1 ≤ v := by
  unfold RememberedVersions.fits
  simp only [Bool.and_eq_true, versionFits_iff]
  constructor
  · rintro ⟨⟨⟨⟨hroot, hchannels⟩, hnightly⟩, hbeta⟩, hstable⟩ kind
    cases kind with
    | trustRoot => exact hroot
    | channels => exact hchannels
    | policy channel =>
      cases channel with
      | nightly => exact hnightly
      | beta => exact hbeta
      | stable => exact hstable
  · exact fun h => ⟨⟨⟨⟨h .trustRoot, h .channels⟩, h (.policy .nightly)⟩, h (.policy .beta)⟩,
      h (.policy .stable)⟩

theorem atLeast_pos {a b : Option Nat} (ha : ∀ v ∈ a, 1 ≤ v) (hb : ∀ v ∈ b, 1 ≤ v) :
    ∀ v ∈ atLeast a b, 1 ≤ v := by
  cases a with
  | none => exact hb
  | some r =>
    cases b with
    | none => exact ha
    | some f =>
      intro v hv
      rw [← some.inj hv]
      exact Nat.le_trans (ha r rfl) (Nat.le_max_left r f)

theorem withFloors_of (r floors : RememberedVersions) (kind : DocumentKind) :
    (withFloors r (some floors)).of kind = atLeast (r.of kind) (floors.of kind) := by
  cases kind with
  | trustRoot => rfl
  | channels => rfl
  | policy channel => cases channel <;> rfl

theorem withFloors_fits {floors : Option RememberedVersions}
    (hr : r.fits = true) (hfloors : ∀ f ∈ floors, f.fits = true) :
    (withFloors r floors).fits = true := by
  cases floors with
  | none => exact hr
  | some f =>
    rw [RememberedVersions.fits_iff] at hr ⊢
    intro kind
    rw [withFloors_of]
    exact atLeast_pos (hr kind) (RememberedVersions.fits_iff.mp (hfloors f rfl) kind)

theorem RaisedByVouched.fits {signed : String → ByteArray → Prop}
    (h : RaisedByVouched P signed input r) (hfloored : input.floored.fits = true) :
    r.fits = true := by
  rw [RememberedVersions.fits_iff] at hfloored ⊢
  intro kind v hv
  cases kind with
  | trustRoot =>
    rcases h.trustRoot with heq | ⟨_, doc, _, heq⟩ <;> rw [RememberedVersions.of, heq] at hv
    · exact hfloored .trustRoot v hv
    · rw [← some.inj hv]
      exact doc.one_le
  | channels =>
    rcases h.channels with heq | ⟨_, _, heads, _, _, heq⟩ <;>
      rw [RememberedVersions.of, heq] at hv
    · exact hfloored .channels v hv
    · rw [← some.inj hv]
      exact heads.one_le
  | policy channel =>
    rcases h.policy channel with heq | ⟨_, _, _, policy, _, _, heq⟩ <;>
      rw [RememberedVersions.of, heq] at hv
    · exact hfloored (.policy channel) v hv
    · rw [← some.inj hv]
      exact policy.one_le

theorem raised_of_result {result : ChainResult P}
    (hresult : verifyUpdateChain P input = .ok result) :
    RaisedByVouched P (fun _ _ => True) input result.remembered := by
  have hends : Leaves (fun r _ => RaisedByVouched P (fun _ _ => True) input r)
      (chainSteps P input) := by
    have hvouched : Ends (ChainStands P (fun _ _ => True) input)
        (RefusalRaised P (fun _ _ => True) input) (chainSteps P input) :=
      ends_chainSteps_vouched fun _ _ _ _ => trivial
    refine hvouched.mono (fun _ _ h => h.2) fun stop h => ?_
    cases stop with
    | threw error => exact trivial
    | refused chain => exact h
  exact hends.of_result hresult

/-! ## Documents that reload -/

/-- A trust-root that verifies by the set in force when it is persisted: its bytes are text, it is
newer than that set and signed by as many of its keys as its own threshold asks, and it fits the
state file. -/
structure Reloadable (P : ChainPlatform) (anchor : RootAnchor) (doc : TrustRoot)
    (bytes sig : ByteArray) : Prop where
  utf8 : (P.bufferToString bytes).toUTF8 = bytes
  newer : ∀ v ∈ anchor.version, v < doc.version
  signed : doc.root.threshold ≤
    (signersOf P.toPlatform bytes (P.bufferToString sig) anchor.keys).length
  fits : AdoptedRoot.fits ⟨doc.version, P.bufferToString bytes, P.bufferToString sig⟩ = true

theorem Reloadable.valid {anchor : RootAnchor} {base : String} {doc : TrustRoot}
    {accepted : AcceptedRoot} {bytes sig : ByteArray} (h : Reloadable P anchor doc bytes sig)
    (htaken : RootTaken P input base doc accepted bytes sig) :
    validAfter P.toPlatform anchor ⟨accepted.version, accepted.doc, accepted.sig⟩ =
      some ⟨accepted.rootKeys, some accepted.version⟩ := by
  obtain ⟨signers, hverified, -⟩ := htaken.verified
  obtain ⟨-, -, -, raw, hraw, hread⟩ := verifyTrustRoot_ok hverified
  have hone : 1 ≤ doc.root.threshold := doc.root.one_le
  rw [htaken.accepted_eq]
  unfold validAfter verifyTrustRoot
  dsimp only
  rw [h.utf8, show P.jsonParse (P.bufferToString bytes) = some raw from hraw]
  dsimp only
  rw [hread]
  dsimp only
  rw [if_neg (by rw [not_or]; exact ⟨Nat.lt_irrefl 1, Nat.not_lt.mpr (Nat.le_trans hone h.signed)⟩)]
  have hnewer : (anchor.version.all fun v => doc.version > v) = true := by
    cases hversion : anchor.version with
    | none => rfl
    | some v =>
      rw [all_some, decide_eq_true_eq]
      exact h.newer v hversion
  dsimp only
  rw [if_pos ⟨rfl, hnewer, h.signed⟩]

variable {Other : Type} {o : UpdateOptions Other}

/-- Every trust-root that this verification could have adopted reloads. -/
def RotationReloads (P : ChainPlatform) (s : Controller Other) (input : ChainInput) : Prop :=
  ∀ newestTag doc accepted bytes sig, newestRelease P input = .ok newestTag →
    RootTaken P input (input.newestBase newestTag) doc accepted bytes sig →
      rotates s.anchor doc.root.keys = true → s.client.trustRoots.length < maxAdoptedRoots →
        Reloadable P s.anchor doc bytes sig

def AdoptsReloadable (P : ChainPlatform) (o : UpdateOptions Other) (s : Controller Other) :
    UpdateEvent Other → Prop
  | .endVerify i fetch =>
    ∀ f ∈ s.flights[i]?, ∀ result, verifyUpdateChain P (f.input o fetch) = .ok result →
      RotationReloads P s (f.input o fetch)
  | .choose other => o.otherFits other = true
  | _ => True

/-! ## The invariant -/

/-- What is persisted is what is in memory, and reads back to the set in force. -/
structure Kept (P : ChainPlatform) (o : UpdateOptions Other) (s : Controller Other) : Prop where
  loads : load o s.file = (s.client, s.file)
  fits : s.client.fits o = true
  chain : ReadsBack P.toPlatform o.rootKeys s.client.trustRoots s.anchor
  flights : ∀ f ∈ s.flights, f.remembered.fits = true

theorem UpdateClientState.fits_iff {state : UpdateClientState Other} :
    state.fits o = true ↔ state.remembered.fits = true ∧ o.otherFits state.other = true ∧
      (∀ r ∈ state.trustRoots, r.fits = true) ∧ state.trustRoots.length ≤ maxAdoptedRoots := by
  unfold UpdateClientState.fits
  rw [Bool.and_eq_true, Bool.and_eq_true, Bool.and_eq_true, List.all_eq_true, decide_eq_true_eq,
    and_assoc]

theorem load_of_fits {state : UpdateClientState Other} (h : state.fits o = true) :
    load o (some state) = (state, some state) := by
  rw [load, if_pos h]

theorem fresh_fits : (freshClientState o).fits o = true :=
  UpdateClientState.fits_iff.mpr
    ⟨rfl, o.fresh_fits, fun _ h => absurd h not_mem_nil, Nat.zero_le _⟩

theorem load_settles (file : Option (UpdateClientState Other)) :
    (load o file).1.fits o = true ∧ load o (load o file).2 = load o file := by
  cases file with
  | none => exact ⟨fresh_fits, rfl⟩
  | some state =>
    by_cases hfits : state.fits o = true
    · rw [load_of_fits hfits]
      exact ⟨hfits, load_of_fits hfits⟩
    · rw [load, if_neg hfits]
      exact ⟨fresh_fits, rfl⟩

namespace Kept

theorem of_construct (file : Option (UpdateClientState Other))
    (accepted : DocumentKind → Nat → Prop) (replaced : List (RootAnchor × Nat)) :
    Kept P o (construct P o file accepted replaced) := by
  obtain ⟨hfits, hload⟩ := load_settles (o := o) file
  obtain ⟨hremembered, hother, hroots, hcount⟩ := UpdateClientState.fits_iff.mp hfits
  unfold construct
  dsimp only
  split
  · have hkept : ∀ r ∈ (anchorFrom P.toPlatform o.rootKeys (load o file).1.trustRoots).kept,
        r ∈ (load o file).1.trustRoots := fun r hr =>
      (mem_insertionSort _).mp (walk_isPrefix.subset hr)
    have hlength : (anchorFrom P.toPlatform o.rootKeys
        (load o file).1.trustRoots).kept.length ≤ (load o file).1.trustRoots.length := by
      have hle := (@walk_isPrefix P.toPlatform (ordered (load o file).1.trustRoots)
        ⟨o.rootKeys, none⟩).length_le
      rwa [ordered, length_insertionSort] at hle
    have hnew : UpdateClientState.fits o
        { (load o file).1 with
          trustRoots := (anchorFrom P.toPlatform o.rootKeys (load o file).1.trustRoots).kept } =
        true :=
      UpdateClientState.fits_iff.mpr ⟨hremembered, hother, fun r hr => hroots r (hkept r hr),
        Nat.le_trans hlength hcount⟩
    exact ⟨load_of_fits hnew, hnew, ReadsBack.kept _ _, fun _ h => absurd h not_mem_nil⟩
  · next hnone =>
    refine ⟨?_, hfits, ReadsBack.of_dropped (Nat.eq_zero_of_not_pos hnone),
      fun _ h => absurd h not_mem_nil⟩
    rw [hload]

variable {s : Controller Other}

theorem persist {client : UpdateClientState Other} (h : Kept P o s) (hfits : client.fits o = true)
    (hroots : client.trustRoots = s.client.trustRoots) : Kept P o (s.persist client) :=
  ⟨load_of_fits hfits, hfits, by rw [Controller.persist, hroots]; exact h.chain, h.flights⟩

theorem beginVerify (h : Kept P o s) (now : Int) : Kept P o (s.beginVerify o now) := by
  refine ⟨h.loads, h.fits, h.chain, fun f hf => ?_⟩
  rcases mem_snoc.mp hf with hf | rfl
  · exact h.flights f hf
  · exact (UpdateClientState.fits_iff.mp h.fits).1

theorem adopt {accepted : Option AcceptedRoot} (h : Kept P o s)
    (hrotation : RotationReloads P s input)
    (hfrom : ∀ a ∈ accepted, RootFrom P input a) :
    ReadsBack P.toPlatform o.rootKeys (s.adopt accepted).2 (s.adopt accepted).1.anchor ∧
      (∀ r ∈ (s.adopt accepted).2, r.fits = true) ∧
      (s.adopt accepted).2.length ≤ maxAdoptedRoots := by
  obtain ⟨-, -, hroots, hcount⟩ := UpdateClientState.fits_iff.mp h.fits
  cases accepted with
  | none => exact ⟨h.chain, hroots, hcount⟩
  | some accepted =>
    cases hrotates : rotates s.anchor accepted.rootKeys with
    | false =>
      rw [s.adopt_same hrotates]
      exact ⟨h.chain, hroots, hcount⟩
    | true =>
      by_cases hroom : s.client.trustRoots.length < maxAdoptedRoots
      · obtain ⟨newestTag, doc, bytes, sig, hnewest, htaken⟩ := hfrom accepted rfl
        have hkeys : accepted.rootKeys = doc.root.keys := by rw [htaken.accepted_eq]
        have hreload := hrotation newestTag doc accepted bytes sig hnewest htaken
          (hkeys ▸ hrotates) hroom
        rw [s.adopt_rotated hrotates hroom]
        refine ⟨h.chain.append (hreload.valid htaken), fun r hr => ?_, ?_⟩
        · rcases mem_snoc.mp hr with hr | hr
          · exact hroots r hr
          · rw [hr, htaken.accepted_eq]
            exact hreload.fits
        · rw [length_append]
          exact hroom
      · rw [s.adopt_full (Nat.le_of_not_lt hroom)]
        exact ⟨h.chain, hroots, hcount⟩

theorem endVerify {result : ChainResult P} (h : Kept P o s) (hrotation : RotationReloads P s input)
    (hfloored : input.floored.fits = true) (hresult : verifyUpdateChain P input = .ok result) :
    Kept P o (s.endVerify P input result) := by
  obtain ⟨-, hother, -, -⟩ := UpdateClientState.fits_iff.mp h.fits
  obtain ⟨hchain, hroots, hcount⟩ := h.adopt hrotation fun a ha => rootFrom_of_result hresult ha
  have hfits : UpdateClientState.fits o { s.client with
      remembered := result.remembered, trustRoots := (s.adopt result.acceptedRoot).2 } = true :=
    UpdateClientState.fits_iff.mpr
      ⟨(raised_of_result hresult).fits hfloored, hother, hroots, hcount⟩
  refine ⟨load_of_fits hfits, hfits, hchain, fun f hf => h.flights f ?_⟩
  rw [← s.adopt_flights result.acceptedRoot]
  exact hf

theorem land (h : Kept P o s) (i : Nat) :
    Kept P o { s with flights := s.flights.eraseIdx i } :=
  ⟨h.loads, h.fits, h.chain, fun f hf => h.flights f ((eraseIdx_sublist _ _).subset hf)⟩

theorem next {s' : Controller Other} {e : UpdateEvent Other} (h : Kept P o s)
    (hok : AdoptsReloadable P o s e) (hs : Controller.next P o s e = some s') : Kept P o s' := by
  obtain ⟨hremembered, hother, hroots, hcount⟩ := UpdateClientState.fits_iff.mp h.fits
  cases e with
  | beginVerify now =>
    obtain rfl := some.inj hs
    exact h.beginVerify now
  | endVerify i fetch =>
    unfold Controller.next at hs
    dsimp only at hs
    split at hs
    · cases hs
    · next f hf =>
      have hfloored : (f.input o fetch).floored.fits = true :=
        withFloors_fits (h.flights f (mem_of_getElem? hf)) o.floors_fit
      split at hs
      · obtain rfl := some.inj hs
        exact h.land i
      · next result hresult =>
        obtain rfl := some.inj hs
        exact (h.land i).endVerify (hok f hf result hresult) hfloored hresult
  | setChannel channel =>
    unfold Controller.next at hs
    dsimp only at hs
    split at hs <;> obtain rfl := some.inj hs
    · exact h
    · exact h.persist (UpdateClientState.fits_iff.mpr ⟨hremembered, hother, hroots, hcount⟩) rfl
  | choose other =>
    obtain rfl := some.inj hs
    exact h.persist (UpdateClientState.fits_iff.mpr ⟨hremembered, hok, hroots, hcount⟩) rfl
  | restart =>
    obtain rfl := some.inj hs
    exact of_construct _ _ _

end Kept

/-! ## The chain reads back -/

/-- What a restart finds: the same choices, and the same set in force. -/
structure RestartsTheSame (P : ChainPlatform) (o : UpdateOptions Other) (s : Controller Other) :
    Prop where
  client : (construct P o s.file s.accepted s.replaced).client = s.client
  anchor : (construct P o s.file s.accepted s.replaced).anchor = s.anchor
  read : anchorFrom P.toPlatform o.rootKeys s.client.trustRoots =
    ⟨s.anchor, ordered s.client.trustRoots, 0⟩

theorem Kept.construct_eq {s : Controller Other} (h : Kept P o s) :
    construct P o s.file s.accepted s.replaced = { s with flights := [] } := by
  unfold construct
  rw [h.loads]
  dsimp only
  rw [h.chain.anchorFrom_eq]
  exact if_neg (Nat.lt_irrefl 0)

theorem Kept.restartsTheSame {s : Controller Other} (h : Kept P o s) : RestartsTheSame P o s :=
  ⟨by rw [h.construct_eq], by rw [h.construct_eq], h.chain.anchorFrom_eq⟩

/-- While every trust-root that is adopted reloads, a restart trusts what the process trusts and
drops nothing; and whatever is stored, what it puts in force is signed for from the embedded keys
on. -/
theorem adopted_roots_read_back (P : ChainPlatform) (o : UpdateOptions Other)
    (file : Option (UpdateClientState Other)) :
    (∀ s, (updateMachine P o file).Reaches (AdoptsReloadable P o) s → RestartsTheSame P o s) ∧
      ∀ stored, SignedFrom P.toPlatform o.rootKeys stored
        (anchorFrom P.toPlatform o.rootKeys stored).anchor.keys := by
  refine ⟨fun s hs => ?_, anchorFrom_signedFrom o.rootKeys⟩
  have hkept : Kept P o s :=
    hs.invariant (.of_construct file _ _) fun _ _ _ hkept hok hnext => hkept.next hok hnext
  exact hkept.restartsTheSame

/-! ## Trust-roots on a server -/

namespace Sample

def rootTextOf (space version : String) (root : List String) : String :=
  space ++ ("\x7b" ++ ("\"schemaVersion\":1,\"version\":" ++ version ++
    ",\"expires\":\"2027-01-01T00:00:00Z\",\"root\":" ++ keySet root ++
    ",\"roles\":\x7b\"release\":" ++ keySet [key 'r'] ++ ",\"bundled\":" ++
    keySet [key 's'] ++ ",\"registry\":" ++ keySet [key 't'] ++ "\x7d\x7d"))

theorem rootTextOf_ne (v w : String) (r r' : List String) :
    rootTextOf "\n" v r ≠ rootTextOf "" w r' := by
  intro h
  have hlist := congrArg String.toList h
  unfold rootTextOf at hlist
  simp only [String.toList_append] at hlist
  rw [show "\n".toList = ['\n'] by decide, show "".toList = [] by decide,
    show "\x7b".toList = ['\x7b'] by decide] at hlist
  exact absurd (List.cons.inj hlist).1 (by decide)

theorem key_injective : Function.Injective key := by
  intro a b h
  have hlist := congrArg String.toList h
  unfold key at hlist
  simp only [String.toList_append, String.toList_ofList] at hlist
  have hmiddle := append_cancel_left (append_cancel_right hlist)
  exact (replicate_inj.mp hmiddle).2.resolve_left (by decide)

theorem key_mem {letter : Char} {letters : List Char} :
    key letter ∈ letters.map key ↔ letter ∈ letters :=
  List.mem_map_of_injective key_injective

def rootFieldsOf (version : Nat) (one other : String) (h : 1 ≤ version) : TrustRootFields :=
  { version
    expires := "2027-01-01T00:00:00Z"
    root := ⟨1, [one, other], Nat.zero_lt_one⟩
    release := ⟨1, [key 'r'], Nat.zero_lt_one⟩
    bundled := ⟨1, [key 's'], Nat.zero_lt_one⟩
    registry := ⟨1, [key 't'], Nat.zero_lt_one⟩
    one_le := h }

theorem rootFieldsOf_sound {version : Nat} {one other : Char} {h : 1 ≤ version}
    (hletters : [one, other, 'r', 's', 't'].Nodup) :
    (rootFieldsOf version (key one) (key other) h).issues = [] := by
  have hkeys : ([one, other, 'r', 's', 't'].map key).Nodup := hletters.map key_injective
  have hroot : [key one, key other].Nodup :=
    hkeys.sublist (sublist_append_left [key one, key other] [key 'r', key 's', key 't'])
  have howned : sharedIssues [] (rootFieldsOf version (key one) (key other) h).owned = [] :=
    sharedIssues_eq_nil hkeys fun _ _ => not_mem_nil
  unfold TrustRootFields.issues
  rw [KeySetFields.issues_eq_nil hroot (Nat.le_succ 1),
    KeySetFields.issues_eq_nil (nodup_singleton (key 'r')) (Nat.le_refl 1),
    KeySetFields.issues_eq_nil (nodup_singleton (key 's')) (Nat.le_refl 1),
    KeySetFields.issues_eq_nil (nodup_singleton (key 't')) (Nat.le_refl 1), howned]
  rfl

def twoRoots (signers : List String) (firstText : String) (first second : TrustRootFields) :
    ChainPlatform where
  verifyEd25519 _ line signer := line == "c2ln" && signers.contains signer
  bufferToString bytes := (String.fromUTF8? bytes).getD "\uFFFD"
  Raw := String
  jsonParse := some
  trustRootShape raw := if raw = firstText then .ok first else .ok second
  dateParse _ := some 1798761600000
  channelHeads _ := .error "Required"
  updatePolicy _ := .error "Required"
  releaseManifest _ := .error "Required"
  Notes := Unit
  releaseNotes _ := .error none

def options : UpdateOptions Unit where
  origin := "https://github.com/vibefield/vibefield/releases"
  rootKeys := [key 'a', key 'b']
  floors := none
  feedFile := "latest-mac.yml"
  buildChannel := .stable
  freshOther := ()
  otherFits _ := true
  floors_fit _ h := by cases h
  fresh_fits := rfl

def serving (root : String) (call : Nat) (_ : String) : Except String (Option ByteArray) :=
  match call with
  | 1 => .ok (some root.toUTF8)
  | 2 => .ok (some "c2ln\n".toUTF8)
  | _ => .ok none

theorem fromUTF8_toUTF8 (text : String) : String.fromUTF8? text.toUTF8 = some text :=
  dif_pos text.isValidUTF8

section TwoRoots

variable {signers : List String} {firstText : String} {first second : TrustRootFields}

theorem bufferToString_toUTF8 (text : String) :
    (twoRoots signers firstText first second).bufferToString text.toUTF8 = text := by
  show (String.fromUTF8? text.toUTF8).getD "\uFFFD" = text
  rw [fromUTF8_toUTF8]
  rfl

theorem sample_lines : signatureLines "c2ln\n" = ["c2ln"] := by decide

theorem signersOf_twoRoots {bytes : ByteArray} (known letters : List Char)
    (h : letters.Nodup) :
    signersOf (twoRoots (known.map key) firstText first second).toPlatform bytes "c2ln\n"
      (letters.map key) = (letters.filter (· ∈ known)).map key := by
  rw [signersOf_of_nodup (h.map key_injective), sample_lines, List.filter_map]
  refine congrArg (List.map key) (filter_congr fun letter _ => ?_)
  show (["c2ln"].any fun line => line == "c2ln" && (known.map key).contains (key letter)) = _
  rw [any_cons, any_nil, Bool.or_false, beq_self_eq_true, Bool.true_and,
    contains_eq_mem]
  exact decide_eq_decide.mpr key_mem

theorem rotates_keys {version : Option Nat} (before after : List Char) (letter : Char)
    (h : letter ∈ after) (hnew : letter ∉ before) :
    rotates ⟨before.map key, version⟩ (after.map key) = true :=
  rotates_of_new (key_mem.mpr h) fun hmem => hnew (key_mem.mp hmem)

theorem verifyTrustRoot_serving {text sigText : String} {fields : TrustRootFields}
    {anchor : TrustAnchor} {found : List String} (hsound : fields.issues = [])
    (hfields : (if text = firstText then first else second) = fields)
    (hfound : signersOf (twoRoots signers firstText first second).toPlatform text.toUTF8 sigText
      anchor.keys = found)
    (henough : ¬(anchor.threshold < 1 ∨ found.length < anchor.threshold)) :
    verifyTrustRoot (twoRoots signers firstText first second).toPlatform text.toUTF8 sigText
      anchor = .ok ({ fields with sound := hsound }, found) := by
  have hread : readTrustRoot (twoRoots signers firstText first second).toPlatform text =
      .ok { fields with sound := hsound } := by
    have hshape : (twoRoots signers firstText first second).trustRootShape text =
        .ok fields := by
      rw [← hfields]
      show (if text = firstText then Except.ok first else Except.ok second) = _
      split <;> rfl
    unfold readTrustRoot
    rw [hshape]
    exact dif_pos hsound
  have hparse : (twoRoots signers firstText first second).jsonParse text = some text := rfl
  unfold verifyTrustRoot
  rw [bufferToString_toUTF8, hparse]
  dsimp only
  rw [hread]
  dsimp only
  rw [hfound, if_neg henough]

end TwoRoots

def servedRoot (P : ChainPlatform) (text : String) (doc : TrustRoot) : AcceptedRoot :=
  ⟨doc.version, P.bufferToString text.toUTF8, P.bufferToString "c2ln\n".toUTF8, doc.root.keys⟩

def servedResult (P : ChainPlatform) (input : ChainInput) (text : String) (doc : TrustRoot) :
    ChainResult P :=
  .refused ⟨.feedUnverified, "the newest release carries no signed channel heads",
    rootRemembered input doc, some (servedRoot P text doc)⟩

section Serving

variable {P : ChainPlatform} {Other : Type} {o : UpdateOptions Other} {f : Flight} {text : String}
  {doc : TrustRoot} {found : List String}

theorem verify_serving
    (hverify : verifyTrustRoot P.toPlatform text.toUTF8 (P.bufferToString "c2ln\n".toUTF8)
      ⟨f.rootKeys, 1⟩ = .ok (doc, found))
    (hall : doc.root.threshold ≤ found.length)
    (hjudged : Judged P (f.input o (serving text)) doc.version doc.expires
      (f.input o (serving text)).floored.trustRoot) :
    verifyUpdateChain P (f.input o (serving text)) =
      .ok (servedResult P (f.input o (serving text)) text doc) := by
  have hsigned : (f.input o (serving text)).signed P 1
      ((f.input o (serving text)).newestBase none) trustRootFile =
        .ok ⟨some text.toUTF8, some (P.bufferToString "c2ln\n".toUTF8)⟩ := rfl
  have hkeys : (f.input o (serving text)).rootKeys = f.rootKeys := rfl
  have hroot : acceptTrustRoot P (f.input o (serving text)) none =
      .ok (doc, servedRoot P text doc) := by
    unfold Judged at hjudged
    unfold acceptTrustRoot
    simp only [hsigned, ok_bind, present, orStop, hkeys, hverify, require, if_pos hall, hjudged,
      judged, servedRoot]
  have hnewest : newestRelease P (f.input o (serving text)) = .ok none := rfl
  unfold verifyUpdateChain chainSteps
  rw [hnewest, ok_bind, hroot, ok_bind]
  rfl

theorem next_serving {s : Controller Other} {i : Nat} (hflight : s.flights[i]? = some f)
    (hverify : verifyTrustRoot P.toPlatform text.toUTF8 (P.bufferToString "c2ln\n".toUTF8)
      ⟨f.rootKeys, 1⟩ = .ok (doc, found))
    (hall : doc.root.threshold ≤ found.length)
    (hjudged : Judged P (f.input o (serving text)) doc.version doc.expires
      (f.input o (serving text)).floored.trustRoot) :
    Controller.next P o s (.endVerify i (serving text)) = some
      (({ s with flights := s.flights.eraseIdx i } : Controller Other).endVerify P
        (f.input o (serving text)) (servedResult P (f.input o (serving text)) text doc)) := by
  unfold Controller.next
  dsimp only
  rw [hflight]
  dsimp only
  rw [verify_serving hverify hall hjudged]

theorem next_rotation {s : Controller Other} {i : Nat} (hflight : s.flights[i]? = some f)
    (hverify : verifyTrustRoot P.toPlatform text.toUTF8 (P.bufferToString "c2ln\n".toUTF8)
      ⟨f.rootKeys, 1⟩ = .ok (doc, found))
    (hall : doc.root.threshold ≤ found.length)
    (hjudged : Judged P (f.input o (serving text)) doc.version doc.expires
      (f.input o (serving text)).floored.trustRoot)
    (hrotates : rotates s.anchor doc.root.keys = true)
    (hroom : s.client.trustRoots.length < maxAdoptedRoots) :
    ∃ s', Controller.next P o s (.endVerify i (serving text)) = some s' ∧
      s'.flights = s.flights.eraseIdx i ∧ s'.anchor = ⟨doc.root.keys, some doc.version⟩ ∧
      s'.client.remembered.trustRoot = some doc.version ∧
      s'.client.trustRoots = s.client.trustRoots ++
        [⟨doc.version, P.bufferToString text.toUTF8, P.bufferToString "c2ln\n".toUTF8⟩] ∧
      s'.file = some s'.client := by
  obtain ⟨hflights, hanchor, hremembered, hroots, hfile⟩ := Controller.endVerify_rotated P
    { s with flights := s.flights.eraseIdx i } (f.input o (serving text))
    (servedResult P _ text doc) (servedRoot P text doc) rfl hrotates hroom
  exact ⟨_, next_serving hflight hverify hall hjudged, hflights, hanchor,
    congrArg RememberedVersions.trustRoot hremembered, hroots, hfile⟩

end Serving

theorem serve_rotation {P : ChainPlatform} {file : Option (UpdateClientState Unit)}
    {ok : Controller Unit → UpdateEvent Unit → Prop} {s : Controller Unit} {text : String}
    {doc : TrustRoot} {found : List String}
    (hs : (updateMachine P options file).Reaches ok s) (hbegin : ok s (.beginVerify 0))
    (hend : ok (s.beginVerify options 0) (.endVerify 0 (serving text))) (hflights : s.flights = [])
    (hverify : verifyTrustRoot P.toPlatform text.toUTF8 (P.bufferToString "c2ln\n".toUTF8)
      ⟨s.anchor.keys, 1⟩ = .ok (doc, found))
    (hall : doc.root.threshold ≤ found.length)
    (hjudged : judgeSignedDocument P.dateParse doc.version doc.expires
      s.client.remembered.trustRoot 0 = .accepted)
    (hrotates : rotates s.anchor doc.root.keys = true)
    (hroom : s.client.trustRoots.length < maxAdoptedRoots) :
    ∃ s', (updateMachine P options file).Reaches ok s' ∧ s'.flights = [] ∧
      s'.anchor = ⟨doc.root.keys, some doc.version⟩ ∧
      s'.client.remembered.trustRoot = some doc.version ∧
      s'.client.trustRoots = s.client.trustRoots ++
        [⟨doc.version, P.bufferToString text.toUTF8, P.bufferToString "c2ln\n".toUTF8⟩] := by
  have hbegun : (updateMachine P options file).Reaches ok (s.beginVerify options 0) :=
    hs.next hbegin rfl
  have hone : (s.beginVerify options 0).flights =
      [⟨s.channel options, s.anchor.keys, s.client.remembered, 0, s.accepted⟩] := by
    unfold Controller.beginVerify
    rw [hflights]
    rfl
  have hflight : (s.beginVerify options 0).flights[0]? =
      some ⟨s.channel options, s.anchor.keys, s.client.remembered, 0, s.accepted⟩ := by
    rw [hone]
    rfl
  obtain ⟨s', hnext, hflights', hanchor, hremembered, hroots, -⟩ :=
    @next_rotation P Unit options _ text doc found (s.beginVerify options 0) 0 hflight hverify hall
      hjudged hrotates hroom
  rw [hone] at hflights'
  exact ⟨s', hbegun.next hend hnext, hflights', hanchor, hremembered, hroots⟩

def firstFields : TrustRootFields := rootFieldsOf 2 (key 'c') (key 'd') (Nat.le_succ 1)

def secondFields : TrustRootFields := rootFieldsOf 2 (key 'e') (key 'f') (Nat.le_succ 1)

theorem first_sound : firstFields.issues = [] := rootFieldsOf_sound (by decide)

theorem second_sound : secondFields.issues = [] := rootFieldsOf_sound (by decide)

def firstDoc : TrustRoot := { firstFields with sound := first_sound }

def secondDoc : TrustRoot := { secondFields with sound := second_sound }

def rotations (firstText : String) : ChainPlatform :=
  twoRoots [key 'a', key 'c', key 'e'] firstText firstFields secondFields

section Rotations

variable {firstText secondText : String}

theorem rotations_text (text : String) :
    (rotations firstText).bufferToString text.toUTF8 = text :=
  bufferToString_toUTF8 text

theorem verify_first : verifyTrustRoot (rotations firstText).toPlatform firstText.toUTF8 "c2ln\n"
    ⟨[key 'a', key 'b'], 1⟩ = .ok (firstDoc, [key 'a']) :=
  verifyTrustRoot_serving first_sound (if_pos rfl)
    (signersOf_twoRoots ['a', 'c', 'e'] ['a', 'b'] (by decide)) (by decide)

theorem verify_second (hne : secondText ≠ firstText) :
    verifyTrustRoot (rotations firstText).toPlatform secondText.toUTF8 "c2ln\n"
      ⟨[key 'c', key 'd'], 1⟩ = .ok (secondDoc, [key 'c']) :=
  verifyTrustRoot_serving second_sound (if_neg hne)
    (signersOf_twoRoots ['a', 'c', 'e'] ['c', 'd'] (by decide)) (by decide)

def fresh : Controller Unit :=
  ⟨none, freshClientState options, ⟨[key 'a', key 'b'], none⟩, [], fun _ _ => False, []⟩

theorem first_served {ok : Controller Unit → UpdateEvent Unit → Prop}
    (hbegin : ok fresh (.beginVerify 0))
    (hend : ok (fresh.beginVerify options 0) (.endVerify 0 (serving firstText))) :
    ∃ s, (updateMachine (rotations firstText) options none).Reaches ok s ∧
      s.flights = [] ∧ s.anchor = ⟨[key 'c', key 'd'], some 2⟩ ∧
      s.client.remembered.trustRoot = some 2 ∧
      s.client.trustRoots = [⟨2, firstText, "c2ln\n"⟩] := by
  have hstart : (updateMachine (rotations firstText) options none).Reaches ok fresh := .start
  obtain ⟨s, hs, hflights, hanchor, hremembered, hroots⟩ :=
    serve_rotation hstart hbegin hend rfl (by rw [rotations_text]; exact verify_first)
      (Nat.le_refl 1) rfl
      (by exact rotates_keys ['a', 'b'] ['c', 'd'] 'c' (by decide) (by decide))
      (Nat.zero_lt_succ 15)
  rw [rotations_text, rotations_text] at hroots
  exact ⟨s, hs, hflights, hanchor, hremembered, hroots⟩

theorem first_reloads (hfits : AdoptedRoot.fits ⟨2, firstText, "c2ln\n"⟩ = true) :
    AdoptsReloadable (rotations firstText) options (fresh.beginVerify options 0)
      (.endVerify 0 (serving firstText)) := by
  rintro f hf result - newestTag doc accepted bytes sig - htaken - -
  obtain rfl := some.inj hf
  obtain rfl : firstText.toUTF8 = bytes :=
    some.inj (Except.ok.inj htaken.served.file)
  obtain rfl : "c2ln\n".toUTF8 = sig := some.inj (Except.ok.inj htaken.served.signature)
  obtain ⟨signers, hverified, -⟩ := htaken.verified
  rw [rotations_text] at hverified
  obtain ⟨rfl, rfl⟩ := Prod.mk.inj (Except.ok.inj (verify_first.symm.trans hverified))
  have hsigners : signersOf (rotations firstText).toPlatform firstText.toUTF8 "c2ln\n"
      [key 'a', key 'b'] = [key 'a'] :=
    signersOf_twoRoots ['a', 'c', 'e'] ['a', 'b'] (by decide)
  refine ⟨by rw [rotations_text], fun v hv => (by cases hv), ?_, ?_⟩
  · rw [rotations_text]
    show 1 ≤ (signersOf (rotations firstText).toPlatform firstText.toUTF8 "c2ln\n"
      [key 'a', key 'b']).length
    rw [hsigners]
    exact Nat.le_refl 1
  · rw [rotations_text, rotations_text]
    exact hfits

theorem second_served (hne : secondText ≠ firstText) :
    ∃ s, (updateMachine (rotations firstText) options none).Reachable s ∧
      s.anchor = ⟨[key 'e', key 'f'], some 2⟩ ∧
      s.client.trustRoots = [⟨2, firstText, "c2ln\n"⟩, ⟨2, secondText, "c2ln\n"⟩] := by
  obtain ⟨s, hs, hflights, hanchor, hremembered, hroots⟩ :=
    @first_served firstText (fun _ _ => True) trivial trivial
  have hkeys : s.anchor.keys = [key 'c', key 'd'] := by rw [hanchor]
  obtain ⟨s', hs', -, hanchor', -, hroots'⟩ :=
    serve_rotation hs trivial trivial hflights
      (by rw [rotations_text, hkeys]; exact verify_second hne)
      (Nat.le_refl 1) (by rw [hremembered]; rfl)
      (by rw [hanchor]; exact rotates_keys ['c', 'd'] ['e', 'f'] 'e' (by decide) (by decide))
      (by rw [hroots]; exact Nat.lt_of_sub_eq_succ rfl)
  rw [rotations_text, rotations_text, hroots] at hroots'
  exact ⟨s', hs', hanchor', hroots'⟩

theorem first_valid : validAfter (rotations firstText).toPlatform ⟨[key 'a', key 'b'], none⟩
    ⟨2, firstText, "c2ln\n"⟩ = some ⟨[key 'c', key 'd'], some 2⟩ := by
  unfold validAfter
  dsimp only
  rw [verify_first]
  rfl

theorem second_not_valid (hne : secondText ≠ firstText) :
    validAfter (rotations firstText).toPlatform ⟨[key 'c', key 'd'], some 2⟩
      ⟨2, secondText, "c2ln\n"⟩ = none := by
  unfold validAfter
  dsimp only
  rw [verify_second hne]
  exact if_neg fun h => Bool.false_ne_true h.2.1

theorem keys_ne : [key 'c', key 'd'] ≠ [key 'e', key 'f'] := fun h =>
  absurd (key_injective (List.cons.inj h).1) (by decide)

theorem second_dropped (hne : secondText ≠ firstText) :
    ∃ s, (updateMachine (rotations firstText) options none).Reachable s ∧
      (anchorFrom (rotations firstText).toPlatform options.rootKeys
        s.client.trustRoots).anchor.keys ≠ s.anchor.keys := by
  obtain ⟨s, hs, hanchor, hroots⟩ := second_served hne
  have hordered : ordered [⟨2, firstText, "c2ln\n"⟩, ⟨2, secondText, "c2ln\n"⟩] =
      [⟨2, firstText, "c2ln\n"⟩, ⟨2, secondText, "c2ln\n"⟩] :=
    List.Pairwise.insertionSort_eq (pairwise_pair.mpr (Nat.le_refl 2))
  have hreached : (anchorFrom (rotations firstText).toPlatform options.rootKeys
      s.client.trustRoots).anchor = ⟨[key 'c', key 'd'], some 2⟩ := by
    unfold anchorFrom options
    dsimp only
    rw [hroots, hordered, walk_cons_of_valid first_valid,
      walk_cons_of_invalid (second_not_valid hne)]
  refine ⟨s, hs, ?_⟩
  rw [hreached, hanchor]
  exact keys_ne

end Rotations

def firstRotation : String := rootTextOf "" "2" [key 'c', key 'd']

def secondRotation : String := rootTextOf "\n" "2" [key 'e', key 'f']

theorem jsLength_append (s t : String) : jsLength (s ++ t) = jsLength s + jsLength t := by
  unfold jsLength
  rw [String.toList_append, Utf16.encode_append, length_append]

theorem jsLength_key (letter : Char) (h : (Utf16.units letter).length = 1) :
    jsLength (key letter) = 60 := by
  have hmiddle : jsLength (String.ofList (List.replicate 42 letter)) = 42 := by
    unfold jsLength
    rw [String.toList_ofList, Utf16.encode, length_flatMap, map_replicate, h]
    decide
  unfold key
  rw [jsLength_append, jsLength_append, hmiddle]
  decide

theorem jsLength_first : 1 ≤ jsLength firstRotation ∧ jsLength firstRotation ≤ 65536 := by
  unfold firstRotation rootTextOf keySet
  simp only [jsLength_append, String.intercalate_cons_cons, String.intercalate_singleton]
  rw [jsLength_key 'c' (by decide), jsLength_key 'd' (by decide), jsLength_key 'r' (by decide),
    jsLength_key 's' (by decide), jsLength_key 't' (by decide)]
  decide

theorem first_fits : AdoptedRoot.fits ⟨2, firstRotation, "c2ln\n"⟩ = true := by
  have hsig : 1 ≤ jsLength "c2ln\n" ∧ jsLength "c2ln\n" ≤ 8192 := by decide
  unfold AdoptedRoot.fits
  simp only [Bool.and_eq_true, decide_eq_true_eq]
  exact ⟨⟨by decide, jsLength_first⟩, hsig⟩

end Sample

/-- A rotation is adopted, and a restart trusts it. -/
theorem adopted_roots_read_back_rotated :
    ∃ s, (updateMachine (Sample.rotations Sample.firstRotation) Sample.options none).Reaches
        (AdoptsReloadable (Sample.rotations Sample.firstRotation) Sample.options) s ∧
      s.anchor = ⟨[Sample.key 'c', Sample.key 'd'], some 2⟩ ∧
      RestartsTheSame (Sample.rotations Sample.firstRotation) Sample.options s := by
  obtain ⟨s, hs, -, hanchor, -⟩ := @Sample.first_served Sample.firstRotation
    (AdoptsReloadable (Sample.rotations Sample.firstRotation) Sample.options) trivial
    (Sample.first_reloads Sample.first_fits)
  exact ⟨s, hs, hanchor, (adopted_roots_read_back _ _ _).1 s hs⟩

/-- Two rotations of one version, each signed by the set before it, are both adopted, and the second
does not read back. -/
theorem equal_versions_dropped :
    ∃ s, (updateMachine (Sample.rotations Sample.firstRotation) Sample.options none).Reachable s ∧
      (anchorFrom (Sample.rotations Sample.firstRotation).toPlatform Sample.options.rootKeys
        s.client.trustRoots).anchor.keys ≠ s.anchor.keys :=
  @Sample.second_dropped Sample.firstRotation Sample.secondRotation
    (Sample.rootTextOf_ne _ _ _ _)

end VibeField.Updates
