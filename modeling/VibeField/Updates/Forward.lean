import VibeField.Updates.Adopted

/-!
# Versions go forward

A verification judges documents by what was remembered when it began, and writes back all of it when
it ends.  Where nothing newer was remembered in between, no version and no root set goes back: a
document that was accepted is never followed by an older one of its kind.
-/

namespace VibeField.Updates

open Contracts Trust List Option

variable {P : ChainPlatform} {input : ChainInput} {kind : DocumentKind} {version : Nat}

/-! ## What is accepted -/

theorem Accepts.no_older (h : Accepts P input kind version) :
    ∀ v ∈ input.floored.of kind, v ≤ version := by
  cases h with
  | trustRoot newest took =>
    obtain ⟨bytes, sig, htaken⟩ := (ends_acceptTrustRoot _).of_ok took
    exact (judge_accepted htaken.judged).1
  | channels newest tookRoot took =>
    obtain ⟨bytes, -, -, hjudged⟩ := (ends_acceptHeads _ _ _).of_ok took
    exact (judge_accepted hjudged).1
  | policy newest tookRoot tookHeads resolved took =>
    obtain ⟨bytes, -, -, -, hjudged⟩ := (ends_acceptPolicy _ _ _).of_ok took
    exact (judge_accepted hjudged).1

theorem Accepts.remembered {result : ChainResult P} (h : Accepts P input kind version)
    (hresult : verifyUpdateChain P input = .ok result) :
    result.remembered.of kind = some version := by
  cases h with
  | @trustRoot newestTag root newest took =>
    have hleaves : Leaves (fun r _ => r.trustRoot = some root.1.version) (chainSteps P input) := by
      unfold chainSteps
      rw [newest, ok_bind, took, ok_bind]
      exact leaves_afterTrustRoot.mono fun _ _ h => h.1
    exact hleaves.of_result hresult
  | @channels newestTag root heads newest tookRoot took =>
    have hleaves : Leaves (fun r _ => r.channels = some heads.version) (chainSteps P input) := by
      unfold chainSteps afterTrustRoot
      rw [newest, ok_bind, tookRoot, ok_bind, took, ok_bind]
      exact leaves_afterHeads.mono fun _ _ h => h.2.1
    exact hleaves.of_result hresult
  | @policy newestTag root heads head policy newest tookRoot tookHeads resolved took =>
    have hleaves : Leaves (fun r _ => r.policy.get input.channel = some policy.version)
        (chainSteps P input) := by
      unfold chainSteps afterTrustRoot afterHeads
      dsimp only
      rw [newest, ok_bind, tookRoot, ok_bind, tookHeads, ok_bind, resolved, present, ok_bind, took,
        ok_bind]
      refine leaves_afterPolicy.mono fun r _ h => ?_
      rw [h.1]
      exact (PerChannel.get_set _ _ _ _).trans (if_pos rfl)
    exact hleaves.of_result hresult

theorem RememberedVersions.noLower_iff {r s : RememberedVersions} :
    r.NoLower s ↔ ∀ kind, Updates.NoLower (r.of kind) (s.of kind) := by
  constructor
  · rintro ⟨hroot, hchannels, hpolicy⟩ kind
    cases kind with
    | trustRoot => exact hroot
    | channels => exact hchannels
    | policy channel => exact hpolicy channel
  · exact fun h => ⟨h .trustRoot, h .channels, fun channel => h (.policy channel)⟩

variable {Other : Type} {o : UpdateOptions Other} {s s' : Controller Other} {e : UpdateEvent Other}

/-! ## The condition -/

/-- Each version remembered by now is no higher than what this verification read, or than the
document of that kind it accepts. -/
def NothingNewer (P : ChainPlatform) (s : Controller Other) (input : ChainInput) : Prop :=
  ∀ kind, ∀ v ∈ s.client.remembered.of kind,
    (∃ u ∈ input.floored.of kind, v ≤ u) ∨ ∃ w, Accepts P input kind w ∧ v ≤ w

/-- What is adopted reloads, and a verification that answers finds nothing newer remembered. -/
def EndsUpToDate (P : ChainPlatform) (o : UpdateOptions Other) (s : Controller Other)
    (e : UpdateEvent Other) : Prop :=
  AdoptsReloadable P o s e ∧
    match e with
    | .endVerify i fetch =>
      ∀ f ∈ s.flights[i]?, ∀ result, verifyUpdateChain P (f.input o fetch) = .ok result →
        NothingNewer P s (f.input o fetch)
    | _ => True

def NamesAnew (P : ChainPlatform) (o : UpdateOptions Other) (s : Controller Other) :
    UpdateEvent Other → Prop
  | .endVerify i fetch =>
    ∀ f ∈ s.flights[i]?, ∀ accepted, RootFrom P (f.input o fetch) accepted →
      rotates s.anchor accepted.rootKeys = true → s.client.trustRoots.length < maxAdoptedRoots →
        ∀ r ∈ s.replaced, rotates r.1 accepted.rootKeys = true
  | _ => True

theorem NothingNewer.noLower {result : ChainResult P} (h : NothingNewer P s input)
    (hresult : verifyUpdateChain P input = .ok result) :
    s.client.remembered.NoLower result.remembered := by
  rw [RememberedVersions.noLower_iff]
  intro kind v hv
  rcases h kind v hv with ⟨u, hu, hvu⟩ | ⟨w, hw, hvw⟩
  · have hraised := (raised_of_result hresult).noLower
    obtain ⟨t, ht, hut⟩ := RememberedVersions.noLower_iff.mp hraised kind u hu
    exact ⟨t, ht, Nat.le_trans hvu hut⟩
  · exact ⟨w, hw.remembered hresult, hvw⟩

/-! ## The invariant -/

/-- The set in force was named later than whatever was replaced, or is other keys that replaced
it. -/
def NamedLater (replaced : List (RootAnchor × Nat)) (anchor : RootAnchor) : Prop :=
  ∀ r ∈ replaced, (∀ v ∈ r.1.version, v < r.2) ∧
    ∃ w ∈ anchor.version, r.2 < w ∨ r.2 = w ∧ rotates r.1 anchor.keys = true

/-- What was accepted is remembered, by the client and by each verification that has heard of
it. -/
structure Forward (s : Controller Other) : Prop where
  heard : ∀ f ∈ s.flights, ∀ kind v, f.heard kind v → ∃ u ∈ f.remembered.of kind, v ≤ u
  accepted : ∀ kind v, s.accepted kind v → ∃ u ∈ s.client.remembered.of kind, v ≤ u
  replaced : NamedLater s.replaced s.anchor

namespace Forward

theorem beginVerify (h : Forward s) (now : Int) : Forward (s.beginVerify o now) := by
  refine ⟨fun f hf => ?_, h.accepted, h.replaced⟩
  rcases mem_snoc.mp hf with hf | rfl
  · exact h.heard f hf
  · exact h.accepted

theorem land (h : Forward s) (i : Nat) : Forward { s with flights := s.flights.eraseIdx i } :=
  ⟨fun f hf => h.heard f ((eraseIdx_sublist _ _).subset hf), h.accepted, h.replaced⟩

theorem adopt {accepted : Option AcceptedRoot} (h : Forward s)
    (hrotation : RotationReloads P s input) (hfrom : ∀ a ∈ accepted, RootFrom P input a) :
    NamedLater (s.adopt accepted).1.replaced (s.adopt accepted).1.anchor := by
  rcases s.adopt_anchor accepted with ⟨hanchor, hreplaced⟩ |
    ⟨root, hroot, hrotates, hroom, hanchor, hreplaced⟩
  · rw [hanchor, hreplaced]
    exact h.replaced
  · obtain ⟨newestTag, doc, bytes, sig, hnewest, htaken⟩ := hfrom root hroot
    have hkeys : root.rootKeys = doc.root.keys := by rw [htaken.accepted_eq]
    have hversion : root.version = doc.version := by rw [htaken.accepted_eq]
    have hnewer : ∀ v ∈ s.anchor.version, v < root.version := by
      rw [hversion]
      exact (hrotation newestTag doc root bytes sig hnewest htaken (hkeys ▸ hrotates) hroom).newer
    rw [hanchor, hreplaced]
    intro r hr
    rcases mem_snoc.mp hr with hr | rfl
    · obtain ⟨hlater, w, hw, hrw⟩ := h.replaced r hr
      have hle : r.2 ≤ w := hrw.elim Nat.le_of_lt fun heq => Nat.le_of_eq heq.1
      exact ⟨hlater, root.version, rfl, .inl (Nat.lt_of_le_of_lt hle (hnewer w hw))⟩
    · exact ⟨hnewer, root.version, rfl, .inr ⟨rfl, hrotates⟩⟩

theorem endVerify {result : ChainResult P} (h : Forward s) (hrotation : RotationReloads P s input)
    (hnewer : NothingNewer P s input) (hresult : verifyUpdateChain P input = .ok result) :
    Forward (s.endVerify P input result) := by
  have hlower := RememberedVersions.noLower_iff.mp (hnewer.noLower hresult)
  refine ⟨fun f hf => h.heard f ?_, ?_,
    h.adopt hrotation fun a ha => rootFrom_of_result hresult ha⟩
  · rw [← s.adopt_flights result.acceptedRoot]
    exact hf
  · rintro kind v (hbefore | haccepts)
    · obtain ⟨u, hu, hvu⟩ := h.accepted kind v hbefore
      obtain ⟨t, ht, hut⟩ := hlower kind u hu
      exact ⟨t, ht, Nat.le_trans hvu hut⟩
    · exact ⟨v, haccepts.remembered hresult, Nat.le_refl v⟩

theorem of_construct (file : Option (UpdateClientState Other)) :
    Forward (construct P o file (fun _ _ => False) []) := by
  unfold construct
  dsimp only
  split <;>
    exact ⟨fun _ h => absurd h not_mem_nil, fun _ _ h => h.elim,
      fun _ h => absurd h not_mem_nil⟩

theorem restart (h : Forward s) (hkept : Kept P o s) :
    Forward (construct P o s.file s.accepted s.replaced) := by
  rw [hkept.construct_eq]
  exact ⟨fun f hf => absurd hf not_mem_nil, h.accepted, h.replaced⟩

theorem next (h : Forward s) (hkept : Kept P o s) (hok : EndsUpToDate P o s e)
    (hs : Controller.next P o s e = some s') : Forward s' := by
  cases e with
  | beginVerify now =>
    obtain rfl := some.inj hs
    exact h.beginVerify now
  | endVerify i fetch =>
    unfold Controller.next at hs
    dsimp only at hs
    split at hs
    · cases hs
    · next f hf =>
      split at hs
      · obtain rfl := some.inj hs
        exact h.land i
      · next result hresult =>
        obtain rfl := some.inj hs
        exact (h.land i).endVerify (hok.1 f hf result hresult) (hok.2 f hf result hresult) hresult
  | setChannel channel =>
    unfold Controller.next at hs
    dsimp only at hs
    split at hs <;> obtain rfl := some.inj hs
    · exact h
    · exact ⟨h.heard, h.accepted, h.replaced⟩
  | choose other =>
    obtain rfl := some.inj hs
    exact ⟨h.heard, h.accepted, h.replaced⟩
  | restart =>
    obtain rfl := some.inj hs
    exact h.restart hkept

end Forward

/-- The keys in force are those of no replaced set. -/
def Anew (s : Controller Other) : Prop := ∀ r ∈ s.replaced, rotates r.1 s.anchor.keys = true

theorem Anew.endVerify {result : ChainResult P} (h : Anew s)
    (hnames : ∀ accepted, RootFrom P input accepted → rotates s.anchor accepted.rootKeys = true →
      s.client.trustRoots.length < maxAdoptedRoots →
        ∀ r ∈ s.replaced, rotates r.1 accepted.rootKeys = true)
    (hresult : verifyUpdateChain P input = .ok result) : Anew (s.endVerify P input result) := by
  show ∀ r ∈ (s.adopt result.acceptedRoot).1.replaced,
    rotates r.1 (s.adopt result.acceptedRoot).1.anchor.keys = true
  rcases s.adopt_anchor result.acceptedRoot with ⟨hanchor, hreplaced⟩ |
    ⟨root, hroot, hrotates, hroom, hanchor, hreplaced⟩
  · rw [hanchor, hreplaced]
    exact h
  · rw [hanchor, hreplaced]
    exact forall_mem_append.mpr
      ⟨hnames root (rootFrom_of_result hresult hroot) hrotates hroom,
        forall_mem_singleton.mpr hrotates⟩

theorem Anew.of_construct (file : Option (UpdateClientState Other)) :
    Anew (construct P o file (fun _ _ => False) []) := by
  unfold construct
  dsimp only
  split <;> exact fun _ h => absurd h not_mem_nil

theorem Anew.next (h : Anew s) (hkept : Kept P o s) (hok : NamesAnew P o s e)
    (hs : Controller.next P o s e = some s') : Anew s' := by
  cases e with
  | beginVerify now =>
    obtain rfl := some.inj hs
    exact h
  | endVerify i fetch =>
    unfold Controller.next at hs
    dsimp only at hs
    split at hs
    · cases hs
    · next f hf =>
      split at hs
      · obtain rfl := some.inj hs
        exact h
      · next result hresult =>
        obtain rfl := some.inj hs
        have hlanded : Anew { s with flights := s.flights.eraseIdx i } := h
        exact hlanded.endVerify (hok f hf) hresult
  | setChannel channel =>
    unfold Controller.next at hs
    dsimp only at hs
    split at hs <;> obtain rfl := some.inj hs <;> exact h
  | choose other =>
    obtain rfl := some.inj hs
    exact h
  | restart =>
    obtain rfl := some.inj hs
    show Anew (construct P o s.file s.accepted s.replaced)
    rw [hkept.construct_eq]
    exact h

/-! ## What is persisted -/

def Controller.persisted (s : Controller Other) : RememberedVersions :=
  (s.file.map UpdateClientState.remembered).getD nothingRemembered

theorem Kept.persisted_eq (h : Kept P o s) : s.persisted = s.client.remembered := by
  have hloads := h.loads
  unfold Controller.persisted
  cases hfile : s.file with
  | none =>
    rw [hfile] at hloads
    have hclient : freshClientState o = s.client := congrArg Prod.fst hloads
    rw [← hclient]
    rfl
  | some state =>
    rw [hfile, load] at hloads
    split at hloads
    · rw [← (Prod.mk.inj hloads).1]
      rfl
    · have hnone := congrArg Prod.snd hloads
      cases hnone

theorem EndsUpToDate.noLower (hkept : Kept P o s) (hok : EndsUpToDate P o s e)
    (hs : Controller.next P o s e = some s') :
    s.client.remembered.NoLower s'.client.remembered := by
  cases e with
  | beginVerify now =>
    obtain rfl := some.inj hs
    exact .refl _
  | endVerify i fetch =>
    unfold Controller.next at hs
    dsimp only at hs
    split at hs
    · cases hs
    · next f hf =>
      split at hs
      · obtain rfl := some.inj hs
        exact .refl _
      · next result hresult =>
        obtain rfl := some.inj hs
        exact (hok.2 f hf result hresult).noLower hresult
  | setChannel channel =>
    unfold Controller.next at hs
    dsimp only at hs
    split at hs <;> obtain rfl := some.inj hs <;> exact .refl _
  | choose other =>
    obtain rfl := some.inj hs
    exact .refl _
  | restart =>
    obtain rfl := some.inj hs
    show s.client.remembered.NoLower (construct P o s.file s.accepted s.replaced).client.remembered
    rw [hkept.construct_eq]
    exact .refl _

/-! ## Nothing goes back -/

variable (P o)

/-- Documents, persisted versions and root sets only go forward from here. -/
structure GoesForward (s : Controller Other) : Prop where
  documents : ∀ f ∈ s.flights, ∀ kind v, f.heard kind v →
    ∀ fetch w, Accepts P (f.input o fetch) kind w → v ≤ w
  persisted : ∀ e s', EndsUpToDate P o s e → Controller.next P o s e = some s' →
    s.persisted.NoLower s'.persisted
  roots : NamedLater s.replaced s.anchor

variable {P o}

theorem Forward.goesForward (h : Forward s) (hkept : Kept P o s) : GoesForward P o s := by
  refine ⟨fun f hf kind v hv fetch w hw => ?_, fun e s' hok hs => ?_, h.replaced⟩
  · obtain ⟨u, hu, hvu⟩ := h.heard f hf kind v hv
    have hfloored := RememberedVersions.noLower_iff.mp
      (RememberedVersions.NoLower.withFloors f.remembered o.floors) kind
    obtain ⟨t, ht, hut⟩ := hfloored u hu
    exact Nat.le_trans hvu (Nat.le_trans hut (hw.no_older t ht))
  · rw [hkept.persisted_eq, (hkept.next hok.1 hs).persisted_eq]
    exact hok.noLower hkept hs

/-- While no answer finds anything newer remembered than what it read or accepts, and what is
adopted reloads: no verification accepts a document older than one it has heard of, the persisted
versions never decrease, and the set in force was named later than any set it or another replaced;
and where no trust-root names a replaced set again, the keys never return to one. -/
theorem update_documents_never_go_backwards (P : ChainPlatform) (o : UpdateOptions Other)
    (file : Option (UpdateClientState Other)) :
    (∀ s, (updateMachine P o file).Reaches (EndsUpToDate P o) s → GoesForward P o s) ∧
      ∀ s, (updateMachine P o file).Reaches
          (fun s e => EndsUpToDate P o s e ∧ NamesAnew P o s e) s → Anew s := by
  constructor
  · intro s hs
    have hboth : Kept P o s ∧ Forward s :=
      hs.invariant (P := fun s => Kept P o s ∧ Forward s)
        ⟨.of_construct file _ _, .of_construct file⟩
        fun _ _ _ h hok hnext => ⟨h.1.next hok.1 hnext, h.2.next h.1 hok hnext⟩
    exact hboth.2.goesForward hboth.1
  · intro s hs
    have hboth : Kept P o s ∧ Anew s :=
      hs.invariant (P := fun s => Kept P o s ∧ Anew s)
        ⟨.of_construct file _ _, .of_construct file⟩
        fun _ _ _ h hok hnext => ⟨h.1.next hok.1.1 hnext, h.2.next h.1 hok.2 hnext⟩
    exact hboth.2

/-- A rotation is served and taken, and nothing has gone back. -/
theorem update_documents_never_go_backwards_rotated :
    ∃ s, (updateMachine (Sample.rotations Sample.firstRotation) Sample.options none).Reachable s ∧
      s.anchor = ⟨[Sample.key 'c', Sample.key 'd'], some 2⟩ ∧
      s.client.remembered.trustRoot = some 2 ∧
      GoesForward (Sample.rotations Sample.firstRotation) Sample.options s ∧ Anew s := by
  have hend : EndsUpToDate (Sample.rotations Sample.firstRotation) Sample.options
      (Sample.fresh.beginVerify Sample.options 0)
      (.endVerify 0 (Sample.serving Sample.firstRotation)) := by
    refine ⟨Sample.first_reloads Sample.first_fits, fun f _ result _ kind v hv => ?_⟩
    have hnothing : nothingRemembered.of kind = none := by
      cases kind with
      | trustRoot => rfl
      | channels => rfl
      | policy channel => cases channel <;> rfl
    rw [show (Sample.fresh.beginVerify Sample.options 0).client.remembered.of kind = none from
      hnothing] at hv
    cases hv
  obtain ⟨s, hs, -, hanchor, hremembered, -⟩ := @Sample.first_served Sample.firstRotation
    (fun s e => EndsUpToDate (Sample.rotations Sample.firstRotation) Sample.options s e ∧
      NamesAnew (Sample.rotations Sample.firstRotation) Sample.options s e)
    ⟨⟨trivial, trivial⟩, trivial⟩ ⟨hend, fun _ _ _ _ _ _ r hr => absurd hr List.not_mem_nil⟩
  have hforward := update_documents_never_go_backwards
    (Sample.rotations Sample.firstRotation) Sample.options none
  exact ⟨s, hs.reachable, hanchor, hremembered,
    hforward.1 s (hs.weaken fun _ _ _ _ hok _ => hok.1), hforward.2 s hs⟩

/-! ## A verification that ends late -/

namespace Sample

def backFields : TrustRootFields := rootFieldsOf 1 (key 'a') (key 'b') Nat.zero_lt_one

theorem back_sound : backFields.issues = [] := rootFieldsOf_sound (by decide)

def backDoc : TrustRoot := { backFields with sound := back_sound }

def backwards (firstText : String) : ChainPlatform :=
  twoRoots [key 'a'] firstText firstFields backFields

def early : Flight := ⟨.stable, [key 'a', key 'b'], nothingRemembered, 0, fun _ _ => False⟩

def overlapping : Controller Unit :=
  ⟨none, freshClientState options, ⟨[key 'a', key 'b'], none⟩, [early, early], fun _ _ => False, []⟩

section Backwards

variable {firstText backText : String}

theorem backwards_text (text : String) :
    (backwards firstText).bufferToString text.toUTF8 = text :=
  bufferToString_toUTF8 text

theorem verify_newer : verifyTrustRoot (backwards firstText).toPlatform firstText.toUTF8 "c2ln\n"
    ⟨[key 'a', key 'b'], 1⟩ = .ok (firstDoc, [key 'a']) :=
  verifyTrustRoot_serving first_sound (if_pos rfl)
    (signersOf_twoRoots ['a'] ['a', 'b'] (by decide)) (by decide)

theorem verify_older (hne : backText ≠ firstText) :
    verifyTrustRoot (backwards firstText).toPlatform backText.toUTF8 "c2ln\n"
      ⟨[key 'a', key 'b'], 1⟩ = .ok (backDoc, [key 'a']) :=
  verifyTrustRoot_serving back_sound (if_neg hne)
    (signersOf_twoRoots ['a'] ['a', 'b'] (by decide)) (by decide)

theorem reachable_overlapping :
    (updateMachine (backwards firstText) options none).Reachable overlapping := by
  have hstart : (updateMachine (backwards firstText) options none).Reachable fresh := .start
  have hbegun : (updateMachine (backwards firstText) options none).Reachable
      (fresh.beginVerify options 0) := hstart.next (e := .beginVerify 0) rfl
  exact hbegun.next (e := .beginVerify 0) rfl

theorem served_late (hne : backText ≠ firstText) :
    ∃ s s', (updateMachine (backwards firstText) options none).Reachable s ∧
      Controller.next (backwards firstText) options s (.endVerify 0 (serving backText)) = some s' ∧
      s.persisted.trustRoot = some 2 ∧ s.anchor = ⟨[key 'c', key 'd'], some 2⟩ ∧
      s'.persisted.trustRoot = some 1 ∧ s'.anchor = ⟨[key 'a', key 'b'], some 1⟩ := by
  obtain ⟨s, hnext, hflights, hanchor, hremembered, hroots, hfile⟩ :=
    @next_rotation (backwards firstText) Unit options early firstText firstDoc [key 'a']
      overlapping 1 rfl (by rw [backwards_text]; exact verify_newer) (Nat.le_refl 1) rfl
      (rotates_keys ['a', 'b'] ['c', 'd'] 'c' (by decide) (by decide)) (Nat.zero_lt_succ 15)
  have hearly : s.flights[0]? = some early := by
    rw [hflights]
    rfl
  obtain ⟨s', hnext', -, hanchor', hremembered', -, hfile'⟩ :=
    @next_rotation (backwards firstText) Unit options early backText backDoc [key 'a'] s 0 hearly
      (by rw [backwards_text]; exact verify_older hne) (Nat.le_refl 1) rfl
      (by rw [hanchor]; exact rotates_keys ['c', 'd'] ['a', 'b'] 'a' (by decide) (by decide))
      (by rw [hroots]; exact Nat.lt_of_sub_eq_succ rfl)
  have hs : (updateMachine (backwards firstText) options none).Reachable s :=
    reachable_overlapping.next (e := .endVerify 1 (serving firstText)) hnext
  refine ⟨s, s', hs, hnext', ?_, hanchor, ?_, hanchor'⟩
  · rw [Controller.persisted, hfile]
    exact hremembered
  · rw [Controller.persisted, hfile']
    exact hremembered'

end Backwards

def olderRoot : String := rootTextOf "\n" "1" [key 'a', key 'b']

end Sample

/-- Two verifications begin before anything is remembered.  One is served trust-root 2 and rotates
the keys; the other ends after it with trust-root 1, which is then what is persisted, and the set
that was replaced is in force again. -/
theorem older_answer_goes_back :
    ∃ s s', (updateMachine (Sample.backwards Sample.firstRotation) Sample.options none).Reachable
        s ∧
      Controller.next (Sample.backwards Sample.firstRotation) Sample.options s
        (.endVerify 0 (Sample.serving Sample.olderRoot)) = some s' ∧
      s.persisted.trustRoot = some 2 ∧
      s.anchor = ⟨[Sample.key 'c', Sample.key 'd'], some 2⟩ ∧
      s'.persisted.trustRoot = some 1 ∧
      s'.anchor = ⟨[Sample.key 'a', Sample.key 'b'], some 1⟩ :=
  @Sample.served_late Sample.firstRotation Sample.olderRoot (Sample.rootTextOf_ne _ _ _ _)

end VibeField.Updates
