import Mathlib.Data.List.Sort
import VibeField.Trust.Signed

/-!
# The adopted root chain

The trust-roots that rotated the root keys are kept as their signed documents.  Whenever they are
loaded they are verified again from the embedded keys, each by the set before it, and the newest
that verifies names the keys in force; from the first that does not verify on, all are dropped.
-/

namespace VibeField.Updates

open Contracts Trust List

/-- One adopted trust-root, as persisted. -/
structure AdoptedRoot where
  version : Nat
  doc : String
  sig : String
  deriving DecidableEq, Repr

/-- The root keys in force, and the version of the document that named them, none for the embedded
set. -/
structure RootAnchor where
  keys : List String
  version : Option Nat
  deriving DecidableEq, Repr

def maxAdoptedRoots : Nat := 16

variable (P : Platform)

def validAfter (anchor : RootAnchor) (entry : AdoptedRoot) : Option RootAnchor :=
  match verifyTrustRoot P entry.doc.toUTF8 entry.sig ⟨anchor.keys, 1⟩ with
  | .error _ => none
  | .ok (doc, signers) =>
    if doc.version = entry.version ∧ (anchor.version.all fun v => entry.version > v) = true ∧
        signers.length ≥ doc.root.threshold then
      some ⟨doc.root.keys, some doc.version⟩
    else none

def walk (anchor : RootAnchor) : List AdoptedRoot → RootAnchor × List AdoptedRoot
  | [] => (anchor, [])
  | entry :: rest =>
    match validAfter P anchor entry with
    | none => (anchor, [])
    | some next =>
      let reached := walk next rest
      (reached.1, entry :: reached.2)

def ordered (stored : List AdoptedRoot) : List AdoptedRoot :=
  stored.insertionSort fun a b => a.version ≤ b.version

structure AnchorFrom where
  anchor : RootAnchor
  kept : List AdoptedRoot
  dropped : Nat
  deriving DecidableEq, Repr

def anchorFrom (embedded : List String) (stored : List AdoptedRoot) : AnchorFrom :=
  let reached := walk P ⟨embedded, none⟩ (ordered stored)
  ⟨reached.1, reached.2, (ordered stored).length - reached.2.length⟩

def rotates (anchor : RootAnchor) (rootKeys : List String) : Bool :=
  rootKeys.length != anchor.keys.length || rootKeys.any fun key => !anchor.keys.contains key

theorem rotates_of_new {anchor : RootAnchor} {rootKeys : List String} {key : String}
    (h : key ∈ rootKeys) (hnew : key ∉ anchor.keys) : rotates anchor rootKeys = true := by
  unfold rotates
  rw [Bool.or_eq_true, any_eq_true]
  refine .inr ⟨key, h, ?_⟩
  rw [Bool.not_eq_true', contains_eq_mem, decide_eq_false_iff_not]
  exact hnew

variable {P}

/-! ## What the stored list can put in force -/

/-- The key sets that documents of `stored` lead to, each signed by keys of the set before it. -/
inductive SignedFrom (P : Platform) (embedded : List String) (stored : List AdoptedRoot) :
    List String → Prop
  | embedded : SignedFrom P embedded stored embedded
  | signed {keys : List String} (before : SignedFrom P embedded stored keys) (entry : AdoptedRoot)
      (doc : TrustRoot) (kept : entry ∈ stored)
      (verified : verifyTrustRoot P entry.doc.toUTF8 entry.sig ⟨keys, 1⟩ =
        .ok (doc, signersOf P entry.doc.toUTF8 entry.sig keys))
      (one : 1 ≤ (signersOf P entry.doc.toUTF8 entry.sig keys).length)
      (threshold : doc.root.threshold ≤ (signersOf P entry.doc.toUTF8 entry.sig keys).length) :
      SignedFrom P embedded stored doc.root.keys

variable {anchor next : RootAnchor} {entries stored : List AdoptedRoot} {entry : AdoptedRoot}

theorem validAfter_some (h : validAfter P anchor entry = some next) :
    ∃ doc, verifyTrustRoot P entry.doc.toUTF8 entry.sig ⟨anchor.keys, 1⟩ =
        .ok (doc, signersOf P entry.doc.toUTF8 entry.sig anchor.keys) ∧
      1 ≤ (signersOf P entry.doc.toUTF8 entry.sig anchor.keys).length ∧
      doc.root.threshold ≤ (signersOf P entry.doc.toUTF8 entry.sig anchor.keys).length ∧
      doc.version = entry.version ∧ (∀ v ∈ anchor.version, v < entry.version) ∧
      next = ⟨doc.root.keys, some doc.version⟩ := by
  unfold validAfter at h
  split at h
  · cases h
  · next doc signers hverified =>
    split at h
    · next hvalid =>
      obtain ⟨rfl, -, hone, -⟩ := verifyTrustRoot_ok hverified
      have hversion : ∀ v ∈ anchor.version, v < entry.version := by
        intro v hv
        have hall := hvalid.2.1
        rw [hv, Option.all_some, decide_eq_true_eq] at hall
        exact hall
      exact ⟨doc, hverified, hone, hvalid.2.2, hvalid.1, hversion, (Option.some.inj h).symm⟩
    · cases h

theorem walk_signedFrom {embedded : List String} :
    ∀ {entries : List AdoptedRoot} {anchor : RootAnchor}, (∀ e ∈ entries, e ∈ stored) →
      SignedFrom P embedded stored anchor.keys →
      SignedFrom P embedded stored (walk P anchor entries).1.keys := by
  intro entries
  induction entries with
  | nil => exact fun _ h => h
  | cons entry rest ih =>
    intro anchor hmem h
    rw [walk]
    cases hvalid : validAfter P anchor entry with
    | none => exact h
    | some next =>
      obtain ⟨doc, hverified, hone, hthreshold, -, -, rfl⟩ := validAfter_some hvalid
      exact ih (fun e he => hmem e (mem_cons_of_mem _ he))
        (h.signed entry doc (hmem entry mem_cons_self) hverified hone hthreshold)

theorem anchorFrom_signedFrom (embedded : List String) (stored : List AdoptedRoot) :
    SignedFrom P embedded stored (anchorFrom P embedded stored).anchor.keys :=
  walk_signedFrom (fun _ he => (mem_insertionSort _).mp he) .embedded

/-! ## A chain that reads back -/

/-- The stored documents read back whole, and put `anchor` in force. -/
def ReadsBack (P : Platform) (embedded : List String) (stored : List AdoptedRoot)
    (anchor : RootAnchor) : Prop :=
  walk P ⟨embedded, none⟩ (ordered stored) = (anchor, ordered stored)

theorem ReadsBack.anchorFrom_eq {embedded : List String} (h : ReadsBack P embedded stored anchor) :
    anchorFrom P embedded stored = ⟨anchor, ordered stored, 0⟩ := by
  unfold anchorFrom
  rw [show walk P ⟨embedded, none⟩ (ordered stored) = (anchor, ordered stored) from h]
  simp

theorem walk_cons_of_valid (h : validAfter P anchor entry = some next) (rest : List AdoptedRoot) :
    walk P anchor (entry :: rest) = ((walk P next rest).1, entry :: (walk P next rest).2) := by
  rw [walk, h]

theorem walk_cons_of_invalid (h : validAfter P anchor entry = none) (rest : List AdoptedRoot) :
    walk P anchor (entry :: rest) = (anchor, []) := by
  rw [walk, h]

theorem walk_isPrefix : ∀ {anchor : RootAnchor},
    (walk P anchor entries).2 <+: entries := by
  induction entries with
  | nil => exact prefix_rfl
  | cons entry rest ih =>
    intro anchor
    cases hvalid : validAfter P anchor entry with
    | none =>
      rw [walk_cons_of_invalid hvalid]
      exact nil_prefix
    | some next =>
      rw [walk_cons_of_valid hvalid]
      exact cons_prefix_cons.mpr ⟨rfl, ih⟩

theorem walk_kept : ∀ {anchor : RootAnchor},
    walk P anchor (walk P anchor entries).2 =
      ((walk P anchor entries).1, (walk P anchor entries).2) := by
  induction entries with
  | nil => exact rfl
  | cons entry rest ih =>
    intro anchor
    cases hvalid : validAfter P anchor entry with
    | none =>
      rw [walk_cons_of_invalid hvalid]
      rfl
    | some next =>
      rw [walk_cons_of_valid hvalid]
      dsimp only
      rw [walk_cons_of_valid hvalid, ih]

theorem walk_append {reached next : RootAnchor} (hvalid : validAfter P reached entry = some next) :
    ∀ {anchor : RootAnchor},
    walk P anchor entries = (reached, entries) →
      walk P anchor (entries ++ [entry]) = (next, entries ++ [entry]) := by
  induction entries with
  | nil =>
    rintro anchor ⟨⟩
    exact walk_cons_of_valid hvalid []
  | cons first rest ih =>
    intro anchor h
    cases hfirst : validAfter P anchor first with
    | none =>
      rw [walk_cons_of_invalid hfirst] at h
      cases congrArg Prod.snd h
    | some then' =>
      rw [walk_cons_of_valid hfirst] at h
      obtain ⟨hreached, hkept⟩ := Prod.mk.inj h
      have hrest : walk P then' rest = (reached, rest) :=
        Prod.ext hreached (List.cons.inj hkept).2
      rw [cons_append, walk_cons_of_valid hfirst, ih hrest]

theorem walk_reaches : ∀ {anchor : RootAnchor},
    ∀ v ∈ anchor.version, ∃ w ∈ (walk P anchor entries).1.version, v ≤ w := by
  induction entries with
  | nil => exact fun v hv => ⟨v, hv, Nat.le_refl v⟩
  | cons entry rest ih =>
    intro anchor v hv
    cases hvalid : validAfter P anchor entry with
    | none =>
      rw [walk_cons_of_invalid hvalid]
      exact ⟨v, hv, Nat.le_refl v⟩
    | some next =>
      rw [walk_cons_of_valid hvalid]
      obtain ⟨doc, -, -, -, hversion, habove, rfl⟩ := validAfter_some hvalid
      obtain ⟨w, hw, hle⟩ := @ih ⟨doc.root.keys, some doc.version⟩ doc.version rfl
      exact ⟨w, hw, Nat.le_trans (Nat.le_of_lt (habove v hv)) (hversion ▸ hle)⟩

theorem walk_version : ∀ {anchor : RootAnchor},
    ∀ e ∈ (walk P anchor entries).2, (∀ v ∈ anchor.version, v < e.version) ∧
      ∃ w ∈ (walk P anchor entries).1.version, e.version ≤ w := by
  induction entries with
  | nil =>
    intro anchor e he
    cases he
  | cons entry rest ih =>
    intro anchor e he
    cases hvalid : validAfter P anchor entry with
    | none =>
      rw [walk_cons_of_invalid hvalid] at he
      cases he
    | some next =>
      rw [walk_cons_of_valid hvalid] at he ⊢
      obtain ⟨doc, -, -, -, hversion, habove, rfl⟩ := validAfter_some hvalid
      rcases mem_cons.mp he with rfl | he
      · exact ⟨habove, @walk_reaches P rest ⟨doc.root.keys, some doc.version⟩ _
          (congrArg some hversion)⟩
      · obtain ⟨hlow, hhigh⟩ := ih e he
        refine ⟨fun v hv => Nat.lt_trans (habove v hv) ?_, hhigh⟩
        rw [← hversion]
        exact hlow doc.version rfl

theorem walk_sorted : ∀ {anchor : RootAnchor},
    (walk P anchor entries).2.Pairwise fun a b => a.version ≤ b.version := by
  induction entries with
  | nil => exact List.Pairwise.nil
  | cons entry rest ih =>
    intro anchor
    cases hvalid : validAfter P anchor entry with
    | none =>
      rw [walk_cons_of_invalid hvalid]
      exact List.Pairwise.nil
    | some next =>
      rw [walk_cons_of_valid hvalid]
      obtain ⟨doc, -, -, -, hversion, -, rfl⟩ := validAfter_some hvalid
      refine List.Pairwise.cons (fun e he => ?_) ih
      rw [← hversion]
      exact Nat.le_of_lt ((walk_version e he).1 doc.version rfl)

theorem orderedInsert_append {a e : AdoptedRoot} (h : a.version ≤ e.version) :
    List.orderedInsert (fun a b : AdoptedRoot => a.version ≤ b.version) a (entries ++ [e]) =
      List.orderedInsert (fun a b : AdoptedRoot => a.version ≤ b.version) a entries ++ [e] := by
  induction entries with
  | nil =>
    rw [nil_append, orderedInsert_cons, if_pos h]
    rfl
  | cons b rest ih =>
    rw [cons_append, orderedInsert_cons, orderedInsert_cons]
    split
    · rfl
    · rw [ih]
      rfl

theorem ordered_append {e : AdoptedRoot} (h : ∀ a ∈ stored, a.version ≤ e.version) :
    ordered (stored ++ [e]) = ordered stored ++ [e] := by
  induction stored with
  | nil => rfl
  | cons a rest ih =>
    have hrest := ih fun b hb => h b (mem_cons_of_mem _ hb)
    unfold ordered at hrest ⊢
    rw [cons_append, insertionSort_cons, insertionSort_cons, hrest,
      orderedInsert_append (h a mem_cons_self)]

namespace ReadsBack

variable {embedded : List String} {stored : List AdoptedRoot} {anchor next : RootAnchor}

theorem kept (embedded : List String) (stored : List AdoptedRoot) :
    ReadsBack P embedded (anchorFrom P embedded stored).kept
      (anchorFrom P embedded stored).anchor := by
  have hsorted : ordered (anchorFrom P embedded stored).kept =
      (anchorFrom P embedded stored).kept := List.Pairwise.insertionSort_eq walk_sorted
  unfold ReadsBack
  rw [hsorted]
  exact walk_kept

theorem of_dropped (h : (anchorFrom P embedded stored).dropped = 0) :
    ReadsBack P embedded stored (anchorFrom P embedded stored).anchor := by
  have hlength : (ordered stored).length ≤
      (walk P ⟨embedded, none⟩ (ordered stored)).2.length := Nat.le_of_sub_eq_zero h
  exact Prod.ext rfl (walk_isPrefix.eq_of_length_le hlength)

theorem version_le (h : ReadsBack P embedded stored anchor) {e : AdoptedRoot} (he : e ∈ stored) :
    ∃ w ∈ anchor.version, e.version ≤ w := by
  have hmem : e ∈ (walk P ⟨embedded, none⟩ (ordered stored)).2 := by
    rw [show walk P ⟨embedded, none⟩ (ordered stored) = (anchor, ordered stored) from h]
    exact (mem_insertionSort _).mpr he
  have hle := (walk_version e hmem).2
  rwa [show walk P ⟨embedded, none⟩ (ordered stored) = (anchor, ordered stored) from h] at hle

theorem append (h : ReadsBack P embedded stored anchor) {entry : AdoptedRoot}
    (hvalid : validAfter P anchor entry = some next) :
    ReadsBack P embedded (stored ++ [entry]) next := by
  obtain ⟨-, -, -, -, -, habove, -⟩ := validAfter_some hvalid
  have hordered : ordered (stored ++ [entry]) = ordered stored ++ [entry] := by
    refine ordered_append fun a ha => ?_
    obtain ⟨w, hw, hle⟩ := h.version_le ha
    exact Nat.le_of_lt (Nat.lt_of_le_of_lt hle (habove w hw))
  unfold ReadsBack
  rw [hordered]
  exact walk_append hvalid h

end ReadsBack

end VibeField.Updates
