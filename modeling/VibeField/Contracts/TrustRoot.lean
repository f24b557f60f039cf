import Mathlib.Data.List.Nodup

/-!
# The trust-root

A document that names the keys trusted for each role.  A key is listed once and belongs to one
role; a threshold can be met by the keys it stands beside; the root is two keys at least.  A
signed document is judged by its version and by the time it expires.
-/

namespace VibeField.Contracts

open List

/-! ## Key sets -/

/-- A key set as its fields are read. -/
structure KeySetFields where
  threshold : Nat
  keys : List String
  one_le : 1 ≤ threshold

def KeySetFields.issues (set : KeySetFields) : List String :=
  (if set.keys.Nodup then [] else ["a key is listed twice"]) ++
    (if set.threshold > set.keys.length then
      ["a threshold of " ++ toString set.threshold ++ " cannot be met by " ++
        toString set.keys.length ++ " key(s)"]
    else [])

theorem KeySetFields.issues_eq_nil {set : KeySetFields} (hnodup : set.keys.Nodup)
    (hle : set.threshold ≤ set.keys.length) : set.issues = [] := by
  unfold KeySetFields.issues
  rw [if_pos hnodup, if_neg (Nat.not_lt.mpr hle)]
  rfl

/-! ## The document -/

/-- A trust-root as its fields are read. -/
structure TrustRootFields where
  version : Nat
  expires : String
  root : KeySetFields
  release : KeySetFields
  bundled : KeySetFields
  registry : KeySetFields
  one_le : 1 ≤ version

def TrustRootFields.owned (doc : TrustRootFields) : List (String × String) :=
  doc.root.keys.map (("root", ·)) ++ doc.release.keys.map (("release", ·)) ++
    doc.bundled.keys.map (("bundled", ·)) ++ doc.registry.keys.map (("registry", ·))

def sharedIssues : List (String × String) → List (String × String) → List String
  | _, [] => []
  | seen, (owner, key) :: rest =>
    match seen.lookup key with
    | some first =>
      if first = owner then sharedIssues ((key, owner) :: seen) rest
      else
        ("a key of " ++ owner ++ " is also a key of " ++ first ++
          " — every key belongs to one role") :: sharedIssues seen rest
    | none => sharedIssues ((key, owner) :: seen) rest

theorem sharedIssues_eq_nil {entries : List (String × String)} :
    ∀ {seen : List (String × String)}, (entries.map Prod.snd).Nodup →
      (∀ e ∈ entries, e.2 ∉ seen.map Prod.fst) → sharedIssues seen entries = [] := by
  induction entries with
  | nil => exact fun _ _ => rfl
  | cons entry rest ih =>
    intro seen hnodup hnew
    obtain ⟨owner, key⟩ := entry
    have hlookup : seen.lookup key = none := by
      rw [lookup_eq_none_iff]
      intro p hp
      have hne : key ≠ p.1 := by
        rintro rfl
        exact hnew (owner, p.1) mem_cons_self (mem_map_of_mem hp)
      exact bne_iff_ne.mpr hne
    rw [map_cons, nodup_cons] at hnodup
    rw [sharedIssues, hlookup]
    refine ih hnodup.2 fun e he hmem => ?_
    rcases mem_cons.mp hmem with heq | hmem
    · have hmem' : e.2 ∈ rest.map Prod.snd := mem_map_of_mem he
      rw [show e.2 = key from heq] at hmem'
      exact hnodup.1 hmem'
    · exact hnew e (mem_cons_of_mem _ he) hmem

def TrustRootFields.issues (doc : TrustRootFields) : List String :=
  doc.root.issues ++ doc.release.issues ++ doc.bundled.issues ++ doc.registry.issues ++
    (if doc.root.keys.length < 2 then ["the root is at least two keys (TD-1)"] else []) ++
    sharedIssues [] doc.owned

structure TrustRoot extends TrustRootFields where
  sound : toTrustRootFields.issues = []

def TrustRootFields.refine (doc : TrustRootFields) : Except String TrustRoot :=
  if h : doc.issues = [] then .ok { doc with sound := h }
  else .error (doc.issues.headD "unknown")

namespace TrustRoot

variable (doc : TrustRoot)

end TrustRoot

/-! ## Judging a signed document -/

inductive SignedDocumentVerdict where
  | accepted
  | stale
  | rollback
  deriving DecidableEq, Repr

def judgeSignedDocument (dateParse : String → Option Int) (version : Nat) (expires : String)
    (lastAcceptedVersion : Option Nat) (now : Int) : SignedDocumentVerdict :=
  if lastAcceptedVersion.any (fun last => version < last) then .rollback
  else
    match dateParse expires with
    | none => .stale
    | some t => if t ≤ now then .stale else .accepted

theorem judge_accepted {dateParse : String → Option Int} {version : Nat} {expires : String}
    {lastAcceptedVersion : Option Nat} {now : Int}
    (h : judgeSignedDocument dateParse version expires lastAcceptedVersion now = .accepted) :
    (∀ last ∈ lastAcceptedVersion, last ≤ version) ∧
      ∃ t ∈ dateParse expires, now < t := by
  unfold judgeSignedDocument at h
  split at h
  · cases h
  · next hno =>
    constructor
    · intro last hlast
      cases hlast
      rw [Option.any_some, decide_eq_true_eq] at hno
      exact Nat.le_of_not_lt hno
    · split at h
      · cases h
      · next t ht =>
        split at h
        · cases h
        · next hlt => exact ⟨t, ht, Int.not_le.mp hlt⟩

end VibeField.Contracts
