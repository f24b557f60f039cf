import Mathlib.Data.List.Nodup
import VibeField.Contracts.TrustRoot

/-!
# Signed files

A signature file holds one base64 Ed25519 signature a line over the signed file's exact bytes, and
a key counts once however many lines it signed.  A file stands when as many distinct keys of a set
signed it as the set's threshold asks.
-/

namespace VibeField.Trust

open Contracts List

def isSpace (c : Char) : Bool :=
  let n := c.toNat
  (9 ≤ n && n ≤ 13) || n == 0x20 || n == 0xA0 || n == 0x1680 || (0x2000 ≤ n && n ≤ 0x200A) ||
    [0x2028, 0x2029, 0x202F, 0x205F, 0x3000, 0xFEFF].contains n

def trim (text : List Char) : List Char :=
  ((text.dropWhile isSpace).reverse.dropWhile isSpace).reverse

def splitLines : List Char → List (List Char)
  | [] => [[]]
  | '\r' :: '\n' :: rest => [] :: splitLines rest
  | '\n' :: rest => [] :: splitLines rest
  | c :: rest =>
    match splitLines rest with
    | line :: lines => (c :: line) :: lines
    | [] => [[c]]

def signatureLines (sigText : String) : List String :=
  ((splitLines sigText.toList).map trim).filterMap fun line =>
    if line.length > 0 then some (String.ofList line) else none

/-- A key set and how many of its keys must have signed. -/
structure TrustAnchor where
  keys : List String
  threshold : Nat
  deriving DecidableEq, Repr

/-- What the code takes from the platform: the signature check on bytes, a signature and a key;
`Buffer.toString("utf8")`, which writes what is no UTF-8 as replacement characters; and how a
trust-root's text is read, as JSON and then by the shape of its schema. -/
structure Platform where
  verifyEd25519 : ByteArray → String → String → Bool
  bufferToString : ByteArray → String
  Raw : Type
  jsonParse : String → Option Raw
  trustRootShape : Raw → Except String TrustRootFields

variable (P : Platform)

def signersOf (bytes : ByteArray) (sigText : String) (keys : List String) : List String :=
  let lines := signatureLines sigText
  (keys.zipIdx.filter fun (key, index) =>
    keys.idxOf key = index && lines.any fun line => P.verifyEd25519 bytes line key).map Prod.fst

theorem signersOf_of_nodup {P : Platform} {bytes : ByteArray} {sigText : String}
    {keys : List String} (h : keys.Nodup) :
    signersOf P bytes sigText keys = keys.filter fun key =>
      (signatureLines sigText).any fun line => P.verifyEd25519 bytes line key := by
  have hfirst : ∀ entry ∈ keys.zipIdx, keys.idxOf entry.1 = entry.2 := by
    rintro ⟨key, index⟩ hentry
    obtain ⟨hlt, rfl⟩ := List.getElem?_eq_some_iff.mp (List.mk_mem_zipIdx_iff_getElem?.mp hentry)
    exact h.idxOf_getElem index hlt
  have hfilter : (keys.zipIdx.filter fun (key, index) => keys.idxOf key = index &&
      (signatureLines sigText).any fun line => P.verifyEd25519 bytes line key) =
      keys.zipIdx.filter ((fun key => (signatureLines sigText).any fun line =>
        P.verifyEd25519 bytes line key) ∘ Prod.fst) := by
    refine filter_congr fun entry hentry => ?_
    dsimp only [Function.comp_apply]
    rw [decide_eq_true (hfirst entry hentry), Bool.true_and]
  unfold signersOf
  dsimp only
  rw [hfilter, ← filter_map, zipIdx_map_fst]

def verifySignedBytes (bytes : ByteArray) (sigText : String) (anchor : TrustAnchor) : Bool :=
  anchor.threshold ≥ 1 && (signersOf P bytes sigText anchor.keys).length ≥ anchor.threshold

def readTrustRoot (raw : P.Raw) : Except String TrustRoot :=
  match P.trustRootShape raw with
  | .error message => .error message
  | .ok fields => fields.refine

def verifyTrustRoot (docBytes : ByteArray) (sigText : String) (anchor : TrustAnchor) :
    Except String (TrustRoot × List String) :=
  match P.jsonParse (P.bufferToString docBytes) with
  | none => .error "the trust-root is not JSON"
  | some raw =>
    match readTrustRoot P raw with
    | .error message => .error ("the trust-root is malformed: " ++ message)
    | .ok doc =>
      let signers := signersOf P docBytes sigText anchor.keys
      if anchor.threshold < 1 ∨ signers.length < anchor.threshold then
        .error ("the trust-root is signed by " ++ toString signers.length ++
          " of the app's root keys; " ++ toString anchor.threshold ++ " must")
      else .ok (doc, signers)

variable {P}

/-! ## Signers -/

section Signers

variable {bytes : ByteArray} {sigText : String} {keys : List String}

theorem mem_signersOf {key : String} (h : key ∈ signersOf P bytes sigText keys) :
    key ∈ keys ∧ ∃ line ∈ signatureLines sigText, P.verifyEd25519 bytes line key = true := by
  obtain ⟨⟨k, index⟩, hmem, rfl⟩ := mem_map.mp h
  obtain ⟨hin, hkeep⟩ := mem_filter.mp hmem
  rw [Bool.and_eq_true] at hkeep
  exact ⟨(mem_zipIdx' hin).2 ▸ getElem_mem _, any_eq_true.mp hkeep.2⟩

theorem signersOf_nodup : (signersOf P bytes sigText keys).Nodup := by
  refine List.Nodup.map_on ?_ (List.Nodup.filter _ ?_)
  · rintro ⟨k, i⟩ hi ⟨k', j⟩ hj (rfl : k = k')
    have hfirst := (mem_filter.mp hi).2
    have hsecond := (mem_filter.mp hj).2
    rw [Bool.and_eq_true, decide_eq_true_eq] at hfirst hsecond
    exact Prod.ext rfl (hfirst.1.symm.trans hsecond.1)
  · refine List.Nodup.of_map Prod.snd ?_
    rw [zipIdx_map_snd]
    exact nodup_range'

end Signers

/-! ## Files that stand -/

/-- `threshold` distinct keys of `keys`, one at least, signed the bytes in the sense of `signed`. -/
def Vouched (signed : String → ByteArray → Prop) (keys : List String) (threshold : Nat)
    (bytes : ByteArray) : Prop :=
  ∃ signers : List String, signers.Nodup ∧ 1 ≤ signers.length ∧ threshold ≤ signers.length ∧
    ∀ key ∈ signers, key ∈ keys ∧ signed key bytes

/-- A signature that verifies was made by the key over the bytes. -/
def Unforgeable (P : Platform) (signed : String → ByteArray → Prop) : Prop :=
  ∀ bytes line key, P.verifyEd25519 bytes line key = true → signed key bytes

section Stand

variable {signed : String → ByteArray → Prop} {bytes : ByteArray} {sigText : String}
  {anchor : TrustAnchor}

theorem vouched_of_signers (hsigned : Unforgeable P signed) {threshold : Nat}
    (hone : 1 ≤ (signersOf P bytes sigText anchor.keys).length)
    (hall : threshold ≤ (signersOf P bytes sigText anchor.keys).length) :
    Vouched signed anchor.keys threshold bytes := by
  refine ⟨_, signersOf_nodup, hone, hall, fun key hkey => ?_⟩
  obtain ⟨hmem, line, _, hverify⟩ := mem_signersOf hkey
  exact ⟨hmem, hsigned bytes line key hverify⟩

theorem vouched_of_verifySignedBytes (hsigned : Unforgeable P signed)
    (h : verifySignedBytes P bytes sigText anchor = true) :
    Vouched signed anchor.keys anchor.threshold bytes := by
  unfold verifySignedBytes at h
  rw [Bool.and_eq_true, decide_eq_true_eq, decide_eq_true_eq] at h
  exact vouched_of_signers hsigned (Nat.le_trans h.1 h.2) h.2

theorem verifyTrustRoot_ok {doc : TrustRoot} {signers : List String}
    (h : verifyTrustRoot P bytes sigText anchor = .ok (doc, signers)) :
    signers = signersOf P bytes sigText anchor.keys ∧ 1 ≤ anchor.threshold ∧
      anchor.threshold ≤ signers.length ∧
      ∃ raw ∈ P.jsonParse (P.bufferToString bytes), readTrustRoot P raw = .ok doc := by
  unfold verifyTrustRoot at h
  split at h
  · cases h
  · next raw hraw =>
    split at h
    · cases h
    · next read hread =>
      dsimp only at h
      split at h
      · cases h
      · next henough =>
        cases h
        rw [not_or] at henough
        exact ⟨rfl, Nat.le_of_not_lt henough.1, Nat.le_of_not_lt henough.2, raw, hraw, hread⟩

end Stand

end VibeField.Trust
