import Mathlib.Data.List.Basic
import Mathlib.Data.List.Infix

/-!
# The names of a pull's files

A pull lands as `<digest>.<transferId>` in its root's folder; until then the node writes it under
that name with a token and `.truffle-tmp` behind it.  Digests and ids have fixed lengths, so a
temporary is of one landed name only, and no landed name looks like a temporary.
-/

namespace VibeField.Native.FileTransfer

open List Option

abbrev FileName := List Char

def hex (c : Char) : Bool := ('0' ≤ c && c ≤ '9') || ('a' ≤ c && c ≤ 'f')

def ulid (c : Char) : Bool :=
  ('0' ≤ c && c ≤ '9') || ('A' ≤ c && c ≤ 'H') || c == 'J' || c == 'K' || c == 'M' || c == 'N' ||
    ('P' ≤ c && c ≤ 'T') || ('V' ≤ c && c ≤ 'Z')

abbrev Blake3Hex := { cs : FileName // cs.length = 64 ∧ cs.all hex }

abbrev FileTransferId := { cs : FileName // cs.length = 26 ∧ cs.all ulid }

def tempSuffix : FileName :=
  ['.', 't', 'r', 'u', 'f', 'f', 'l', 'e', '-', 't', 'm', 'p']

def landedName (digest : Blake3Hex) (transferId : FileTransferId) : FileName :=
  digest.1 ++ '.' :: transferId.1

def isTempOf (name landed : FileName) : Bool :=
  (((landed.isPrefixOf? name).bind fun rest => ['.'].isPrefixOf? rest).bind fun rest =>
    tempSuffix.isSuffixOf? rest).any fun token => !token.isEmpty

theorem isTempOf_iff {name landed : FileName} : isTempOf name landed = true ↔
    ∃ token, token ≠ [] ∧ name = landed ++ '.' :: (token ++ tempSuffix) := by
  rw [isTempOf, Option.any_eq_true]
  constructor
  · rintro ⟨token, h, htoken⟩
    obtain ⟨rest, hrest, hsuffix⟩ := bind_eq_some_iff.mp h
    obtain ⟨tail, htail, hdot⟩ := bind_eq_some_iff.mp hrest
    rw [List.isPrefixOf?_eq_some_iff_append_eq] at htail hdot
    rw [List.isSuffixOf?_eq_some_iff_append_eq] at hsuffix
    refine ⟨token, ?_, ?_⟩
    · rintro rfl
      cases htoken
    · rw [← htail, ← hdot, ← hsuffix]
      rfl
  · rintro ⟨token, htoken, rfl⟩
    refine ⟨token, bind_eq_some_iff.mpr ⟨token ++ tempSuffix,
      bind_eq_some_iff.mpr ⟨'.' :: (token ++ tempSuffix), ?_, ?_⟩, ?_⟩, ?_⟩
    · rw [List.isPrefixOf?_eq_some_iff_append_eq]
    · rw [List.isPrefixOf?_eq_some_iff_append_eq]
      rfl
    · rw [List.isSuffixOf?_eq_some_iff_append_eq]
    · cases token with
      | nil => exact absurd rfl htoken
      | cons c token => rfl

theorem length_landedName (digest : Blake3Hex) (transferId : FileTransferId) :
    (landedName digest transferId).length = 91 := by
  rw [landedName, length_append, length_cons, digest.2.1, transferId.2.1]

theorem landedName_inj {d d' : Blake3Hex} {t t' : FileTransferId}
    (h : landedName d t = landedName d' t') : d = d' ∧ t = t' := by
  obtain ⟨hd, ht⟩ := append_inj h (by rw [d.2.1, d'.2.1])
  exact ⟨Subtype.ext hd, Subtype.ext (List.cons.inj ht).2⟩

theorem isTempOf_unique {name : FileName} {d d' : Blake3Hex} {t t' : FileTransferId}
    (h : isTempOf name (landedName d t) = true) (h' : isTempOf name (landedName d' t') = true) :
    landedName d t = landedName d' t' := by
  obtain ⟨token, -, rfl⟩ := isTempOf_iff.mp h
  obtain ⟨token', -, heq⟩ := isTempOf_iff.mp h'
  exact (append_inj heq (by rw [length_landedName, length_landedName])).1

theorem isSuffixOf_of_isTempOf {name landed : FileName} (h : isTempOf name landed = true) :
    tempSuffix.isSuffixOf name = true := by
  obtain ⟨token, -, rfl⟩ := isTempOf_iff.mp h
  rw [isSuffixOf_iff_suffix]
  exact ⟨landed ++ '.' :: token, by simp⟩

theorem landedName_not_temp (digest : Blake3Hex) (transferId : FileTransferId) :
    tempSuffix.isSuffixOf (landedName digest transferId) = false := by
  rw [Bool.eq_false_iff, Ne, isSuffixOf_iff_suffix]
  rintro ⟨front, heq⟩
  have hsuffix : ['p'] <:+ landedName digest transferId :=
    List.IsSuffix.trans ⟨['.', 't', 'r', 'u', 'f', 'f', 'l', 'e', '-', 't', 'm'], rfl⟩ ⟨front, heq⟩
  have hid : ['p'] <:+ transferId.1 := by
    refine suffix_of_suffix_length_le hsuffix ?_ ?_
    · exact ⟨digest.1 ++ ['.'], by rw [landedName, append_assoc]; rfl⟩
    · rw [transferId.2.1]
      decide
  have hp : 'p' ∈ transferId.1 := hid.subset (mem_singleton.mpr rfl)
  have hulid : ulid 'p' = true := List.all_eq_true.mp transferId.2.2 'p' hp
  exact absurd hulid (by decide)

end VibeField.Native.FileTransfer
