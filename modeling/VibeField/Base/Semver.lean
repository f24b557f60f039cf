import Mathlib.Data.List.Basic

/-!
# Semantic versions

A version without build metadata is a core of three numeric identifiers and a prerelease of any
number of identifiers.  Precedence compares the core, puts a prerelease below its release, and goes
through the identifiers from the left: numbers by value, below every other identifier, and the
others as text.
-/

namespace VibeField.Semver

def isDigit (c : Char) : Bool := '0'.toNat ≤ c.toNat && c.toNat ≤ '9'.toNat

def isLetter (c : Char) : Bool :=
  ('a'.toNat ≤ c.toNat && c.toNat ≤ 'z'.toNat) || ('A'.toNat ≤ c.toNat && c.toNat ≤ 'Z'.toNat)

def isIdentifierChar (c : Char) : Bool := isDigit c || isLetter c || c == '-'

def value (digits : List Char) : Nat := digits.foldl (fun n c => 10 * n + (c.toNat - 48)) 0

/-- Digits without a leading zero. -/
def Numeric (x : List Char) : Prop :=
  x ≠ [] ∧ (∀ c ∈ x, isDigit c = true) ∧ (x.head? = some '0' → x = ['0'])

/-- A prerelease identifier. -/
def Identifier (x : List Char) : Prop :=
  x ≠ [] ∧ (∀ c ∈ x, isIdentifierChar c = true) ∧ (x.all isDigit = true → Numeric x)

structure Version where
  major : List Char
  minor : List Char
  patch : List Char
  prerelease : List (List Char)
  majorNumeric : Numeric major
  minorNumeric : Numeric minor
  patchNumeric : Numeric patch
  identifiers : ∀ x ∈ prerelease, Identifier x

def joined (sep : Char) (parts : List (List Char)) : List Char := List.intercalate [sep] parts

namespace Version

def core (v : Version) : List (List Char) := [v.major, v.minor, v.patch]

def text (v : Version) : List Char :=
  match v.prerelease with
  | [] => joined '.' v.core
  | pre => joined '.' v.core ++ '-' :: joined '.' pre

end Version

/-! ## Precedence -/

def compareText (x y : List Char) : Ordering := List.compareLex (compareOn Char.toNat) x y

def compareIdentifiers (x y : List Char) : Ordering :=
  match x.all isDigit, y.all isDigit with
  | true, true => compare (value x) (value y)
  | true, false => .lt
  | false, true => .gt
  | false, false => compareText x y

def comparePrereleases : List (List Char) → List (List Char) → Ordering
  | [], [] => .eq
  | [], _ :: _ => .gt
  | _ :: _, [] => .lt
  | x :: xs, y :: ys => List.compareLex compareIdentifiers (x :: xs) (y :: ys)

def compareCores (x y : List (List Char)) : Ordering := List.compareLex (compareOn value) x y

def precedence (a b : Version) : Ordering :=
  (compareCores a.core b.core).then (comparePrereleases a.prerelease b.prerelease)

/-! ## It is a total preorder -/

instance : Std.TransCmp compareText :=
  inferInstanceAs (Std.TransCmp (List.compareLex (compareOn Char.toNat)))

instance : Std.TransCmp compareCores :=
  inferInstanceAs (Std.TransCmp (List.compareLex (compareOn value)))

instance : Std.TransCmp compareIdentifiers where
  eq_swap {x y} := by
    unfold compareIdentifiers
    cases x.all isDigit <;> cases y.all isDigit
    · exact (inferInstance : Std.TransCmp compareText).eq_swap
    · rfl
    · rfl
    · exact (inferInstance : Std.TransCmp (compareOn value)).eq_swap
  isLE_trans {x y z} := by
    unfold compareIdentifiers
    cases x.all isDigit <;> cases y.all isDigit <;> cases z.all isDigit
    · exact (inferInstance : Std.TransCmp compareText).isLE_trans
    · exact fun _ h => h
    · exact fun h => absurd h (by simp)
    · exact fun h => absurd h (by simp)
    · exact fun _ _ => rfl
    · exact fun _ h => absurd h (by simp)
    · exact fun _ h => h
    · exact (inferInstance : Std.TransCmp (compareOn value)).isLE_trans

instance : Std.TransCmp comparePrereleases where
  eq_swap {x y} := by
    rcases x with - | ⟨x, xs⟩ <;> rcases y with - | ⟨y, ys⟩
    · rfl
    · rfl
    · rfl
    · exact (inferInstance : Std.TransCmp (List.compareLex compareIdentifiers)).eq_swap
  isLE_trans {x y z} := by
    rcases x with - | ⟨x, xs⟩ <;> rcases y with - | ⟨y, ys⟩ <;> rcases z with - | ⟨z, zs⟩
    · exact fun h _ => h
    · exact fun _ h => h
    · exact fun _ _ => rfl
    · exact fun h => absurd h (by simp [comparePrereleases])
    · exact fun h _ => h
    · exact fun _ h => absurd h (by simp [comparePrereleases])
    · exact fun _ h => h
    · exact (inferInstance : Std.TransCmp (List.compareLex compareIdentifiers)).isLE_trans

theorem transCmp_on {α β : Type} {cmp : β → β → Ordering} (h : Std.TransCmp cmp) (f : α → β) :
    Std.TransCmp fun a b => cmp (f a) (f b) where
  eq_swap := h.eq_swap
  isLE_trans := h.isLE_trans

instance : Std.TransCmp precedence :=
  have : Std.TransCmp fun a b : Version => compareCores a.core b.core :=
    transCmp_on inferInstance Version.core
  have : Std.TransCmp fun a b : Version => comparePrereleases a.prerelease b.prerelease :=
    transCmp_on inferInstance Version.prerelease
  inferInstanceAs (Std.TransCmp (compareLex (fun a b : Version => compareCores a.core b.core)
    fun a b => comparePrereleases a.prerelease b.prerelease))

end VibeField.Semver
