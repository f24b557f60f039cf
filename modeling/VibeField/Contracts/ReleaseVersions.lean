import Mathlib.Data.Set.Basic
import VibeField.Base.Double
import VibeField.Base.Semver
import VibeField.Base.Utf16

/-!
# Release versions compared

`compareReleaseVersions` reads the core parts and the numeric identifiers as JavaScript numbers and
compares other identifiers by their UTF-16 units.  A number past `2 ^ 53` is read as the nearest
double, and a number beside another identifier is compared with it as text.
-/

namespace VibeField.Contracts.ReleaseVersions

open Double Semver

/-- The numbers that a comparison makes. -/
inductive Num where
  | nan
  | infinity (negative : Bool)
  | int (n : Int)
  deriving DecidableEq

def overflow : Nat := (2 ^ 256) ^ 4

namespace Num

def rounded (n : Int) : Num :=
  if toDouble n.natAbs < overflow then .int (n.sign * toDouble n.natAbs) else .infinity (n < 0)

def sub : Num → Num → Num
  | .nan, _ => .nan
  | _, .nan => .nan
  | .infinity a, .infinity b => if a = b then .nan else .infinity a
  | .infinity a, .int _ => .infinity a
  | .int _, .infinity b => .infinity !b
  | .int m, .int n => rounded (m - n)

def sign : Num → Option Ordering
  | .nan => none
  | .infinity negative => some (if negative then .lt else .gt)
  | .int n => some (compare n 0)

end Num

def isDigits (x : List Char) : Bool := !x.isEmpty && x.all isDigit

def number (digits : List Char) : Num := .rounded (value digits)

/-! ### `compareDottedVersions` -/

def parts (v : List Char) : List Num :=
  (v.splitOn '.').map fun part => if isDigits part then number part else .nan

def comparePart (l r rest : Num) : Num :=
  if l = .nan ∨ r = .nan then .nan else if l = r then rest else l.sub r

def compareParts : List Num → List Num → Num
  | [], right => right.foldr (comparePart (.int 0)) (.int 0)
  | l :: left, [] => comparePart l (.int 0) (compareParts left [])
  | l :: left, r :: right => comparePart l r (compareParts left right)

def compareDottedVersions (a b : List Char) : Num := compareParts (parts a) (parts b)

/-! ### `compareReleaseVersions` -/

def textLt (x y : List Char) : Bool := !Utf16.le (Utf16.encode y) (Utf16.encode x)

def compareIdentifiers : List (List Char) → List (List Char) → Num
  | [], [] => .int 0
  | [], _ :: _ => .int (-1)
  | _ :: _, [] => .int 1
  | x :: xs, y :: ys =>
    if x = y then compareIdentifiers xs ys
    else if isDigits x && isDigits y then (number x).sub (number y)
    else if textLt x y then .int (-1)
    else .int 1

def compareReleaseVersions (a b : List Char) : Num :=
  let core := compareDottedVersions ((a.splitOn '-').headD []) ((b.splitOn '-').headD [])
  if core = .int 0 then
    let ap := joined '-' (a.splitOn '-').tail
    let bp := joined '-' (b.splitOn '-').tail
    if ap = bp then .int 0
    else if ap = [] then .int 1
    else if bp = [] then .int (-1)
    else compareIdentifiers (ap.splitOn '.') (bp.splitOn '.')
  else core

/-! ## What is claimed -/

/-- Whether one version is told to be no newer than the other. -/
def NoNewer (a b : Version) : Prop :=
  (compareReleaseVersions a.text b.text).sign = some .lt ∨
    (compareReleaseVersions a.text b.text).sign = some .eq

/-- The versions of `S` are ordered by precedence. -/
structure Ordered (S : Set Version) : Prop where
  precedence : ∀ a ∈ S, ∀ b ∈ S,
    (compareReleaseVersions a.text b.text).sign = some (precedence a b)
  antisymmetric : ∀ a ∈ S, ∀ b ∈ S, (compareReleaseVersions b.text a.text).sign =
    (compareReleaseVersions a.text b.text).sign.map Ordering.swap
  total : ∀ a ∈ S, ∀ b ∈ S, NoNewer a b ∨ NoNewer b a
  transitive : ∀ a ∈ S, ∀ b ∈ S, ∀ c ∈ S, NoNewer a b → NoNewer b c → NoNewer a c

/-! ## What can be told apart -/

def double (n : Nat) : Nat := min (toDouble n) overflow

def IdentifiersTold : List (List Char) → List (List Char) → Prop
  | x :: xs, y :: ys =>
    if x = y then IdentifiersTold xs ys
    else
      match x.all isDigit, y.all isDigit with
      | true, true => double (value x) ≠ double (value y)
      | true, false => compareText x y = .lt
      | false, true => compareText x y = .gt
      | false, false => True
  | _, _ => True

def textOrder : List (List Char) → List (List Char) → Ordering
  | x :: xs, y :: ys =>
    if x = y then textOrder xs ys
    else if x.all isDigit && y.all isDigit then compare (double (value x)) (double (value y))
    else compareText x y
  | xs, ys => compare xs.length ys.length

def Follows (o : Ordering) (a b : List (List Char)) : List Nat → List Nat → Prop
  | m :: ms, n :: ns =>
    if double m = double n then Follows o a b ms ns else compare (double m) (double n) = o
  | _, _ =>
    match a, b with
    | [], _ :: _ => o = .gt
    | _ :: _, [] => o = .lt
    | a, b => textOrder a b = o

def CoresTold (a b : List (List Char)) : List Nat → List Nat → Prop
  | m :: ms, n :: ns =>
    if m = n then CoresTold a b ms ns
    else double m ≠ double n ∨ Follows (compare m n) a b ms ns
  | _, _ => IdentifiersTold a b

/-- The first difference of two versions can be read. -/
def Told (a b : Version) : Prop :=
  CoresTold a.prerelease b.prerelease (a.core.map value) (b.core.map value)

end VibeField.Contracts.ReleaseVersions
