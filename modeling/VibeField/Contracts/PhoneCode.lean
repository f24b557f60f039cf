import VibeField.Base.Dict
import VibeField.Base.UriUnits

/-!
# The phone code

The code a Mac draws is `vibefield://add-phone?login=…&from=…`.  The TypeScript side writes it and
reads it, on texts of UTF-16 units; the Swift side reads it, on Unicode scalars.
-/

namespace VibeField.Contracts.PhoneCode

open Utf16 (encode codePoints unit)
open UriUnits (encodeURIComponent decodeURIComponent)

abbrev Text := List UInt16

def PHONE_CODE_SCHEME : String := "vibefield"

def PHONE_CODE_HOST : String := "add-phone"

def PHONE_CODE_MAX_TEXT : Nat := 1024

def PHONE_CODE_MAX_LOGIN : Nat := 254

def PHONE_CODE_MAX_FROM : Nat := 64

inductive Refusal where
  | notACode
  | tooLong
  | duplicate
  | noLogin
  | badLogin
  | noFrom
  | badFrom
  deriving DecidableEq

structure Code (α : Type) where
  login : List α
  fromName : List α
  deriving DecidableEq

def codePrefix : List Char := (PHONE_CODE_SCHEME ++ "://" ++ PHONE_CODE_HOST).toList

/-! ## TypeScript -/

def encodePhoneCode (code : Code UInt16) : Option Text :=
  (encodeURIComponent code.login).bind fun login =>
    (encodeURIComponent code.fromName).map fun fromName =>
      encode codePrefix ++ encode "?login=".toList ++ login ++ encode "&from=".toList ++ fromName

def TRIMMED : List Nat := [0x20, 0x09, 0x0a, 0x0b, 0x0c, 0x0d]

def SPACE : List Nat :=
  [0x09, 0x0a, 0x0b, 0x0c, 0x0d, 0x20, 0xa0, 0x1680, 0x2000, 0x2001, 0x2002, 0x2003, 0x2004, 0x2005,
    0x2006, 0x2007, 0x2008, 0x2009, 0x200a, 0x2028, 0x2029, 0x202f, 0x205f, 0x3000, 0xfeff]

def isUnsafe (scalar : Nat) : Bool :=
  scalar ≤ 0x1f || (0x7f ≤ scalar && scalar ≤ 0x9f) || scalar == 0x061c || scalar == 0x2028 ||
    scalar == 0x2029 || scalar == 0x200e || scalar == 0x200f ||
    (0x202a ≤ scalar && scalar ≤ 0x202e) || (0x2066 ≤ scalar && scalar ≤ 0x2069)

def trimmedUnit (u : UInt16) : Bool := TRIMMED.contains u.toNat

def trim (text : Text) : Text :=
  ((text.dropWhile trimmedUnit).reverse.dropWhile trimmedUnit).reverse

def asciiLower (u : UInt16) : UInt16 :=
  if 65 ≤ u.toNat && u.toNat ≤ 90 then UInt16.ofNat (u.toNat + 32) else u

def cutAt {α : Type} [DecidableEq α] (a : α) (l : List α) : List α × List α :=
  (l.takeWhile fun b => b ≠ a, (l.dropWhile fun b => b ≠ a).drop 1)

def dropSlash (rest : Text) : Text := if rest.head? = some (unit '/') then rest.drop 1 else rest

def queryOf (rest : Text) : Option Text :=
  if rest.head? = some (unit '?') then some (cutAt (unit '#') (rest.drop 1)).1
  else if rest = [] ∨ rest.head? = some (unit '#') then some []
  else none

def readFields : Dict Text Text → List Text → Except Refusal (Dict Text Text)
  | fields, [] => .ok fields
  | fields, pair :: pairs =>
    if pair = [] then readFields fields pairs
    else
      match decodeURIComponent (cutAt (unit '=') pair).1,
        decodeURIComponent (cutAt (unit '=') pair).2 with
      | some name, some value =>
        if name ≠ encode "login".toList ∧ name ≠ encode "from".toList then readFields fields pairs
        else if (fields.lookup name).isSome then .error .duplicate
        else readFields (fields.insert name value) pairs
      | _, _ => .error .notACode

def badLogin (login : Text) : Bool :=
  PHONE_CODE_MAX_LOGIN < (codePoints login).length ||
    (codePoints login).any (fun p => isUnsafe p || SPACE.contains p) ||
    !login.contains (unit '@') || login.head? == some (unit '@') ||
    login.getLast? == some (unit '@')

def badFrom (fromName : Text) : Bool :=
  PHONE_CODE_MAX_FROM < (codePoints fromName).length || (codePoints fromName).any isUnsafe

def readCode (fields : Dict Text Text) : Except Refusal (Code UInt16) :=
  let login := trim ((fields.lookup (encode "login".toList)).getD [])
  if login = [] then .error .noLogin
  else if badLogin login then .error .badLogin
  else
    let fromName := trim ((fields.lookup (encode "from".toList)).getD [])
    if fromName = [] then .error .noFrom
    else if badFrom fromName then .error .badFrom
    else .ok { login, fromName }

def parseQuery (rest : Text) : Except Refusal (Code UInt16) :=
  match queryOf rest with
  | none => .error .notACode
  | some query =>
    match readFields ∅ (query.splitOn (unit '&')) with
    | .error why => .error why
    | .ok fields => readCode fields

def parsePhoneCode (text : Text) : Except Refusal (Code UInt16) :=
  let trimmed := trim text
  if PHONE_CODE_MAX_TEXT < (codePoints trimmed).length then .error .tooLong
  else if (trimmed.take codePrefix.length).map asciiLower ≠ encode codePrefix then .error .notACode
  else parseQuery (dropSlash (trimmed.drop codePrefix.length))

def phoneCodeForLogin (login : Text) : List (Option Text) → Option (Option Text)
  | [] => some none
  | none :: names => phoneCodeForLogin login names
  | some name :: names =>
    match encodePhoneCode { login, fromName := name } with
    | none => none
    | some code =>
      match parsePhoneCode code with
      | .ok _ => some (some code)
      | .error _ => phoneCodeForLogin login names

def phoneCodeFor (login : Option Text) (names : List (Option Text)) : Option (Option Text) :=
  match login with
  | none => some none
  | some login => phoneCodeForLogin login names

/-! ## Swift -/

namespace Swift

def trimmable : List Nat := [0x20, 0x09, 0x0A, 0x0B, 0x0C, 0x0D]

def space : List Nat :=
  [0x09, 0x0A, 0x0B, 0x0C, 0x0D, 0x20, 0xA0, 0x1680, 0x2000, 0x2001, 0x2002, 0x2003, 0x2004, 0x2005,
    0x2006, 0x2007, 0x2008, 0x2009, 0x200A, 0x2028, 0x2029, 0x202F, 0x205F, 0x3000, 0xFEFF]

def isUnsafe (scalar : Char) : Bool :=
  let v := scalar.toNat
  v ≤ 0x1F || (0x7F ≤ v && v ≤ 0x9F) || v == 0x061C || v == 0x2028 || v == 0x2029 || v == 0x200E ||
    v == 0x200F || (0x202A ≤ v && v ≤ 0x202E) || (0x2066 ≤ v && v ≤ 0x2069)

def trimmedScalar (c : Char) : Bool := trimmable.contains c.toNat

def trim (scalars : List Char) : List Char :=
  ((scalars.dropWhile trimmedScalar).reverse.dropWhile trimmedScalar).reverse

def asciiLower (scalar : Char) : Char :=
  if 0x41 ≤ scalar.toNat && scalar.toNat ≤ 0x5A then Char.ofNat (scalar.toNat + 0x20) else scalar

def dropSlash (rest : List Char) : List Char := if rest.head? = some '/' then rest.drop 1 else rest

def queryOf (rest : List Char) : Option (List Char) :=
  if rest.head? = some '?' then some ((rest.drop 1).takeWhile fun c => c ≠ '#')
  else if rest ≠ [] ∧ rest.head? ≠ some '#' then none
  else some []

section

-- `removingPercentEncoding`
variable (removing : List Char → Option (List Char))

def readFields :
    Dict (List Char) (List Char) → List (List Char) → Except Refusal (Dict (List Char) (List Char))
  | fields, [] => .ok fields
  | fields, pair :: pairs =>
    match removing (cutAt '=' pair).1, removing (cutAt '=' pair).2 with
    | some name, some value =>
      if name = "login".toList ∨ name = "from".toList then
        if fields.lookup name = none then readFields (fields.insert name value) pairs
        else .error .duplicate
      else readFields fields pairs
    | _, _ => .error .notACode

def goodLogin (login : List Char) : Bool :=
  login.length ≤ PHONE_CODE_MAX_LOGIN &&
    !login.any (fun c => isUnsafe c || space.contains c.toNat) &&
    login.contains '@' && login.head? != some '@' && login.getLast? != some '@'

def goodFrom (fromName : List Char) : Bool :=
  fromName.length ≤ PHONE_CODE_MAX_FROM && !fromName.any isUnsafe

def readCode (fields : Dict (List Char) (List Char)) : Except Refusal (Code Char) :=
  let login := trim ((fields.lookup "login".toList).getD [])
  if login = [] then .error .noLogin
  else if goodLogin login then
    let fromName := trim ((fields.lookup "from".toList).getD [])
    if fromName = [] then .error .noFrom
    else if goodFrom fromName then .ok { login, fromName }
    else .error .badFrom
  else .error .badLogin

def parseQuery (rest : List Char) : Except Refusal (Code Char) :=
  match queryOf rest with
  | none => .error .notACode
  | some query =>
    match readFields removing ∅ ((query.splitOn '&').filter fun pair => !pair.isEmpty) with
    | .error why => .error why
    | .ok fields => readCode fields

def parse (text : List Char) : Except Refusal (Code Char) :=
  let trimmed := trim text
  if trimmed.length ≤ PHONE_CODE_MAX_TEXT then
    if codePrefix.length ≤ trimmed.length ∧
        (trimmed.take codePrefix.length).map asciiLower = codePrefix then
      parseQuery removing (dropSlash (trimmed.drop codePrefix.length))
    else .error .notACode
  else .error .tooLong

end

end Swift

/-! ## What is claimed -/

/-- A name that makes a code that is read back. -/
def Makes (login name : Text) : Prop :=
  ∃ code, encodePhoneCode { login, fromName := name } = some code ∧
    ∃ read, parsePhoneCode code = .ok read

/-- A code is returned exactly when some name makes one, and it is that of the first such name and
is read back. -/
def Trip (login : Option Text) (names : List (Option Text)) : Prop :=
  ∃ r, phoneCodeFor login names = some r ∧
    (r.isSome = true ↔ ∃ l, login = some l ∧ ∃ name, some name ∈ names ∧ Makes l name) ∧
    ∀ code, r = some code → ∃ l before name after, login = some l ∧
      names = before ++ some name :: after ∧ (∀ name', some name' ∈ before → ¬Makes l name') ∧
      encodePhoneCode { login := l, fromName := name } = some code ∧
      parsePhoneCode code = .ok { login := trim l, fromName := trim name }

/-- Both readers answer a text of scalars alike. -/
def Alike (removing : List Char → Option (List Char)) (text : List Char) : Prop :=
  parsePhoneCode (encode text) =
    (Swift.parse removing text).map fun code =>
      { login := encode code.login, fromName := encode code.fromName }

/-- `removingPercentEncoding` answers as `decodeURIComponent` does. -/
def Removes (removing : List Char → Option (List Char)) : Prop :=
  ∀ text, (removing text).map encode = decodeURIComponent (encode text)

/-- What the rules ask of a login and a name. -/
structure Readable (login name : Text) : Prop where
  wellFormed : Utf16.wellFormed login = true ∧ Utf16.wellFormed name = true
  length : ∀ code, encodePhoneCode { login, fromName := name } = some code →
    code.length ≤ PHONE_CODE_MAX_TEXT
  login : trim login ≠ [] ∧ badLogin (trim login) = false
  fromName : trim name ≠ [] ∧ badFrom (trim name) = false

/-- No name that is tried, and no login that is tried with one, has a surrogate standing alone. -/
def Tried (login : Option Text) (names : List (Option Text)) : Prop :=
  ∀ l before name after, login = some l → names = before ++ some name :: after →
    (∀ name', some name' ∈ before → ¬Readable l name') →
    Utf16.wellFormed l = true ∧ Utf16.wellFormed name = true

end VibeField.Contracts.PhoneCode
