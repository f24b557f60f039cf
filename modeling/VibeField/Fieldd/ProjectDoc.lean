import VibeField.Base.Comparison
import VibeField.Base.LastWriter
import VibeField.Base.Machine
import VibeField.Base.Utf16
import Mathlib.Algebra.Order.Ring.Rat

/-!
# Project records

What a person does on projects is kept in maps of the account's library, which every desktop holds
a replica of.  A write is checked, applied to one replica and read back, after any merges, as
records, links, splits and dismissals.

How a recipe is written as text and read back is a parameter.
-/

namespace VibeField.Fieldd.ProjectDoc

abbrev Text := List Char

/-- `PROJECT_MAPS`, and the canvases' maps, which stand in the same document. -/
inductive MapName where
  | created
  | anchors
  | acted
  | links
  | splits
  | dismissals
  | names
  | inks
  | recipes
  | pinned
  | hidden
  | canvases
  deriving DecidableEq

inductive Value where
  | text (t : Text)
  | number (n : ℚ)
  | flag (b : Bool)
  deriving DecidableEq

abbrev Key := MapName × Text

abbrev Doc (P : Type) := List (Write Key Value P)

inductive ProjectWrite (R : Type) where
  | create (record : Text) (createdAt : ℚ) (ink : Option ℚ)
  | anchor (record anchor : Text) (time : ℚ)
  | acted (record place : Text) (time : ℚ)
  | name (record name : Text)
  | pinned (record : Text) (value : Bool)
  | hidden (record : Text) (value : Bool)
  | recipe (record : Text) (recipe : R)
  | link (a b : Text) (time : ℚ)
  | split (place notRecord : Text) (time : ℚ)
  | dismiss (a b : Text) (time : ℚ)
  deriving DecidableEq

def sep : Char := Char.ofNat 0

def byString : Comparison Text where
  le a b := Utf16.le (Utf16.encode a) (Utf16.encode b)
  total a b := (Bool.or_eq_true _ _).mp (Utf16.le_total (Utf16.encode a) (Utf16.encode b))
  trans a b c := Utf16.le_trans (Utf16.encode a) (Utf16.encode b) (Utf16.encode c)

def byNumber : Comparison ℚ := Comparison.order

def strength (anchor : Text) : Nat :=
  if "root:".toList.isPrefixOf anchor then 0
  else if "remote:".toList.isPrefixOf anchor then 1
  else 2

def isTime : Value → Option ℚ
  | .number n => some n
  | _ => none

/-! ## Writing -/

def part (id : Text) (what : String) : Except String Unit :=
  if id = [] ∨ sep ∈ id then .error ("a project " ++ what ++ " must be a non-empty id")
  else .ok ()

def joined (a b : Text) : Text := a ++ sep :: b

def sorted (a b : Text) : Text × Text := if byString.le a b then (a, b) else (b, a)

def pair (a b : Text) : Text := joined (sorted a b).1 (sorted a b).2

variable {R P : Type}

def check : ProjectWrite R → Except String Unit
  | .link a b _ => do
    part a "place"
    part b "place"
  | .split place notRecord _ => do
    part place "place"
    part notRecord "record"
  | .dismiss a b _ => do
    part a "record"
    part b "record"
  | .anchor record anchor _ => do
    part anchor "anchor"
    part record "record"
  | .acted record place _ => do
    part place "place"
    part record "record"
  | .create record _ _ => part record "record"
  | .name record _ => part record "record"
  | .pinned record _ => part record "record"
  | .hidden record _ => part record "record"
  | .recipe record _ => part record "record"

section Apply

variable [LinearOrder P] (stringify : R → Text) (p : P)

structure Applied (P : Type) where
  doc : Doc P
  moved : Nat

def get (doc : Doc P) (m : MapName) (key : Text) : Option Value := Write.read doc (m, key)

def stamped (doc : Doc P) (m : MapName) (key : Text) (value : Value) : Write Key Value P :=
  { key := (m, key), value := value, lamport := Write.nextLamport doc, peer := p }

def set (d : Applied P) (m : MapName) (key : Text) (value : Value) : Applied P :=
  if get d.doc m key = some value then d
  else { doc := stamped p d.doc m key value :: d.doc, moved := d.moved + 1 }

def once (d : Applied P) (m : MapName) (key : Text) (value : ℚ) : Applied P :=
  if get d.doc m key = none then set p d m key (.number value) else d

def applyWrite (d : Applied P) : ProjectWrite R → Applied P
  | .create record createdAt ink =>
    if get d.doc .created record ≠ none then d
    else
      let d := set p d .created record (.number createdAt)
      match ink with
      | some ink => set p d .inks record (.number ink)
      | none => d
  | .anchor record anchor time => once p d .anchors (joined record anchor) time
  | .acted record place time =>
    match (get d.doc .acted (joined record place)).bind isTime with
    | none => set p d .acted (joined record place) (.number time)
    | some before =>
      if before < time then set p d .acted (joined record place) (.number time) else d
  | .name record name => set p d .names record (.text name)
  | .pinned record value => set p d .pinned record (.flag value)
  | .hidden record value => set p d .hidden record (.flag value)
  | .recipe record recipe => set p d .recipes record (.text (stringify recipe))
  | .link a b time => set p d .links (pair a b) (.number time)
  | .split place notRecord time => set p d .splits (joined place notRecord) (.number time)
  | .dismiss a b time => once p d .dismissals (pair a b) time

def applyProjectWrites (doc : Doc P) (writes : List (ProjectWrite R)) :
    Except String (Applied P) := do
  writes.forM check
  return writes.foldl (applyWrite stringify p) { doc := doc, moved := 0 }

end Apply

/-! ## Reading -/

def halves (key : Text) : Option (Text × Text) :=
  match key.dropWhile (· != sep) with
  | [] => none
  | _ :: b =>
    let a := key.takeWhile (· != sep)
    if a = [] ∨ b = [] ∨ sep ∈ b then none else some (a, b)

structure GroupingRecord (R : Type) where
  id : Text
  anchors : List Text
  name : Option Text
  ink : Option Nat
  recipe : Option R
  pinned : Option Bool
  hidden : Option Bool
  places : List (Text × ℚ)
  createdAt : ℚ
  deriving DecidableEq

structure GroupingLink where
  a : Text
  b : Text
  time : ℚ
  deriving DecidableEq

structure GroupingSplit where
  place : Text
  notRecord : Text
  time : ℚ
  deriving DecidableEq

structure GroupingIntents (R : Type) where
  records : List (GroupingRecord R)
  links : List GroupingLink
  splits : List GroupingSplit
  dismissals : List (Text × Text)
  deriving DecidableEq

section Read

variable [LinearOrder P] (parse : Text → Option R) (doc : Doc P)

def entries (m : MapName) : List (Text × Value) :=
  (Write.entries doc).filterMap fun e => if e.1.1 = m then some (e.1.2, e.2) else none

def created : List (Text × ℚ) :=
  (entries doc .created).filterMap fun e => (isTime e.2).map fun time => (e.1, time)

def timed (m : MapName) : List (Text × Text × ℚ) :=
  (entries doc m).filterMap fun e =>
    (halves e.1).bind fun h => (isTime e.2).map fun time => (h.1, h.2, time)

def ofRecord (m : MapName) (id : Text) : List (Text × ℚ) :=
  ((timed doc m).filter fun e => e.1 ∈ (created doc).map Prod.fst).filterMap fun e =>
    if e.1 = id then some e.2 else none

def nameOf : Option Value → Option Text
  | some (.text name) => if name.length > 0 then some name else none
  | _ => none

def inkOf : Option Value → Option Nat
  | some (.number ink) => if ink.isInt ∧ 0 ≤ ink then some ink.num.toNat else none
  | _ => none

def recipeOf : Option Value → Option R
  | some (.text text) => parse text
  | _ => none

def flagOf : Option Value → Option Bool
  | some (.flag b) => some b
  | _ => none

def byAnchor : Comparison (Text × ℚ) :=
  (byNumber.on Prod.snd).thenBy
    (((Comparison.order.on strength).on Prod.fst).thenBy (byString.on Prod.fst))

def recordOf (id : Text) (createdAt : ℚ) : GroupingRecord R where
  id := id
  anchors := (byAnchor.sort (ofRecord doc .anchors id)).map Prod.fst
  name := nameOf (get doc .names id)
  ink := inkOf (get doc .inks id)
  recipe := recipeOf parse (get doc .recipes id)
  pinned := flagOf (get doc .pinned id)
  hidden := flagOf (get doc .hidden id)
  places := (byString.on Prod.fst).sort (ofRecord doc .acted id)
  createdAt := createdAt

def byAge : Comparison (GroupingRecord R) :=
  (byNumber.on GroupingRecord.createdAt).thenBy (byString.on GroupingRecord.id)

def byLink : Comparison GroupingLink :=
  (byNumber.on GroupingLink.time).thenBy
    ((byString.on GroupingLink.a).thenBy (byString.on GroupingLink.b))

def bySplit : Comparison GroupingSplit :=
  (byNumber.on GroupingSplit.time).thenBy
    ((byString.on GroupingSplit.place).thenBy (byString.on GroupingSplit.notRecord))

def byPair : Comparison (Text × Text) := (byString.on Prod.fst).thenBy (byString.on Prod.snd)

def readProjectIntents : GroupingIntents R where
  records := byAge.sort ((created doc).map fun e => recordOf parse doc e.1 e.2)
  links := byLink.sort ((timed doc .links).map fun e => ⟨e.1, e.2.1, e.2.2⟩)
  splits := bySplit.sort ((timed doc .splits).map fun e => ⟨e.1, e.2.1, e.2.2⟩)
  dismissals := byPair.sort ((timed doc .dismissals).map fun e => (e.1, e.2.1))

end Read

/-! ## Desktops -/

structure State (R P : Type) where
  docs : P → Doc P
  /-- What the desktops have written, in order. -/
  written : List (ProjectWrite R)

inductive Event (R P : Type) where
  /-- A desktop applies a batch. -/
  | applied (p : P) (writes : List (ProjectWrite R))
  /-- It writes to a canvas map of the document. -/
  | canvas (p : P) (key : Text) (value : Value)
  /-- It imports some of the writes another desktop's replica holds. -/
  | received (p q : P) (chosen : Doc P)

section Machine

variable [LinearOrder P] (stringify : R → Text)

def State.act (p : P) (s : State R P) (w : ProjectWrite R) : State R P :=
  let doc := (applyWrite stringify p { doc := s.docs p, moved := 0 } w).doc
  { docs := Function.update s.docs p doc, written := s.written ++ [w] }

def State.next (s : State R P) : Event R P → Option (State R P)
  | .applied p writes =>
    match writes.forM check with
    | .error _ => some s
    | .ok _ => some (writes.foldl (State.act stringify p) s)
  | .canvas p key value =>
    let doc := stamped p (s.docs p) .canvases key value :: s.docs p
    some { s with docs := Function.update s.docs p doc }
  | .received p q chosen =>
    if ∀ w ∈ chosen, w ∈ s.docs q then
      some { s with docs := Function.update s.docs p (chosen ++ s.docs p) }
    else none

def machine (R P : Type) [LinearOrder P] (stringify : R → Text) :
    Machine (State R P) (Event R P) where
  start := { docs := fun _ => [], written := [] }
  next := State.next stringify

end Machine

end VibeField.Fieldd.ProjectDoc
