import VibeField.Base.Machine
import VibeField.Base.Tasks

/-!
# The named roots a node serves

The file transfer holds the last declared set of roots with the login it was declared under, and a
record of the roots the attached node serves.  An attach serves the held set again and a roots call
replaces it; each then works one root at a time, asking the node and writing to the record.

A step is one region under the lock or one thing the node does, so calls interleave between them.
Each attach is of a node of its own.  Which folders can be made and what the node refuses is given
with the step.
-/

namespace VibeField.Native.NamedRoots

inductive FileTransferRootName where
  | driveObjects
  deriving DecidableEq

structure NativeFileTransferRoot (Name : Type) where
  name : Name
  registered : Bool
  reason : Option String

def refused {Name : Type} (name : Name) (word : String) : NativeFileTransferRoot Name :=
  { name, registered := false, reason := some word }

def registered {Name : Type} (name : Name) : NativeFileTransferRoot Name :=
  { name, registered := true, reason := none }

def rootUngated : String := "ungated"

def failedIo : String := "io"

def failedNoSpace : String := "no-space"

inductive IoError where
  | storageFull
  | other

def ioWord : IoError → String
  | .storageFull => failedNoSpace
  | .other => failedIo

/-- Why a node is taken down: `teardown_node`'s word. -/
inductive Teardown where
  | gateChanged
  | renewed
  | sidecarExited
  | stopped
  | retired
  deriving DecidableEq

structure Attached (Name : Type) where
  id : Nat
  serving : List Name

structure Held (Name Login : Type) where
  login : Option Login
  roots : List Name

structure Gate (Login : Type) where
  gated : Bool
  login : Option Login

/-- What a call has still to do about a root. -/
inductive Work (Name : Type) where
  /-- `Core::serve`, up to the node's answer. -/
  | serve (name : Name)
  /-- The node answers `serve_root`. -/
  | take (name : Name)
  | record (name : Name)
  /-- The node answers `unserve_root`. -/
  | unserve (name : Name)
  | forget (name : Name)
  deriving DecidableEq

/-- On which node. -/
structure Item (Name : Type) where
  node : Nat
  work : Work Name
  deriving DecidableEq

structure State (Name Login : Type) where
  node : Option (Attached Name)
  attaches : Nat
  held : Option (Held Name Login)
  /-- The calls, with what each has still to do. -/
  calls : Tasks (Item Name)
  /-- The roots each node really serves. -/
  serves : Nat → List Name
  gate : Gate Login
  /-- The roots whose last serve on a node was refused, since a set was last declared there. -/
  refusals : Nat → List Name
  /-- What each call answered. -/
  answers : List (Nat × NativeFileTransferRoot Name)

inductive Event (Name Login : Type) where
  /-- The lock region of `attach`. -/
  | attach (gated : Bool) (login : Option Login)
  | detach (reason : Teardown)
  /-- The lock region of `roots`. -/
  | roots (roots : List Name) (gated : Bool) (login : Option Login)
  /-- Call `n` goes on: what became of the root's folders, and whether the node takes the root. -/
  | act (n : Nat) (folders : Option IoError) (takes : Bool)

variable {Name Login : Type} [DecidableEq Name] [DecidableEq Login]

def without (l : List Name) (name : Name) : List Name := l.filter fun other => other ≠ name

def setAt (f : Nat → List Name) (node : Nat) (l : List Name) : Nat → List Name :=
  fun n => if n = node then l else f n

namespace State

def start : State Name Login where
  node := none
  attaches := 0
  held := none
  calls := []
  serves _ := []
  gate := { gated := false, login := none }
  refusals _ := []
  answers := []

def onRecord (s : State Name Login) (node : Nat) (f : List Name → List Name) : State Name Login :=
  match s.node with
  | some a => if a.id = node then { s with node := some { a with serving := f a.serving } } else s
  | none => s

def records (s : State Name Login) (node : Nat) (name : Name) : Bool :=
  match s.node with
  | some a => a.id = node && a.serving.contains name
  | none => false

def advance (s : State Name Login) (n : Nat) (front : List (Item Name)) : State Name Login :=
  { s with calls := s.calls.advance n front [] }

def refuse (s : State Name Login) (n node : Nat) (name : Name) (word : String) :
    State Name Login :=
  { s with
    refusals := setAt s.refusals node (name :: s.refusals node)
    answers := s.answers ++ [(n, refused name word)] }

def register (s : State Name Login) (n node : Nat) (name : Name) : State Name Login :=
  { s with
    refusals := setAt s.refusals node (without (s.refusals node) name)
    answers := s.answers ++ [(n, registered name)] }

def attachRoots (held : Option (Held Name Login)) (gate : Gate Login) : List Name :=
  match held with
  | some held => if gate.gated ∧ held.login = gate.login then held.roots else []
  | none => []

def attach (s : State Name Login) (gated : Bool) (login : Option Login) : State Name Login :=
  { s with
    attaches := s.attaches + 1
    node := some { id := s.attaches + 1, serving := [] }
    gate := { gated, login }
    calls := s.calls.spawn ((attachRoots s.held { gated, login }).map fun name =>
      { node := s.attaches + 1, work := .serve name }) }

def detach (s : State Name Login) (reason : Teardown) : State Name Login :=
  { s with
    held := if reason = .stopped ∨ reason = .retired then none else s.held
    node := none }

def drops (a : Attached Name) (roots : List Name) (gated : Bool) : List Name :=
  a.serving.filter fun name => !gated || !roots.contains name

def rootsCall (a : Attached Name) (roots : List Name) (gated : Bool) : List (Item Name) :=
  ((drops a roots gated).flatMap fun name =>
    [{ node := a.id, work := .unserve name }, { node := a.id, work := .forget name }]) ++
    if gated then roots.map fun name => { node := a.id, work := .serve name } else []

def ungated (n : Nat) (roots : List Name) (gated : Bool) :
    List (Nat × NativeFileTransferRoot Name) :=
  if gated then [] else roots.map fun name => (n, refused name rootUngated)

def roots (s : State Name Login) (roots : List Name) (gated : Bool) (login : Option Login) :
    Option (State Name Login) :=
  match s.node with
  -- `MeshDown`
  | none => none
  | some a => some
    { s with
      held := some { login, roots }
      gate := { gated, login }
      calls := s.calls.spawn (rootsCall a roots gated)
      refusals := setAt s.refusals a.id []
      answers := s.answers ++ ungated s.calls.length roots gated }

def serve (s : State Name Login) (n node : Nat) (name : Name) (folders : Option IoError) :
    State Name Login :=
  match folders with
  | some e => (s.refuse n node name (ioWord e)).advance n []
  | none =>
    if s.records node name then (s.register n node name).advance n []
    else s.advance n [{ node, work := .take name }]

def take (s : State Name Login) (n node : Nat) (name : Name) (takes : Bool) : State Name Login :=
  if takes then
    ({ s with serves := setAt s.serves node (name :: s.serves node) }.register n node name).advance n
      [{ node, work := .record name }]
  else (s.refuse n node name failedIo).advance n []

def work (s : State Name Login) (n node : Nat) (folders : Option IoError) (takes : Bool) :
    Work Name → State Name Login
  | .serve name => s.serve n node name folders
  | .take name => s.take n node name takes
  | .record name => (s.onRecord node fun serving => name :: without serving name).advance n []
  | .unserve name =>
    { s with serves := setAt s.serves node (without (s.serves node) name) }.advance n []
  | .forget name => (s.onRecord node fun serving => without serving name).advance n []

def step (s : State Name Login) : Event Name Login → Option (State Name Login)
  | .attach gated login => some (s.attach gated login)
  | .detach reason => some (s.detach reason)
  | .roots names gated login => s.roots names gated login
  | .act n folders takes => (s.calls.head n).map fun i => s.work n i.node folders takes i.work

def target (s : State Name Login) : List Name := attachRoots s.held s.gate

end State

def machine (Name Login : Type) [DecidableEq Name] [DecidableEq Login] :
    Machine (State Name Login) (Event Name Login) where
  start := .start
  next := State.step

/-! ## What is claimed -/

structure Serves (s : State Name Login) (a : Attached Name) : Prop where
  node : ∀ name, name ∈ s.serves a.id ↔ name ∈ s.target ∧ name ∉ s.refusals a.id
  record : ∀ name, name ∈ a.serving ↔ name ∈ s.serves a.id

def Work.serves : Work Name → Option Name
  | .serve name | .take name | .record name => some name
  | .unserve _ | .forget _ => none

def Work.stops : Work Name → Option Name
  | .unserve name | .forget name => some name
  | .serve _ | .take _ | .record _ => none

/-- A refusal of a root on a node that does not serve it. -/
def Refusable (s : State Name Login) (folders : Option IoError) (takes : Bool) (i : Item Name) :
    Prop :=
  match i.work, folders, takes with
  | .serve name, some _, _ | .take name, _, false => name ∉ s.serves i.node
  | _, _, _ => True

def Orderly (s : State Name Login) : Event Name Login → Prop
  | .roots roots gated _ =>
    ∀ a, s.node = some a → ∀ i, s.calls.Outstanding i → i.node = a.id →
      (∀ name, i.work.serves = some name → gated = true ∧ name ∈ roots) ∧
      (∀ name, i.work.stops = some name → ¬(gated = true ∧ name ∈ roots))
  | .act n folders takes => ∀ i, s.calls.head n = some i → Refusable s folders takes i
  | _ => True

end VibeField.Native.NamedRoots
