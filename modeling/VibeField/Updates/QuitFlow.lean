import VibeField.Base.Inevitable

/-!
# The quit flow

Every quit is deferred, and the process exits after a teardown.  An update's plan is armed, and the
next quit prepares it: the answer installs it, aborts, or exits.  An install that was handed off is
ended by Electron's own quit, which may come while `install` runs, or by the timer, or by a report
that it failed.

Each armed plan has its own record, which lives on in the awaits that hold it.  What runs between
two awaits is one step, but `install` is a call of its own: until it returns, other calls come but
no timer and no answer.
-/

namespace VibeField.Updates.QuitFlow

/-- What `prepare` answered, or that it threw. -/
inductive Prepared where
  | install
  | abort (reason : String)
  | exit (relaunch : Bool) (reason : String)
  | threw (reason : String)
  deriving DecidableEq

inductive Phase where
  | armed
  | preparing
  | installing
  | stalling
  deriving DecidableEq

structure Update where
  phase : Phase
  timer : Bool
  /-- `prepare` has still to answer. -/
  awaitsPrepare : Bool
  /-- `installStalled` has still to settle. -/
  awaitsStalled : Bool

def Update.fresh : Update where
  phase := .armed
  timer := false
  awaitsPrepare := false
  awaitsStalled := false

inductive Told where
  | prepare (plan : Nat)
  | answered (plan : Nat) (prepared : Prepared)
  | install (plan : Nat)
  | aborted (plan : Nat) (reason : String)
  /-- The exit that an answer asked for. -/
  | exits (plan : Nat)
  | relaunch (plan : Nat)
  | installStalled (plan : Nat) (reason : String)
  | closeWindows
  | dispose
  | fatal
  | exit (code : Nat)
  deriving DecidableEq

structure State where
  updates : List Update
  update : Option Nat
  /-- The code of the exit under way. -/
  exiting : Option Nat
  /-- The teardown has settled. -/
  exited : Bool
  /-- The plan whose `install` has not returned. -/
  inside : Option Nat
  told : List Told

inductive Event where
  | willQuit
  | armUpdate
  | updateInstallFailed (reason : String)
  | fatal
  /-- `prepare` settles. -/
  | prepared (plan : Nat) (prepared : Prepared)
  /-- `install` returns, or throws. -/
  | installReturns (threw : Option String)
  | timer (plan : Nat)
  /-- `installStalled` settles. -/
  | stalled (plan : Nat)
  /-- `dispose` settles, or its bound is over. -/
  | torndown

namespace State

def start : State where
  updates := []
  update := none
  exiting := none
  exited := false
  inside := none
  told := []

def tell (s : State) (t : Told) : State := { s with told := s.told ++ [t] }

def setUpdate (s : State) (u : Nat) (f : Update → Update) : State :=
  { s with updates := s.updates.modify u f }

def runOnce (s : State) (code : Nat) : State :=
  match s.exiting with
  | some _ => s
  | none => (({ s with exiting := some code }).tell .closeWindows).tell .dispose

def clearUpdate (s : State) (u : Nat) : State :=
  { s.setUpdate u fun update => { update with timer := false } with
    update := if s.update = some u then none else s.update }

def stall (s : State) (u : Nat) (reason : String) : State :=
  match s.updates[u]? with
  | none => s
  | some update =>
    if update.phase = .installing then
      (s.setUpdate u fun update =>
        { update with phase := .stalling, timer := false, awaitsStalled := true }).tell
          (.installStalled u reason)
    else s

def quitUpdate (s : State) (u : Nat) : State :=
  match s.updates[u]? with
  | none => s
  | some update =>
    match update.phase with
    | .installing => (s.clearUpdate u).runOnce 0
    | .armed =>
      ((s.setUpdate u fun update => { update with phase := .preparing, awaitsPrepare := true }).tell
        .closeWindows).tell (.prepare u)
    | _ => s

def willQuit (s : State) : State :=
  match s.update, s.exiting with
  | some u, none => s.quitUpdate u
  | _, _ => s.runOnce 0

def fatal (s : State) : State :=
  match s.update with
  | some u => ((s.tell .fatal).clearUpdate u).runOnce 1
  | none => (s.tell .fatal).runOnce 1

def mayArm (s : State) : Bool := s.exiting.isNone && s.update.isNone

def armUpdate (s : State) : State :=
  if s.mayArm then
    { s with updates := s.updates ++ [.fresh], update := some s.updates.length }
  else s

def updateInstallFailed (s : State) (reason : String) : State :=
  match s.update with
  | some u => s.stall u reason
  | none => s

/-- The rest of `step`, after `prepare` has answered. -/
def prepared (s : State) (u : Nat) (p : Prepared) : State :=
  let s := (s.setUpdate u fun update => { update with awaitsPrepare := false }).tell (.answered u p)
  if s.update = some u then
    match p with
    | .abort reason => (s.clearUpdate u).tell (.aborted u reason)
    | .exit relaunch _ =>
      let s := s.clearUpdate u
      let s := if relaunch then s.tell (.relaunch u) else s
      (s.tell (.exits u)).runOnce 0
    | .threw _ => ((s.clearUpdate u).tell (.exits u)).runOnce 0
    | .install =>
      { (s.setUpdate u fun update => { update with phase := .installing, timer := true }).tell
          (.install u) with
        inside := some u }
  else s

def installReturns (s : State) (u : Nat) (threw : Option String) : State :=
  let s := { s with inside := none }
  match threw with
  | none => s
  | some reason => s.stall u reason

def timer (s : State) (u : Nat) : State :=
  (s.setUpdate u fun update => { update with timer := false }).stall u
    "the install did not quit the app in time"

def stalled (s : State) (u : Nat) : State :=
  ((s.setUpdate u fun update => { update with awaitsStalled := false }).clearUpdate u).runOnce 0

def torndown (s : State) (code : Nat) : State := { s with exited := true }.tell (.exit code)

def step (s : State) : Event → Option State
  | .willQuit => some s.willQuit
  | .armUpdate => some s.armUpdate
  | .updateInstallFailed reason => some (s.updateInstallFailed reason)
  | .fatal => some s.fatal
  | .prepared u p =>
    if s.inside = none ∧ (s.updates[u]?).any Update.awaitsPrepare then some (s.prepared u p)
    else none
  | .installReturns threw => s.inside.map fun u => s.installReturns u threw
  | .timer u =>
    if s.inside = none ∧ (s.updates[u]?).any Update.timer then some (s.timer u) else none
  | .stalled u =>
    if s.inside = none ∧ (s.updates[u]?).any Update.awaitsStalled then some (s.stalled u) else none
  | .torndown =>
    match s.exiting with
    | some code => if s.inside = none ∧ s.exited = false then some (s.torndown code) else none
    | none => none

end State

def machine : Machine State Event where
  start := .start
  next := State.step

/-! ## What is claimed -/

def Told.isExit : Told → Bool
  | .exit _ => true
  | _ => false

def Told.isOutcome (plan : Nat) : Told → Bool
  | .aborted u _ | .exits u | .install u => u == plan
  | _ => false

def Inner : Event → Prop
  | .installReturns _ | .timer _ | .stalled _ | .torndown => True
  | _ => False

def Exited (s : State) : Prop := ∃ t ∈ s.told, t.isExit = true

/-- An exit follows without any further call. -/
def ExitFollows (s : State) : Prop := machine.Inevitable Inner Exited s

/-- No plan is armed and nothing is exiting: a new quit exits, and a new plan is armed and is
prepared by the next quit. -/
structure Free (s : State) : Prop where
  quit : ∀ s', machine.next s .willQuit = some s' → ExitFollows s'
  arm : ∀ s', machine.next s .armUpdate = some s' → ∃ u, s'.update = some u ∧
    ∀ s'', machine.next s' .willQuit = some s'' → s''.told = s.told ++ [.closeWindows, .prepare u]

structure Once (s : State) : Prop where
  exit : s.told.countP Told.isExit ≤ 1
  install : ∀ u, s.told.count (.install u) ≤ 1 ∧
    (.install u ∈ s.told → .answered u .install ∈ s.told)
  relaunch : ∀ u, s.told.count (.relaunch u) ≤ 1 ∧
    (.relaunch u ∈ s.told → ∃ reason, .answered u (.exit true reason) ∈ s.told)
  /-- A plan whose `prepare` answered is aborted, exits or is installed, once. -/
  outcome : ∀ u, s.told.countP (Told.isOutcome u) ≤ 1 ∧
    (.fatal ∉ s.told → ∀ p, .answered u p ∈ s.told → s.told.countP (Told.isOutcome u) = 1)
  /-- Where nothing is under way, as after an abort. -/
  free : s.update = none → s.exiting = none → Free s
  /-- Past preparing. -/
  follows : ∀ u update, s.update = some u → s.updates[u]? = some update →
    update.phase = .installing ∨ update.phase = .stalling → ExitFollows s
  exiting : s.exiting.isSome = true → ExitFollows s
  /-- An abort leaves nothing under way. -/
  aborted : ∀ u reason s', s.update = some u →
    machine.next s (.prepared u (.abort reason)) = some s' → Free s'

end VibeField.Updates.QuitFlow
