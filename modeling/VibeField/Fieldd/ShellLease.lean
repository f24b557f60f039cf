import VibeField.Base.Machine

/-!
# The shell lease

Connections of a shell hold the lease.  When the last one closes, the record of how it left is
written to a file, which the next attach reads, removes and returns.  Writes go one after another;
an attach waits for those queued before it, and then reads and removes the file beside whatever
else happens.
-/

namespace VibeField.Fieldd

inductive ShellLeaveReason where
  | quit
  | restart
  | userSwitch
  | update
  deriving DecidableEq, Repr

/-- `at` is `time` here. -/
structure ShellExitRecord where
  planned : Bool
  why : Option ShellLeaveReason
  time : Nat
  sessions : Option Nat
  deriving DecidableEq, Repr

/-- A record that a vacancy made, and how many attaches had begun by then. -/
structure Vacancy where
  record : ShellExitRecord
  attaches : Nat
  deriving DecidableEq, Repr

/-- What is in the file: the record of a vacancy, or what does not parse as one. -/
inductive ExitFile where
  | record (vacancy : Nat)
  | garbled
  deriving DecidableEq, Repr

/-- A queued write: the record of a vacancy, or another of the lease's files. -/
inductive LeaseWrite where
  | exit (vacancy : Nat)
  | other
  deriving DecidableEq, Repr

/-- Where `writeRecordFile` stands; `closing` closes the temporary file, after a failure too. -/
inductive WriteStage where
  | mkdir
  | opening
  | writing
  | syncing
  | closing (failed : Bool)
  | renaming
  deriving DecidableEq, Repr

/-- An `attach`: it waits until this many writes have settled, it has read the file and removes it,
or it has returned or thrown. -/
inductive Attach where
  | waiting (writes : Nat)
  | removing (file : ExitFile)
  | returned (vacancy : Option Nat)
  | thrown
  deriving DecidableEq, Repr

/-- What a connection said of itself. -/
inductive Said (C : Type) where
  | attached (connection : C)
  | left (connection : C) (why : ShellLeaveReason)
  deriving DecidableEq, Repr

/-- `landed` are the records whose write succeeded and `told` the attaches that returned a record,
each in their order; `said` is what connections said. -/
structure ShellLease (C : Type) where
  file : Option ExitFile
  holders : List C := []
  leaving : C → Option ShellLeaveReason := fun _ => none
  isSealed : Bool := false
  queue : List LeaseWrite := []
  stage : WriteStage := .mkdir
  settled : Nat := 0
  attaches : List Attach := []
  vacancies : List Vacancy := []
  landed : List Nat := []
  told : List (Nat × Nat) := []
  said : List (Said C) := []

namespace ShellLease

variable {C : Type} [DecidableEq C] (s : ShellLease C)

def setLeaving (c : C) (why : Option ShellLeaveReason) : C → Option ShellLeaveReason :=
  fun other => if other = c then why else s.leaving other

def attach (c : C) : ShellLease C :=
  { s with
    holders := if c ∈ s.holders then s.holders else s.holders ++ [c]
    leaving := s.setLeaving c none
    attaches := s.attaches ++ [.waiting (s.settled + s.queue.length)]
    said := s.said ++ [.attached c] }

def leave (c : C) (why : ShellLeaveReason) : ShellLease C :=
  if c ∈ s.holders then
    { s with leaving := s.setLeaving c (some why), said := s.said ++ [.left c why] }
  else s

def closed (c : C) (time : Nat) (sessions : Option Nat) : ShellLease C :=
  if c ∈ s.holders then
    let why := s.leaving c
    let gone := { s with holders := s.holders.filter (· ≠ c) }
    if s.isSealed then gone
    else
      let gone := { gone with leaving := s.setLeaving c none }
      if gone.holders.length > 0 then gone
      else
        { gone with
          vacancies := s.vacancies ++ [⟨⟨why.isSome, why, time, sessions⟩, s.attaches.length⟩]
          queue := s.queue ++ [.exit s.vacancies.length, .other] }
  else s

def sealLease : ShellLease C := { s with isSealed := true }

def keep : ShellLease C := { s with queue := s.queue ++ [.other] }

def settleWrite (rest : List LeaseWrite) : ShellLease C :=
  { s with queue := rest, stage := .mkdir, settled := s.settled + 1 }

/-- One file step of the write at the front. -/
def write (ok : Bool) : Option (ShellLease C) :=
  match s.queue with
  | [] => none
  | job :: rest =>
    some <|
      match s.stage, ok with
      | .mkdir, true => { s with stage := .opening }
      | .opening, true => { s with stage := .writing }
      | .writing, ok => { s with stage := if ok then .syncing else .closing true }
      | .syncing, ok => { s with stage := .closing (!ok) }
      | .closing false, true => { s with stage := .renaming }
      | .renaming, true =>
        match job with
        | .exit n =>
          { s with file := some (.record n), landed := s.landed ++ [n] }.settleWrite rest
        | .other => s.settleWrite rest
      | _, _ => s.settleWrite rest

def read (a : Nat) (ok : Bool) : Option (ShellLease C) :=
  match s.attaches[a]? with
  | some (.waiting writes) =>
    if writes ≤ s.settled then
      match ok, s.file with
      | true, some file => some { s with attaches := s.attaches.set a (.removing file) }
      | _, _ => some { s with attaches := s.attaches.set a (.returned none) }
    else none
  | _ => none

def remove (a : Nat) (ok : Bool) : Option (ShellLease C) :=
  match s.attaches[a]? with
  | some (.removing file) =>
    if ok then
      match file with
      | .record n =>
        some { s with
          file := none
          attaches := s.attaches.set a (.returned (some n))
          told := s.told ++ [(a, n)] }
      | .garbled => some { s with file := none, attaches := s.attaches.set a (.returned none) }
    else some { s with attaches := s.attaches.set a .thrown }
  | _ => none

end ShellLease

inductive LeaseEvent (C : Type) where
  | attach (connection : C)
  | leave (connection : C) (why : ShellLeaveReason)
  | closed (connection : C) (time : Nat) (sessions : Option Nat)
  | sealLease
  | keep
  | write (ok : Bool)
  | read (attach : Nat) (ok : Bool)
  | remove (attach : Nat) (ok : Bool)

variable {C : Type} [DecidableEq C]

def ShellLease.next (s : ShellLease C) : LeaseEvent C → Option (ShellLease C)
  | .attach c => some (s.attach c)
  | .leave c why => some (s.leave c why)
  | .closed c time sessions => some (s.closed c time sessions)
  | .sealLease => some s.sealLease
  | .keep => some s.keep
  | .write ok => s.write ok
  | .read a ok => s.read a ok
  | .remove a ok => s.remove a ok

/-- What the process finds: no file, one that does not parse, or the record of a vacancy of the
process before it. -/
inductive FoundFile where
  | none
  | garbled
  | record (record : ShellExitRecord)

def ShellLease.start : FoundFile → ShellLease C
  | .none => { file := .none }
  | .garbled => { file := some .garbled }
  | .record record =>
    { file := some (.record 0), vacancies := [⟨record, 0⟩], landed := [0] }

def leaseMachine (C : Type) [DecidableEq C] (found : FoundFile) :
    Machine (ShellLease C) (LeaseEvent C) where
  start := .start found
  next := ShellLease.next

end VibeField.Fieldd
