import VibeField.Base.Machine

/-!
# The file of a system document

A write puts a whole snapshot in a temporary file, renames the current file to the last good copy
and the temporary one to the current file.  One write runs at a time; a `persist` called while one
waits joins it, and its snapshot is taken when it starts.  A load reads the newest copy the document
takes, and moves a torn one aside.

Snapshots are numbered in the order they are taken.  Every step may fail, or be the last before a
crash, and while no process runs the medium may damage a copy.
-/

namespace VibeField.Fieldd

/-- A torn copy is read and refused by the document, an unreadable one is not read. -/
inductive CopyState where
  | good
  | torn
  | unreadable
  deriving DecidableEq, Repr

structure DocCopy where
  snapshot : Nat
  state : CopyState
  deriving DecidableEq, Repr

inductive Which where
  | current
  | lastGood
  deriving DecidableEq, Repr

/-- Where `load` stands: at `#sweepTmp`, a `readFile` or the rename of a torn file. -/
inductive DocLoadStage where
  | sweeping
  | reading (which : Which)
  | moving (which : Which)
  deriving DecidableEq, Repr

/-- Where `#write` stands; a file that was opened is closed after a failure too. -/
inductive DocWriteStage where
  | mkdir
  | opening
  | writing
  | syncing
  | closing (failed : Bool)
  | keeping
  | landing
  | cleaning
  | dirOpening
  | dirSyncing
  | dirClosing (failed : Bool)
  deriving DecidableEq, Repr

/-- A write and, for each `persist` that waits for it, the snapshots taken before that call. -/
structure DocWrite where
  snapshot : Nat
  asked : List Nat
  stage : DocWriteStage
  deriving DecidableEq, Repr

inductive DocProcess where
  | down
  | loading (stage : DocLoadStage)
  | ready
  deriving DecidableEq, Repr

/-- `inPlace`: the last load left a damaged copy at the current file's path.  `resolved` are the
snapshots whose write succeeded, `answers` what the loads returned (`none` is `"none"`), and
`damaged` the snapshots whose copy the medium damaged. -/
structure SystemDocFile where
  current : Option DocCopy := none
  lastGood : Option DocCopy := none
  tmp : Option DocCopy := none
  aside : List DocCopy := []
  process : DocProcess := .down
  inPlace : Bool := false
  dirReady : Bool := false
  waiting : Option (List Nat) := none
  running : Option DocWrite := none
  taken : Nat := 0
  resolved : List Nat := []
  answers : List (Option Nat) := []
  damaged : List Nat := []
  deriving DecidableEq, Repr

namespace SystemDocFile

variable (s : SystemDocFile)

def file : Which → Option DocCopy
  | .current => s.current
  | .lastGood => s.lastGood

def setFile (which : Which) (copy : Option DocCopy) : SystemDocFile :=
  match which with
  | .current => { s with current := copy }
  | .lastGood => { s with lastGood := copy }

def boot : Option SystemDocFile :=
  match s.process with
  | .down => some { s with process := .loading .sweeping, dirReady := false, inPlace := false }
  | _ => none

def reload : Option SystemDocFile :=
  match s.process, s.waiting, s.running with
  | .ready, none, none => some { s with process := .loading .sweeping, inPlace := false }
  | _, _, _ => none

def answer (copy : Option Nat) : SystemDocFile :=
  { s with process := .ready, answers := s.answers ++ [copy] }

def nextCopy : Which → SystemDocFile
  | .current => { s with process := .loading (.reading .lastGood) }
  | .lastGood => s.answer none

def leave (which : Which) : SystemDocFile :=
  { s with inPlace := s.inPlace || decide (which = Which.current) }.nextCopy which

/-- One file step of `load`; a read fails on an unreadable file only. -/
def load (ok : Bool) : Option SystemDocFile :=
  match s.process with
  | .loading .sweeping =>
    some { s with tmp := if ok then none else s.tmp, process := .loading (.reading .current) }
  | .loading (.reading which) =>
    some <|
      match s.file which with
      | none => s.nextCopy which
      | some ⟨n, .good⟩ => s.answer (some n)
      | some ⟨_, .torn⟩ => { s with process := .loading (.moving which) }
      | some ⟨_, .unreadable⟩ => s.leave which
  | .loading (.moving which) =>
    some <|
      if ok then
        ({ s with aside := s.aside ++ (s.file which).toList }.setFile which none).nextCopy which
      else s.leave which
  | _ => none

def persist : Option SystemDocFile :=
  match s.process with
  | .ready => some { s with waiting := some (s.waiting.getD [] ++ [s.taken]) }
  | _ => none

def begin : Option SystemDocFile :=
  match s.running, s.waiting with
  | none, some asked =>
    some
      { s with
        waiting := none
        running := some ⟨s.taken, asked, if s.dirReady then .opening else .mkdir⟩
        taken := s.taken + 1 }
  | _, _ => none

def goTo (w : DocWrite) (stage : DocWriteStage) : SystemDocFile :=
  { s with running := some { w with stage } }

def reject : SystemDocFile := { s with running := none }

def resolve (w : DocWrite) : SystemDocFile :=
  { s with running := none, resolved := s.resolved ++ [w.snapshot] }

def keepCurrent : SystemDocFile :=
  match s.current with
  | none => s
  | some copy => { s with current := none, lastGood := some copy }

/-- One file step of `#write`; `posix` is `process.platform !== "win32"`. -/
def write (posix ok : Bool) : Option SystemDocFile :=
  s.running.map fun w =>
    match w.stage, ok with
    | .mkdir, true => { s with dirReady := true }.goTo w .opening
    | .mkdir, false => s.reject
    | .opening, true => { s with tmp := some ⟨w.snapshot, .torn⟩ }.goTo w .writing
    | .writing, true => { s with tmp := some ⟨w.snapshot, .good⟩ }.goTo w .syncing
    | .writing, false => s.goTo w (.closing true)
    | .syncing, ok => s.goTo w (.closing (!ok))
    | .closing false, true => s.goTo w .keeping
    | .keeping, true => s.keepCurrent.goTo w .landing
    | .landing, true =>
      let landed := { s with current := s.tmp, tmp := none }
      if posix then landed.goTo w .dirOpening else landed.resolve w
    | .opening, false => s.goTo w .cleaning
    | .closing _, _ => s.goTo w .cleaning
    | .keeping, false => s.goTo w .cleaning
    | .landing, false => s.goTo w .cleaning
    | .cleaning, ok => { s with tmp := if ok then none else s.tmp }.reject
    | .dirOpening, true => s.goTo w .dirSyncing
    | .dirOpening, false => s.reject
    | .dirSyncing, ok => s.goTo w (.dirClosing (!ok))
    | .dirClosing false, true => s.resolve w
    | .dirClosing _, _ => s.reject

def crash : SystemDocFile :=
  { s with process := .down, waiting := none, running := none }

def damage (which : Which) (state : CopyState) : Option SystemDocFile :=
  match s.process, s.file which with
  | .down, some copy =>
    some ({ s with damaged := s.damaged ++ [copy.snapshot] }.setFile which
      (some { copy with state }))
  | _, _ => none

end SystemDocFile

/-- `ok` says whether the file step succeeds. -/
inductive DocFileEvent where
  | boot
  | reload
  | load (ok : Bool)
  | persist
  | begin
  | write (ok : Bool)
  | crash
  | tear (which : Which)
  | fault (which : Which)
  deriving DecidableEq, Repr

def docFileMachine (posix : Bool) : Machine SystemDocFile DocFileEvent where
  start := {}
  next s
    | .boot => s.boot
    | .reload => s.reload
    | .load ok => s.load ok
    | .persist => s.persist
    | .begin => s.begin
    | .write ok => s.write posix ok
    | .crash => some s.crash
    | .tear which => s.damage which .torn
    | .fault which => s.damage which .unreadable

end VibeField.Fieldd
