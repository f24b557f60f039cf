import Mathlib.Data.List.Sort
import VibeField.Base.Machine
import VibeField.Base.Prog

/-!
# The segment writer

A process appends lines to one active file.  Where the day has changed or the file would grow too
large, the file is renamed to a closed segment, and old segments are deleted.  A lock file keeps
other writers away.

What each file operation does is dealt from outside: it succeeds, it fails, or the process dies in
it, for a write after some of its bytes; so are the times that clocks and files show.  A segment
keeps the number of files that were closed before it, and `log` the lines that were written whole
with the number of their file.
-/

namespace VibeField.Native

structure LogLine where
  text : List UInt8
  plain : (10 : UInt8) ∉ text

def LogLine.bytes (line : LogLine) : List UInt8 := line.text ++ [10]

inductive ErrorKind where
  | storageFull
  | permissionDenied
  | readOnlyFilesystem
  | alreadyExists
  | other
  deriving DecidableEq, Repr

inductive WriterOperation where
  | opening
  | write
  | rename
  | flush
  | close
  deriving DecidableEq, Repr

inductive FailureKind where
  | enospc
  | eacces
  | readOnly
  | rename
  | write
  | flush
  | close
  | writerConflict
  | unknown
  deriving DecidableEq, Repr

structure WriterError where
  operation : WriterOperation
  kind : FailureKind
  completedRecords : Nat := 0
  completedBytes : Nat := 0
  rotations : Nat := 0
  cleanupDeletions : Nat := 0
  deriving DecidableEq, Repr

structure WriterResult where
  records : Nat := 0
  bytes : Nat := 0
  rotations : Nat := 0
  cleanupDeletions : Nat := 0
  deriving DecidableEq, Repr

def WriterError.having (error : WriterError) (result : WriterResult) : WriterError :=
  { error with
    completedRecords := result.records
    completedBytes := result.bytes
    rotations := result.rotations
    cleanupDeletions := result.cleanupDeletions }

structure RetentionPolicy where
  maxSegmentBytes : Nat := 10 * 1024 * 1024
  maxClosedSegments : Nat := 6
  maxAgeMs : Nat := 7 * 24 * 60 * 60 * 1000
  categoryCapBytes : Nat := 250 * 1024 * 1024
  deriving DecidableEq, Repr

/-- `utcDay` and `closedStamp` format a time. -/
structure SegmentWriterOptions where
  bootId : List Char
  retention : RetentionPolicy := {}
  utcDay : Nat → List Char
  closedStamp : Nat → List Char

/-- What a file operation does: `bytes` is how much a write that fails has written. -/
inductive Cue where
  | ok
  | fail (kind : ErrorKind) (bytes : Nat)
  | crash (bytes : Nat)
  deriving DecidableEq, Repr

/-- A file of the directory other than the active one; `number` where it is one of this log's. -/
structure Segment where
  name : List Char
  bytes : List UInt8
  number : Option Nat
  deriving DecidableEq, Repr

/-- The process named in a lock file, where one can be read. -/
structure LockFile where
  identity : Option Nat
  modified : Nat
  deriving DecidableEq, Repr

/-- The files, the writer, and what is dealt.  `isOpen` and `held` say whether the writer's `active`
and `lock` are there; `number` counts the files closed so far, and `unlocks` says whether the writer
can remove its own lock. -/
structure SegmentWriter where
  dir : List Segment
  active : Option (List UInt8) := none
  lock : Option LockFile := none
  log : List (Nat × LogLine) := []
  number : Nat := 0
  overwrote : Bool := false
  isOpen : Bool := false
  held : Bool := false
  activeBytes : Nat := 0
  activeDay : List Char := []
  rotationSequence : Nat := 0
  pid : Nat := 0
  alive : Nat → Bool := fun _ => false
  cues : List Cue := []
  clock : List Nat := []
  epoch : Nat := 0
  unlocks : Bool := true

namespace SegmentWriter

open Prog

abbrev Step (α : Type) := Prog SegmentWriter ErrorKind α

abbrev Task (α : Type) := Prog SegmentWriter WriterError α

section Dealt

variable {ε : Type}

def cue : Prog SegmentWriter ε Cue := do
  let w ← get
  match w.cues with
  | [] => pure .ok
  | c :: rest =>
    modify fun w => { w with cues := rest }
    pure c

def now : Prog SegmentWriter ε Nat := do
  let w ← get
  match w.clock with
  | [] => pure 0
  | t :: rest =>
    modify fun w => { w with clock := rest }
    pure t

end Dealt

def step : Step Unit := do
  match ← cue with
  | .ok => pure ()
  | .fail kind _ => fail kind
  | .crash _ => crash

def fromIo (operation : WriterOperation) (kind : ErrorKind) : WriterError where
  operation
  kind :=
    match kind with
    | .storageFull => .enospc
    | .permissionDenied => .eacces
    | .readOnlyFilesystem => .readOnly
    | _ =>
      match operation with
      | .rename => .rename
      | .write => .write
      | .flush => .flush
      | .close => .close
      | .opening => .unknown

def io {α : Type} (operation : WriterOperation) (p : Step α) : Task α :=
  p.mapErr (fromIo operation)

/-! ## Names -/

def streamPrefix : List Char := "field-native.".toList

def padded (n : Nat) : List Char :=
  let digits := Nat.toDigits 10 n
  List.replicate (4 - digits.length) '0' ++ digits

def safeBootId (value : List Char) : List Char :=
  let value := (value.map fun c => if c.isAlphanum || c == '_' || c == '-' then c else '_').take 64
  if value.isEmpty then "unknown".toList else value

def closedName (opts : SegmentWriterOptions) (time sequence : Nat) (reason : List Char) :
    List Char :=
  streamPrefix ++ opts.closedStamp time ++ '.' :: safeBootId opts.bootId ++
    '.' :: padded sequence ++ '.' :: reason ++ ".ndjson".toList

def isClosedSegment (name : List Char) : Bool :=
  match name.splitOn '.' with
  | [stream, stamp, boot, sequence, reason, extension] =>
    extension == "ndjson".toList && !stream.isEmpty &&
      stream.all (fun c => c.isLower || c.isDigit || c == '-') &&
      stamp.length == 19 && stamp.getLast? == some 'Z' &&
      (stamp.take 8).all Char.isDigit && stamp[8]? == some 'T' &&
      ((stamp.drop 9).take 9).all Char.isDigit &&
      !boot.isEmpty && boot.all (fun c => c.isAlphanum || c == '_' || c == '-') &&
      sequence.length == 4 && sequence.all Char.isDigit &&
      (reason == "size".toList || reason == "utc-day".toList ||
        reason == "partial-recovery".toList)
  | _ => false

/-! ## The lock -/

def createPrivateLock : Step Unit := do
  step
  let w ← get
  if w.lock.isSome then fail .alreadyExists
  else modify fun w => { w with lock := some ⟨none, w.epoch⟩ }

def writeIdentity : Step Unit := do
  let wrote := fun (w : SegmentWriter) => { w with lock := some ⟨some w.pid, w.epoch⟩ }
  match ← cue with
  | .ok => modify wrote
  | .fail kind bytes =>
    if 0 < bytes then modify wrote
    fail kind
  | .crash bytes =>
    if 0 < bytes then modify wrote
    crash

def removeLock : Step Unit := do
  step
  modify fun w => { w with lock := none }

def unlock : Task Unit := do
  match ← cue with
  | .crash _ => crash
  | _ => modify fun w => { w with lock := if w.unlocks then none else w.lock }

def readIdentity (lock : LockFile) : Task (Option Nat) := do
  match ← attempt step with
  | .ok () => pure lock.identity
  | .error _ => pure none

def lockIsStale : Task Bool := do
  match ← attempt step with
  | .error _ => pure true
  | .ok () =>
    let w ← get
    match w.lock with
    | none => pure true
    | some lock =>
      match ← readIdentity lock with
      | some pid => pure (!w.alive pid)
      | none => pure (decide (30000 < w.epoch - lock.modified))

def acquireLoop : Nat → Task Unit
  | 0 => fail { operation := .opening, kind := .writerConflict }
  | n + 1 => do
    match ← attempt createPrivateLock with
    | .ok () =>
      match ← attempt (do writeIdentity; step) with
      | .error error =>
        unlock
        fail (fromIo .opening error)
      | .ok () => modify fun w => { w with held := true }
    | .error .alreadyExists =>
      if ← lockIsStale then
        io .opening removeLock
        acquireLoop n
      else fail { operation := .opening, kind := .writerConflict }
    | .error error => fail (fromIo .opening error)

def acquireLock : Task Unit := do
  let w ← get
  if w.held then pure () else acquireLoop 2

def releaseLock : Task Unit := do
  let w ← get
  if w.held then
    modify fun w => { w with held := false }
    unlock
  else pure ()

/-! ## The active file -/

def invalidateActive : Task Unit := modify fun w => { w with isOpen := false }

def openPrivateAppend : Step Unit := do
  step
  modify fun w => { w with active := some (w.active.getD []) }

def activeLength : Step Nat := do
  step
  let w ← get
  pure (w.active.getD []).length

def endsWithNewline (bytes : Nat) : Step Bool := do
  if bytes = 0 then pure true
  else
    step
    let w ← get
    pure ((w.active.getD []).getLast? == some 10)

def put (bytes : List UInt8) (w : SegmentWriter) : SegmentWriter :=
  { w with active := some (w.active.getD [] ++ bytes) }

def putLine (line : LogLine) (w : SegmentWriter) : SegmentWriter :=
  { w.put line.bytes with log := w.log ++ [(w.number, line)] }

def writeAll (line : LogLine) : Step Unit := do
  let w ← get
  if w.isOpen then
    match ← cue with
    | .ok => modify (putLine line)
    | .fail kind bytes =>
      modify (put (line.text.take bytes))
      fail kind
    | .crash bytes =>
      if line.text.length < bytes then modify (putLine line)
      else modify (put (line.text.take bytes))
      crash
  else fail .other

def renameActive (closed : List Char) : Step Unit := do
  step
  let w ← get
  match w.active with
  | none => fail .other
  | some bytes =>
    modify fun w =>
      { w with
        dir := w.dir.filter (fun segment => segment.name ≠ closed) ++
          [⟨closed, bytes, some w.number⟩]
        overwrote := w.overwrote || w.dir.any fun segment => segment.name == closed
        active := none
        number := w.number + 1 }

def nextClosedLoop (opts : SegmentWriterOptions) (reason : List Char) : Nat → Task (List Char)
  | 0 => fail { operation := .rename, kind := .rename }
  | n + 1 => do
    modify fun w => { w with rotationSequence := w.rotationSequence + 1 }
    let time ← now
    let w ← get
    let path := closedName opts time w.rotationSequence reason
    io .rename step
    if w.dir.any fun segment => segment.name == path then nextClosedLoop opts reason n
    else pure path

def nextClosedPath (opts : SegmentWriterOptions) (reason : List Char) : Task (List Char) :=
  nextClosedLoop opts reason 10000

/-! ## Retention -/

structure ClosedSegment where
  name : List Char
  modifiedMs : Nat
  bytes : Nat
  deriving DecidableEq, Repr

def readClosed : List Segment → Task (Nat × List ClosedSegment)
  | [] => pure (0, [])
  | segment :: rest => do
    io .write step
    let (total, closed) ← readClosed rest
    if ".ndjson".toList.isSuffixOf segment.name then
      let modifiedMs ← now
      let total := total + segment.bytes.length
      if isClosedSegment segment.name then
        pure (total, ⟨segment.name, modifiedMs, segment.bytes.length⟩ :: closed)
      else pure (total, closed)
    else pure (total, closed)

def ClosedSegment.before (left right : ClosedSegment) : Prop :=
  left.modifiedMs < right.modifiedMs ∨
    left.modifiedMs = right.modifiedMs ∧ ¬ right.name < left.name

instance : DecidableRel ClosedSegment.before := fun left right =>
  inferInstanceAs (Decidable (left.modifiedMs < right.modifiedMs ∨
    left.modifiedMs = right.modifiedMs ∧ ¬ right.name < left.name))

def capCategory (cap : Nat) : Nat → List ClosedSegment → List (List Char) → List (List Char)
  | _, [], remove => remove
  | total, segment :: rest, remove =>
    if total ≤ cap then remove
    else if remove.contains segment.name then capCategory cap total rest remove
    else capCategory cap (total - segment.bytes) rest (segment.name :: remove)

def removals (policy : RetentionPolicy) (time total : Nat) (closed : List ClosedSegment) :
    List (List Char) :=
  let own := closed.filter fun segment => streamPrefix.isPrefixOf segment.name
  let excess := own.length - policy.maxClosedSegments
  let old := closed.filter fun segment => policy.maxAgeMs < time - segment.modifiedMs
  let remove := ((own.take excess) ++ old).map ClosedSegment.name
  let gone := closed.filter fun segment => remove.contains segment.name
  capCategory policy.categoryCapBytes
    (gone.foldl (fun total segment => total - segment.bytes) total) closed remove

def removeSegments (remove : List (List Char)) : List ClosedSegment → Nat → Task Nat
  | [], deletions => pure deletions
  | segment :: rest, deletions => do
    if remove.contains segment.name then
      io .write step
      modify fun w => { w with dir := w.dir.filter fun kept => kept.name ≠ segment.name }
      removeSegments remove rest (deletions + 1)
    else removeSegments remove rest deletions

def cleanup (opts : SegmentWriterOptions) : Task Nat := do
  let time ← now
  io .write step
  let w ← get
  let (total, closed) ← readClosed w.dir
  let closed := closed.insertionSort ClosedSegment.before
  let total := total + (w.active.getD []).length
  removeSegments (removals opts.retention time total closed) closed 0

/-! ## Rotation -/

def reopenAfterRotationFailure : Task Unit := do
  match ← attempt openPrivateAppend with
  | .error _ => modify fun w => { w with isOpen := false }
  | .ok () =>
    modify fun w => { w with isOpen := true }
    match ← attempt activeLength with
    | .ok length => modify fun w => { w with activeBytes := length }
    | .error _ => modify fun w => { w with activeBytes := 0 }

def nextActive (opts : SegmentWriterOptions) : Task Nat := do
  match ← attempt openPrivateAppend with
  | .error error =>
    modify fun w => { w with isOpen := false, activeBytes := 0 }
    fail (fromIo .opening error)
  | .ok () =>
    modify fun w => { w with isOpen := true }
    io .opening step
    let time ← now
    modify fun w => { w with activeBytes := 0, activeDay := opts.utcDay time }
    cleanup opts

def rotate (opts : SegmentWriterOptions) (reason : List Char) : Task Nat := do
  let w ← get
  if w.isOpen then
    modify fun w => { w with isOpen := false }
    let closedPath ← nextClosedPath opts reason
    match ← attempt step with
    | .error error =>
      modify fun w => { w with isOpen := true }
      fail (fromIo .flush error)
    | .ok () =>
      match ← attempt (renameActive closedPath) with
      | .error error =>
        reopenAfterRotationFailure
        fail (fromIo .rename error)
      | .ok () => nextActive opts
  else fail { operation := .rename, kind := .rename }

/-! ## The calls -/

def openFile (opts : SegmentWriterOptions) : Task WriterResult := do
  io .opening step
  io .opening openPrivateAppend
  io .opening step
  let length ← io .opening activeLength
  let time ← now
  modify fun w => { w with activeBytes := length, activeDay := opts.utcDay time }
  let whole ← io .opening (endsWithNewline length)
  modify fun w => { w with isOpen := true }
  if whole then pure {}
  else
    let cleanupDeletions ← rotate opts "partial-recovery".toList
    pure { rotations := 1, cleanupDeletions }

def openInner (opts : SegmentWriterOptions) : Task WriterResult := do
  io .opening step
  acquireLock
  openFile opts

def openLog (opts : SegmentWriterOptions) : Task WriterResult := do
  let w ← get
  if w.isOpen then pure {}
  else
    match ← attempt (openInner opts) with
    | .ok result => pure result
    | .error error =>
      invalidateActive
      fail error

/-- The file is closed where the line is of another day or would make it too large. -/
def makeRoom (opts : SegmentWriterOptions) (line : LogLine) (result : WriterResult) :
    Task WriterResult := do
  let time ← now
  let currentDay := opts.utcDay time
  let w ← get
  if 0 < w.activeBytes ∧ (w.activeDay ≠ currentDay ∨
      opts.retention.maxSegmentBytes < w.activeBytes + line.bytes.length) then
    match ← attempt (rotate opts
        (if w.activeDay ≠ currentDay then "utc-day".toList else "size".toList)) with
    | .ok deletions =>
      pure
        { result with
          rotations := result.rotations + 1
          cleanupDeletions := result.cleanupDeletions + deletions }
    | .error error => fail (error.having result)
  else pure result

/-- `append` from the line it has come to, with what it has completed. -/
def appendFrom (opts : SegmentWriterOptions) : List LogLine → WriterResult → Task WriterResult
  | [], result => pure result
  | line :: rest, result => do
    let result ← makeRoom opts line result
    match ← attempt (writeAll line) with
    | .error kind =>
      invalidateActive
      fail ((fromIo .write kind).having result)
    | .ok () =>
      modify fun w => { w with activeBytes := w.activeBytes + line.bytes.length }
      appendFrom opts rest
        { result with
          records := result.records + 1
          bytes := result.bytes + line.bytes.length }

def append (opts : SegmentWriterOptions) (lines : List LogLine) : Task WriterResult := do
  let opened ← openLog opts
  appendFrom opts lines opened

def flush : Task Unit := do
  let w ← get
  if w.isOpen then io .flush step else pure ()

def syncActive : Task (Except WriterError Unit) := do
  let w ← get
  if w.isOpen then
    modify fun w => { w with isOpen := false }
    attempt (io .close step)
  else pure (.ok ())

def close : Task Unit := do
  let failure ← syncActive
  releaseLock
  match failure with
  | .ok () => pure ()
  | .error error => fail error

def fresh (w : SegmentWriter) : SegmentWriter :=
  { w with
    isOpen := false
    held := false
    activeBytes := 0
    activeDay := []
    rotationSequence := 0 }

def drop : Task Unit := do
  let _ ← syncActive
  releaseLock
  modify fresh

end SegmentWriter

/-! ## Runs -/

inductive WriterCall where
  | opening
  | append (lines : List LogLine)
  | flush
  | close
  | drop

/-- What is dealt to a call: what its file operations do, and what clocks and files show. -/
structure Deal where
  cues : List Cue := []
  clock : List Nat := []
  epoch : Nat := 0
  unlocks : Bool := true

namespace SegmentWriter

open Prog

def call (opts : SegmentWriterOptions) : WriterCall → Task WriterResult
  | .opening => openLog opts
  | .append lines => append opts lines
  | .flush => do
    flush
    pure {}
  | .close => do
    close
    pure {}
  | .drop => do
    drop
    pure {}

def deal (w : SegmentWriter) (d : Deal) : SegmentWriter :=
  { w with cues := d.cues, clock := d.clock, epoch := d.epoch, unlocks := d.unlocks }

end SegmentWriter

structure LogRun where
  writer : SegmentWriter
  running : Bool

inductive LogEvent where
  | boot (pid : Nat) (alive : Nat → Bool)
  | call (c : WriterCall) (d : Deal)
  | crash

namespace LogRun

def boot (s : LogRun) (pid : Nat) (alive : Nat → Bool) : Option LogRun :=
  if s.running then none
  else if alive pid then some ⟨{ s.writer.fresh with pid, alive }, true⟩
  else none

def call (opts : SegmentWriterOptions) (s : LogRun) (c : WriterCall) (d : Deal) : Option LogRun :=
  if s.running then
    some <|
      match SegmentWriter.call opts c (s.writer.deal d) with
      | (w, .crashed) => ⟨w, false⟩
      | (w, _) => ⟨w, true⟩
  else none

end LogRun

def logMachine (opts : SegmentWriterOptions) (others : List (List Char × List UInt8)) :
    Machine LogRun LogEvent where
  start := ⟨{ dir := others.map fun file => ⟨file.1, file.2, none⟩ }, false⟩
  next s
    | .boot pid alive => s.boot pid alive
    | .call c d => s.call opts c d
    | .crash => if s.running then some { s with running := false } else none

end VibeField.Native
