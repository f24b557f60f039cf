import VibeField.Base.Machine
import VibeField.Base.Tasks
import VibeField.Base.Dict
import VibeField.Native.LandedNames

/-!
# The running pulls

A pull is a row in a table, under its id and its digest, and a task: the node pulls the file into
the root's folder, and what became of it is settled there before the row leaves the table and the
pull's end is sent, in one region under the lock.  A teardown takes the tasks first, waits for
them, removes their files and ends the rows itself.  A sweep lists the running pulls and then
removes the temporaries in a folder that are of none of them.

A step is one region under the lock, one file operation, or one thing the node does to a pull that
it still runs.  Which file operations fail, what the node answers and when is given with the step.
-/

namespace VibeField.Native.FileTransfer

abbrev Instant := Nat

structure NativeFileTransferPullParams (Root : Type) where
  transferId : FileTransferId
  peer : String
  root : Root
  path : List Char
  digest : Blake3Hex

structure NativeFileTransferRow (Root : Type) where
  bytes : Nat
  digest : Blake3Hex
  peer : String
  root : Root
  total : Option Nat
  transferId : FileTransferId

structure Landed where
  bytes : Nat
  sha256 : List Char

/-- Why a pull ended without its file, with a message. -/
inductive PullFailure where
  | rejected (message : String)
  | unsupported (message : String)
  | timeout (message : String)
  | integrity (message : String)
  | tooLarge (message : String)
  | noSpace (message : String)
  | io (message : String)
  | nodeDown (message : String)

namespace PullFailure

def word : PullFailure → String
  | rejected _ => "rejected"
  | unsupported _ => "unsupported"
  | timeout _ => "timeout"
  | integrity _ => "integrity"
  | tooLarge _ => "too-large"
  | noSpace _ => "no-space"
  | io _ => "io"
  | nodeDown _ => "node-down"

def message : PullFailure → String
  | rejected m | unsupported m | timeout m | integrity m | tooLarge m | noSpace m | io m
  | nodeDown m => m

end PullFailure

structure IoError where
  storageFull : Bool
  text : String

def ioFailure (e : IoError) : PullFailure := if e.storageFull then .noSpace e.text else .io e.text

abbrev Outcome := Except PullFailure Landed

def isSha256 (cs : List Char) : Bool := cs.length == 64 && cs.all hex

/-- Where a pull's task is. -/
inductive Stage where
  /-- It was not polled yet. -/
  | starting
  | pulling
  /-- In `finish`: its landed file is to be removed, where it failed. -/
  | settling (outcome : Outcome)
  /-- Its temporaries are to be removed. -/
  | clearing (outcome : Outcome)
  /-- Its row and its end are left. -/
  | ending (outcome : Outcome)
  | done

/-- An accepted pull with its task. -/
structure Pull (Root : Type) where
  params : NativeFileTransferPullParams Root
  /-- When a byte last moved. -/
  activity : Instant
  stage : Stage
  aborted : Bool
  /-- The temporaries that the node wrote for it. -/
  temps : List FileName

/-- A running pull's row. -/
structure Running (Root : Type) where
  /-- Which pull it is of. -/
  pull : Nat
  row : NativeFileTransferRow Root
  fileName : List Char
  lastSent : Option Instant
  /-- `detach` took its task. -/
  taken : Bool

/-- What was answered and sent, with which pull it is of. -/
inductive Sent (Root : Type) where
  | accepted (p : Nat)
  | progress (p : Nat) (transferId : FileTransferId) (bytes total : Nat)
  | completed (p : Nat) (transferId : FileTransferId) (digest : Blake3Hex) (incoming : FileName)
      (bytes : Nat) (sha256 : List Char)
  | failed (p : Nat) (transferId : FileTransferId) (reason message : String)
  | snapshot (rows : List (NativeFileTransferRow Root))

/-- What a sweep has still to do. -/
inductive Sweep (Root : Type) where
  /-- Read the folder, with the running pulls as they were listed. -/
  | read (root : Root) (running : List FileName)
  | remove (root : Root) (name : FileName)

inductive Clear where
  | landed (p : Nat)
  | temps (p : Nat)

/-- A teardown at work: what it has still to do, and which pulls it ends at last. -/
structure Detach where
  aborts : List Nat
  joins : List Nat
  clears : List Clear
  ended : List Nat

structure State (Root : Type) where
  attached : Bool
  /-- Every pull that was accepted, by its number. -/
  pulls : List (Pull Root)
  table : Dict FileTransferId (Running Root)
  digests : Dict Blake3Hex FileTransferId
  /-- The files in the roots' folders. -/
  files : List (Root × FileName)
  detaches : List Detach
  sweeps : Tasks (Sweep Root)
  sent : List (Sent Root)

def pullsInFlight : Nat := 4

def progressMinInterval : Nat := 500

inductive FileTransferError where
  | meshDown
  | conflict (message : String)
  | exhausted

inductive Event (Root : Type) where
  | attach
  /-- The first lock region of `detach`. -/
  | detach
  | pull (params : NativeFileTransferPullParams Root) (now : Instant)
  /-- Its task is polled: whether its folder could not be made. -/
  | begin (p : Nat) (folder : Option IoError)
  /-- The node writes a temporary. -/
  | write (p : Nat) (token : List Char)
  /-- The node places a temporary as the landed file. -/
  | place (p : Nat) (name : FileName)
  /-- The node's pull answers. -/
  | resolve (p : Nat) (outcome : Outcome)
  /-- No byte came for the idle bound. -/
  | idle (p : Nat) (now : Instant)
  | settle (p : Nat) (removed : Bool)
  /-- The temporaries are removed, but for those that could not be. -/
  | clear (p : Nat) (left : List FileName)
  | finish (p : Nat)
  /-- An aborted task is dropped at an await. -/
  | drop (p : Nat)
  /-- Teardown `n` goes on. -/
  | teardown (n : Nat) (removed : Bool) (left : List FileName)
  | report (fileName : List Char) (bytes total : Nat) (now : Instant)
  /-- Reports were lost. -/
  | lag (now : Instant)
  | snapshot
  /-- A sweep of a root's folder lists the running pulls. -/
  | sweep (root : Root)
  /-- Sweep `n` goes on: whether its file operation is done. -/
  | sweepOn (n : Nat) (done : Bool)

def Pull.landed {Root : Type} (u : Pull Root) : FileName :=
  landedName u.params.digest u.params.transferId

def Pull.file {Root : Type} (u : Pull Root) : Root × FileName := (u.params.root, u.landed)

def Running.landed {Root : Type} (r : Running Root) : FileName :=
  landedName r.row.digest r.row.transferId

def lastSegment (path : List Char) : List Char :=
  (path.reverse.takeWhile fun c => c ≠ '/').reverse

def Running.new {Root : Type} (p : Nat) (params : NativeFileTransferPullParams Root) :
    Running Root where
  pull := p
  row := { bytes := 0, digest := params.digest, peer := params.peer, root := params.root
           total := none, transferId := params.transferId }
  fileName := lastSegment params.path
  lastSent := none
  taken := false

def progressDue (lastSent : Option Instant) (now : Instant) : Bool :=
  match lastSent with
  | none => true
  | some sent => now - sent ≥ progressMinInterval

def Running.note {Root : Type} (due : Bool) (bytes total : Nat) (now : Instant)
    (r : Running Root) : Running Root :=
  { r with
    row := { r.row with bytes, total := some total }
    lastSent := if due then some now else r.lastSent }

variable {Root : Type} [DecidableEq Root]

def removeTemps (files : List (Root × FileName)) (root : Root) (landed : FileName)
    (left : List FileName) : List (Root × FileName) :=
  files.filter fun f => !(f.1 = root && isTempOf f.2 landed && !left.contains f.2)

def removeFile (files : List (Root × FileName)) (file : Root × FileName) :
    List (Root × FileName) := files.filter fun f => f ≠ file

namespace State

def start (files : List (Root × FileName)) : State Root where
  attached := false
  pulls := []
  table := ∅
  digests := ∅
  files := files
  detaches := []
  sweeps := []
  sent := []

def setStage (s : State Root) (p : Nat) (stage : Stage) : State Root :=
  { s with pulls := s.pulls.modify p fun u => { u with stage } }

def pull (s : State Root) (params : NativeFileTransferPullParams Root) (now : Instant) :
    Except FileTransferError (State Root) :=
  if s.attached = false then .error .meshDown
  else if (s.table.lookup params.transferId).isSome then
    .error (.conflict "a pull under this transferId is running")
  else if (s.digests.lookup params.digest).isSome then
    .error (.conflict "a pull of this digest is running")
  else if s.table.len ≥ pullsInFlight then .error .exhausted
  else .ok
    { s with
      pulls := s.pulls ++ [{ params, activity := now, stage := .starting, aborted := false
                             temps := [] }]
      digests := s.digests.insert params.digest params.transferId
      table := s.table.insert params.transferId (.new s.pulls.length params)
      sent := s.sent ++ [.accepted s.pulls.length] }

def checked (s : State Root) (u : Pull Root) : Outcome → Outcome
  | .ok landed =>
    if u.file ∉ s.files then .error (.io "the pull answered landed, and no file is in place")
    else if !isSha256 landed.sha256 then
      .error (.io "the pull answered a SHA-256 that is not 64 lower-case hex")
    else .ok landed
  | .error failure => .error failure

def resolve (s : State Root) (p : Nat) (u : Pull Root) (outcome : Outcome) : State Root :=
  s.setStage p (.settling (s.checked u outcome))

def begin (s : State Root) (p : Nat) (u : Pull Root) : Option IoError → State Root
  | none => s.setStage p .pulling
  | some e => s.resolve p u (.error (ioFailure e))

def write (s : State Root) (p : Nat) (u : Pull Root) (token : List Char) : State Root :=
  let name := u.landed ++ '.' :: (token ++ tempSuffix)
  { s with
    pulls := s.pulls.modify p fun u => { u with temps := name :: u.temps }
    files := (u.params.root, name) :: s.files }

def place (s : State Root) (u : Pull Root) (name : FileName) : State Root :=
  { s with files := u.file :: removeFile s.files (u.params.root, name) }

def settle (s : State Root) (p : Nat) (u : Pull Root) (removed : Bool) (outcome : Outcome) :
    State Root :=
  match outcome with
  | .ok _ => s.setStage p (.clearing outcome)
  | .error _ =>
    if removed then { s with files := removeFile s.files u.file }.setStage p (.clearing outcome)
    else s.setStage p (.clearing outcome)

def clear (s : State Root) (p : Nat) (u : Pull Root) (left : List FileName) (outcome : Outcome) :
    State Root :=
  { s with files := removeTemps s.files u.params.root u.landed left }.setStage p (.ending outcome)

def endOf (p : Nat) (u : Pull Root) : Outcome → Sent Root
  | .ok landed => .completed p u.params.transferId u.params.digest u.landed landed.bytes
      landed.sha256
  | .error failure => .failed p u.params.transferId failure.word failure.message

def finish (s : State Root) (p : Nat) (u : Pull Root) (outcome : Outcome) : State Root :=
  match s.table.lookup u.params.transferId with
  | none => s.setStage p .done
  | some r =>
    if r.taken then s.setStage p .done
    else
      { s with
        table := s.table.erase u.params.transferId
        digests := s.digests.erase u.params.digest
        sent := s.sent ++ [endOf p u outcome] }.setStage p .done

/-! ### A teardown -/

def untaken (s : State Root) : List Nat :=
  (s.table.values.filter fun r => !r.taken).map Running.pull

def detach (s : State Root) : State Root :=
  { s with
    attached := false
    table := s.table.mapVals fun _ r => { r with taken := true }
    detaches := s.detaches ++ [
      { aborts := s.untaken
        joins := s.untaken
        clears := s.untaken.flatMap fun p => [.landed p, .temps p]
        ended := s.untaken }] }

def setDetach (s : State Root) (n : Nat) (d : Detach) : State Root :=
  { s with detaches := s.detaches.set n d }

def failureNodeDown : PullFailure := .nodeDown "the node went down while the pull ran"

def endRow (s : State Root) (p : Nat) : State Root :=
  match s.pulls[p]? with
  | none => s
  | some u =>
    match s.table.lookup u.params.transferId with
    | none => s
    | some r =>
      { s with
        table := s.table.erase u.params.transferId
        digests := s.digests.erase r.row.digest
        sent := s.sent ++ [endOf p u (.error failureNodeDown)] }

def clearOn (s : State Root) (removed : Bool) (left : List FileName) : Clear → State Root
  | .landed p =>
    match s.pulls[p]? with
    | some u => if removed then { s with files := removeFile s.files u.file } else s
    | none => s
  | .temps p =>
    match s.pulls[p]? with
    | some u => { s with files := removeTemps s.files u.params.root u.landed left }
    | none => s

def stageOf (s : State Root) (p : Nat) : Stage :=
  match s.pulls[p]? with
  | some u => u.stage
  | none => .done

def teardown (s : State Root) (n : Nat) (removed : Bool) (left : List FileName) (d : Detach) :
    Option (State Root) :=
  match d with
  | { aborts := p :: aborts, joins, clears, ended } => some
    ({ s with pulls := s.pulls.modify p fun u => { u with aborted := true } }.setDetach n
      { aborts, joins, clears, ended })
  | { aborts := [], joins := p :: joins, clears, ended } =>
    match s.stageOf p with
    | .done => some (s.setDetach n { aborts := [], joins, clears, ended })
    | _ => none
  | { aborts := [], joins := [], clears := c :: clears, ended } => some
    ((s.clearOn removed left c).setDetach n { aborts := [], joins := [], clears, ended })
  | { aborts := [], joins := [], clears := [], ended := [] } => none
  | { aborts := [], joins := [], clears := [], ended } => some
    ((ended.foldl endRow s).setDetach n { aborts := [], joins := [], clears := [], ended := [] })

/-! ### Progress, snapshots and sweeps -/

def touch (pulls : List (Pull Root)) (now : Instant) (rows : List (Running Root)) :
    List (Pull Root) :=
  rows.foldl (fun pulls r => pulls.modify r.pull fun u => { u with activity := now }) pulls

def noteRow (s : State Root) (r : Running Root) (bytes total : Nat) (now : Instant) :
    State Root :=
  let due := progressDue r.lastSent now
  { s with
    table := s.table.modify r.row.transferId (Running.note due bytes total now)
    sent := s.sent ++ if due then [.progress r.pull r.row.transferId bytes total] else [] }

def report (s : State Root) (fileName : List Char) (bytes total : Nat) (now : Instant) :
    State Root :=
  let named := s.table.values.filter fun r => r.fileName = fileName
  let s := { s with pulls := touch s.pulls now named }
  match named with
  | [r] => s.noteRow r bytes total now
  | _ => s

def lag (s : State Root) (now : Instant) : State Root :=
  { s with pulls := touch s.pulls now s.table.values }

def rows (s : State Root) : List (NativeFileTransferRow Root) :=
  (s.table.values.map Running.row).mergeSort fun a b =>
    !List.lex b.transferId.1 a.transferId.1 fun c d => decide (c < d)

def snapshot (s : State Root) : State Root := { s with sent := s.sent ++ [.snapshot s.rows] }

def sweep (s : State Root) (root : Root) : State Root :=
  { s with sweeps := s.sweeps.spawn [.read root (s.table.values.map Running.landed)] }

def leftovers (s : State Root) (root : Root) (running : List FileName) : List FileName :=
  (s.files.filter fun f => f.1 = root && tempSuffix.isSuffixOf f.2 &&
    !running.any fun landed => isTempOf f.2 landed).map Prod.snd

def removals (s : State Root) (root : Root) (running : List FileName) (done : Bool) :
    List (Sweep Root) :=
  if done then (s.leftovers root running).map fun name => .remove root name else []

def sweepOn (s : State Root) (n : Nat) (done : Bool) : Sweep Root → State Root
  | .read root running =>
    { s with sweeps := s.sweeps.advance n (s.removals root running done) [] }
  | .remove root name =>
    { s with
      files := if done then removeFile s.files (root, name) else s.files
      sweeps := s.sweeps.advance n [] [] }

/-! ### Steps -/

/-- What an event does to pull `p` at its stage. -/
def task (idle : Nat) (s : State Root) (p : Nat) (u : Pull Root) :
    Event Root → Stage → Option (State Root)
  | .begin _ folder, .starting => some (s.begin p u folder)
  | .write _ token, .pulling => if token = [] then none else some (s.write p u token)
  | .place _ name, .pulling =>
    if (u.params.root, name) ∈ s.files ∧ isTempOf name u.landed then some (s.place u name) else none
  | .resolve _ outcome, .pulling => some (s.resolve p u outcome)
  | .idle _ now, .pulling =>
    if now ≥ u.activity + idle then
      some (s.resolve p u (.error
        (.timeout s!"no byte came for {idle} ms, the floor's idle bound")))
    else none
  | .settle _ removed, .settling outcome => some (s.settle p u removed outcome)
  | .clear _ left, .clearing outcome => some (s.clear p u left outcome)
  | .finish _, .ending outcome => some (s.finish p u outcome)
  | .drop _, .starting | .drop _, .pulling =>
    if u.aborted then some (s.setStage p .done) else none
  | _, _ => none

def step (idle : Nat) (s : State Root) (e : Event Root) : Option (State Root) :=
  match e with
  | .attach => some { s with attached := true }
  | .detach => some s.detach
  | .pull params now => (s.pull params now).toOption
  | .begin p _ | .write p _ | .place p _ | .resolve p _ | .idle p _ | .settle p _ | .clear p _
  | .finish p | .drop p => s.pulls[p]?.bind fun u => s.task idle p u e u.stage
  | .teardown n removed left => s.detaches[n]?.bind (s.teardown n removed left)
  | .report fileName bytes total now => some (s.report fileName bytes total now)
  | .lag now => some (s.lag now)
  | .snapshot => some s.snapshot
  | .sweep root => some (s.sweep root)
  | .sweepOn n done => (s.sweeps.head n).map (s.sweepOn n done)

end State

def machine (idle : Nat) (files : List (Root × FileName)) :
    Machine (State Root) (Event Root) where
  start := .start files
  next := State.step idle

/-! ## What is claimed -/

def Sent.ends {Root : Type} (p : Nat) : Sent Root → Bool
  | .completed q _ _ _ _ _ | .failed q _ _ _ => q == p
  | _ => false

def Sent.completes {Root : Type} (p : Nat) : Sent Root → Bool
  | .completed q _ _ _ _ _ => q == p
  | _ => false

def Sent.fails {Root : Type} (p : Nat) : Sent Root → Bool
  | .failed q _ _ _ => q == p
  | _ => false

/-- Every task is done and every teardown has returned. -/
def State.Still {Root : Type} (s : State Root) : Prop :=
  (∀ u ∈ s.pulls, u.stage = .done) ∧ ∀ d ∈ s.detaches, d.ended = []

/-- Neither the landed file of a pull nor a temporary of it is there. -/
def State.Gone {Root : Type} (s : State Root) (u : Pull Root) : Prop :=
  u.file ∉ s.files ∧ ∀ name, isTempOf name u.landed = true → (u.params.root, name) ∉ s.files

def State.Fits {Root : Type} (s : State Root) (before : List (Sent Root)) : Sent Root → Prop
  | .progress p _ _ _ => ∀ o ∈ before, o.ends p = false
  | .snapshot rows => ∀ p u, s.pulls[p]? = some u → .accepted p ∈ before →
    (∀ o ∈ before, o.ends p = false) → ∃ row ∈ rows, row.transferId = u.params.transferId
  | _ => True

structure Truthful {Root : Type} (s : State Root) : Prop where
  /-- One end at most, and one where nothing is at work any more. -/
  ends : ∀ p, p < s.pulls.length → s.sent.countP (Sent.ends p) ≤ 1 ∧
    (s.Still → s.sent.countP (Sent.ends p) = 1)
  completed : ∀ p u, s.pulls[p]? = some u → (∃ o ∈ s.sent, o.completes p = true) → u.file ∈ s.files
  order : ∀ before o after, s.sent = before ++ o :: after → s.Fits before o
  rows : ∀ id r, s.table.lookup id = some r → r.row.transferId = id
  digests : ∀ id digest, s.digests.lookup digest = some id ↔
    ∃ r, s.table.lookup id = some r ∧ r.row.digest = digest
  bound : s.table.len ≤ pullsInFlight

/-- What a step sends and removes. -/
structure TruthfulStep {Root : Type} (s s' : State Root) (e : Event Root) : Prop where
  failed : ∀ p u, s.pulls[p]? = some u → (∃ o ∈ s'.sent, o.fails p = true) →
    (∀ o ∈ s.sent, o.fails p = false) → s'.Gone u
  swept : ∀ n root name, e = .sweepOn n true → s.sweeps.head n = some (.remove root name) →
    ∀ id r u, s.table.lookup id = some r → s.pulls[r.pull]? = some u → u.params.root = root →
      name ∉ u.temps

/-- No sweep that listed the running pulls without a pull is about to read, or to remove what that
pull writes. -/
def Unswept {Root : Type} (s : State Root) (u : Pull Root) (name : FileName) : Prop :=
  (∀ running, s.sweeps.Outstanding (.read u.params.root running) → u.landed ∈ running) ∧
    ¬s.sweeps.Outstanding (.remove u.params.root name)

/-- The files of a pull that fails are removed where they are to be. -/
def Removed {Root : Type} (s : State Root) (u : Pull Root) (left : List FileName) : Prop :=
  ∀ name ∈ left, isTempOf name u.landed = true → (u.params.root, name) ∉ s.files

def Orderly {Root : Type} (s : State Root) : Event Root → Prop
  | .pull params _ => ∀ p u, s.pulls[p]? = some u → (∃ o ∈ s.sent, o.completes p = true) →
    u.file ≠ (params.root, landedName params.digest params.transferId)
  | .write p token => ∀ u, s.pulls[p]? = some u →
    Unswept s u (u.landed ++ '.' :: (token ++ tempSuffix))
  | .settle p removed => ∀ u failure, s.pulls[p]? = some u → u.stage = .settling (.error failure) →
    removed = true
  | .clear p left => ∀ u failure, s.pulls[p]? = some u → u.stage = .clearing (.error failure) →
    Removed s u left
  | .teardown n removed left => ∀ d, s.detaches[n]? = some d → ∀ p,
    (d.clears.head? = some (.landed p) → removed = true) ∧
    (d.clears.head? = some (.temps p) → ∀ u, s.pulls[p]? = some u → Removed s u left)
  | _ => True

end VibeField.Native.FileTransfer
