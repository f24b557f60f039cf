import VibeField.Base.Machine
import VibeField.Base.Ordered

/-!
# The serve set and its reconcile

Callers replace the desired set of serves, and passes place it on the mesh node, one pass after
another, with the removals that callers ask for between them.  A pass lists what the node serves
and removes the strays it has a record of.  Then it goes over the desired set: what the node lists
under a serve's id is adopted or replaced, and any other serve is added.

A step is what a caller does, a restart of the node, what the operation at work does until its next
request, or one request with its answer.  The node answers one request after another, and a
request that fails may have been done all the same.
-/

namespace VibeField.Fieldd.Serves

abbrev Name := List Char

inductive Scheme where
  | http
  | https
  deriving DecidableEq

inductive Target where
  | port (port : Nat) (scheme : Option Scheme)
  | dir (path : String) (fallback : Bool)
  | routes
  deriving DecidableEq

structure Route where
  pathPrefix : String
  targetPort : Nat
  deriving DecidableEq

inductive SecretDoor where
  | product
  | freeway
  deriving DecidableEq

structure ServeSpec where
  serveId : Option Name
  name : Name
  listenPort : Option Nat
  target : Target
  routes : Option (List Route)
  previewDir : Option String
  allow : Option (List String)
  tls : Option Bool
  pathSecret : Option String
  secretDoor : Option SecretDoor
  deriving DecidableEq

def serveKey (spec : ServeSpec) : Name := spec.serveId.getD spec.name

def artifactServePrefix : Name := ['a', 'r', 't', 'i', 'f', 'a', 'c', 't', '-']

def artifact (id : Name) : Bool := artifactServePrefix.isPrefixOf id

inductive Status where
  | active
  | pending
  | error
  deriving DecidableEq

/-- What the last pass made of a serve. -/
structure ServeState where
  spec : ServeSpec
  url : Option String
  status : Status
  error : Option String

def ServeState.active (spec : ServeSpec) (url : Option String) : ServeState where
  spec := spec
  url := url.filter fun url => url ≠ ""
  status := .active
  error := none

def ServeState.failed (spec : ServeSpec) (message : String) : ServeState where
  spec := spec
  url := none
  status := .error
  error := some message

def ServeState.pending (spec : ServeSpec) : ServeState where
  spec := spec
  url := none
  status := .pending
  error := none

/-- One serve as `native.mesh.serve.list` projects it. -/
structure ListedServe where
  serveId : Option Name
  name : Name
  url : Option String
  listenPort : Option Nat
  target : Option Target
  allow : Option (List String)
  tls : Option Bool

/-- A serve that stands on the node. -/
structure Standing where
  spec : ServeSpec
  listenPort : Nat
  url : String
  /-- This client added it. -/
  ours : Bool

def Standing.listed (v : Standing) : ListedServe where
  serveId := some (serveKey v.spec)
  name := v.spec.name
  url := some v.url
  listenPort := some v.listenPort
  target := some v.spec.target
  allow := some (v.spec.allow.getD [])
  tls := v.spec.tls

def floorDoor (spec : ServeSpec) : Bool := spec.secretDoor == some .freeway

def sameFloorDoorServe (listed : ListedServe) (spec : ServeSpec) : Bool :=
  match spec.target, listed.target with
  | .port port _, some (.port listedPort _) =>
    listed.listenPort == spec.listenPort && listedPort == port &&
      listed.allow.getD [] == spec.allow.getD [] && listed.tls == spec.tls
  | _, _ => false

inductive Op where
  | reconcile
  | removeServe (serveId : Name)
  deriving DecidableEq

/-- A pass over the desired set, with the list it read. -/
structure Placing where
  /-- Which life of the node the list is of. -/
  boot : Nat
  live : Dict Name ListedServe
  /-- The serves it has come to. -/
  walked : List ServeSpec
  rest : List ServeSpec

/-- Where a pass is. -/
inductive Work where
  | listing
  | strays (boot : Nat) (live : Dict Name ListedServe) (left : List Name)
  /-- The removal of a stray is asked. -/
  | removing (boot : Nat) (live : Dict Name ListedServe) (serveId : Name) (left : List Name)
  | placing (p : Placing)
  /-- The removal of a predecessor's serve is asked. -/
  | replacing (p : Placing) (spec : ServeSpec)
  | adding (p : Placing) (spec : ServeSpec)

structure State where
  desired : Dict Name ServeSpec
  states : Dict Name ServeState
  /-- The serves that this client has placed. -/
  placed : List Name
  nodeUp : Option Bool
  /-- The operations to come, with the one at work first. -/
  queue : List Op
  work : Work
  node : Dict Name Standing
  /-- How often the node started afresh. -/
  boots : Nat

inductive ErrorKind where
  | notFound
  | unavailable
  | other
  deriving DecidableEq

inductive Answer where
  /-- It is done; an added serve has a listener and a URL. -/
  | ok (listenPort : Nat) (url : String)
  /-- It failed, and was `done` all the same or not. -/
  | failed (kind : ErrorKind) (message : String) (done : Bool)

inductive Event where
  | setServes (specs : List ServeSpec)
  | removeServe (serveId : Name)
  | reconcile
  | connected
  | noteNodeState (up : Bool)
  /-- The node starts afresh, with nothing on it. -/
  | restart
  /-- The operation at work goes on to its next request. -/
  | go
  | answer (a : Answer)

abbrev Contract := ServeSpec → Option String

def contractValidSpec (contract : Contract) (spec : ServeSpec) : Except String ServeSpec :=
  match contract spec with
  | none => .ok spec
  | some why =>
    let key := String.ofList (serveKey spec)
    .error s!"serve \"{key}\" does not match ServeConfig ({why})"

def desiredOf (specs : List ServeSpec) : Dict Name ServeSpec := Dict.ofList serveKey specs

namespace State

def start (left : List Standing) : State where
  desired := ∅
  states := ∅
  placed := []
  nodeUp := none
  queue := []
  work := .listing
  node := (Dict.ofList (fun v => serveKey v.spec) left).mapVals fun _ v => { v with ours := false }
  boots := 0

def enqueue (s : State) (op : Op) : State := { s with queue := s.queue ++ [op] }

def finished (s : State) : State := { s with queue := s.queue.tail, work := .listing }

def setServes (s : State) (specs : List ServeSpec) : State :=
  { s with desired := desiredOf specs }.enqueue .reconcile

def noteNodeState (s : State) (up : Bool) : State :=
  if up = false ∨ s.nodeUp = some true then { s with nodeUp := some up }
  else { s with nodeUp := some up }.enqueue .reconcile

def restart (s : State) : State := { s with node := ∅, boots := s.boots + 1 }

def drop (s : State) (id : Name) (done : Bool) : State :=
  if done then { s with node := s.node.erase id } else s

def take (s : State) (spec : ServeSpec) (listenPort : Nat) (url : String) (done : Bool) : State :=
  if done then
    { s with
      node := s.node.insert (serveKey spec)
        { spec, listenPort := spec.listenPort.getD listenPort, url, ours := true } }
  else s

def setState (s : State) (st : ServeState) : State :=
  { s with states := s.states.insert (serveKey st.spec) st }

def place (s : State) (id : Name) : State := { s with placed := s.placed.insert id }

def forget (s : State) (id : Name) : State :=
  { s with states := s.states.erase id, placed := s.placed.filter fun x => x ≠ id }

def unavailable (s : State) : State :=
  { s with states := s.desired.values.foldl (fun states spec =>
      match (states.lookup (serveKey spec)).map ServeState.status with
      | some .active => states
      | _ => states.insert (serveKey spec) (.pending spec)) s.states }

/-! ### A removal that a caller asks for -/

def removed (s : State) (id : Name) : State :=
  { s with desired := s.desired.erase id }.forget id

def removeServe (s : State) (id : Name) : Answer → Option State
  | .ok _ _ => some ((s.drop id true).removed id).finished
  | .failed .notFound _ _ => if s.node.lookup id = none then some (s.removed id).finished else none
  | .failed _ _ done => some (s.drop id done).finished

/-! ### A pass -/

def listed (s : State) : Dict Name ListedServe :=
  Dict.ofList (fun l => l.serveId.getD l.name) (s.node.values.map Standing.listed)

def add (s : State) (contract : Contract) (p : Placing) (spec : ServeSpec) : State :=
  match contractValidSpec contract spec with
  | .ok spec => { s with work := .adding p spec }
  | .error message =>
    { s.setState (.failed spec message) with
      work := .placing { p with walked := p.walked ++ [spec] } }

def walk (s : State) (p : Placing) (spec : ServeSpec) : State :=
  { s with work := .placing { p with walked := p.walked ++ [spec] } }

def visit (s : State) (contract : Contract) (p : Placing) (spec : ServeSpec) : State :=
  match p.live.lookup (serveKey spec) with
  | none => s.add contract p spec
  | some existing =>
    if floorDoor spec && sameFloorDoorServe existing spec then
      ((s.place (serveKey spec)).setState (.active spec existing.url)).walk p spec
    else if !floorDoor spec && (s.placed.contains (serveKey spec) || artifact (serveKey spec)) then
      (s.setState (.active spec existing.url)).walk p spec
    else { s with work := .replacing p spec }

def go (s : State) (contract : Contract) : Work → Option State
  | .strays boot live [] => some
    { s with work := .placing { boot, live, walked := [], rest := s.desired.values } }
  | .strays boot live (id :: left) =>
    if artifact id = false ∧ s.desired.lookup id = none ∧ (s.states.lookup id).isSome then
      some { s with work := .removing boot live id left }
    else some { s with work := .strays boot live left }
  | .placing p =>
    match p.rest with
    | [] => some s.finished
    | spec :: rest => some (s.visit contract { p with rest } spec)
  | _ => none

def replaceError (message : String) : String :=
  s!"a predecessor's serve could not be replaced: {message}"

def listAnswered (s : State) : Answer → State
  | .ok _ _ => { s with work := .strays s.boots s.listed s.listed.keys }
  | .failed .unavailable _ _ => s.unavailable.finished
  | .failed _ _ _ => s.finished

def strayAnswered (s : State) (boot : Nat) (live : Dict Name ListedServe) (id : Name)
    (left : List Name) : Answer → Option State
  | .ok _ _ => some { (s.drop id true).forget id with work := .strays boot (live.erase id) left }
  | .failed .notFound _ _ =>
    if s.node.lookup id = none then
      some { s.forget id with work := .strays boot (live.erase id) left }
    else none
  | .failed _ _ done => some { s.drop id done with work := .strays boot live left }

def replaceAnswered (s : State) (contract : Contract) (p : Placing) (spec : ServeSpec) :
    Answer → Option State
  | .ok _ _ => some ((s.drop (serveKey spec) true).add contract p spec)
  | .failed .notFound _ _ =>
    if s.node.lookup (serveKey spec) = none then some (s.add contract p spec) else none
  | .failed _ message done => some
    (((s.drop (serveKey spec) done).setState (.failed spec (replaceError message))).walk p spec)

def addAnswered (s : State) (p : Placing) (spec : ServeSpec) : Answer → Option State
  | .ok listenPort url =>
    if s.node.lookup (serveKey spec) = none then
      some ((((s.take spec listenPort url true).place (serveKey spec)).setState
        (.active spec (some url))).walk p spec)
    else none
  | .failed _ message done =>
    if done = true ∧ s.node.lookup (serveKey spec) ≠ none then none
    else some (((s.take spec 0 "" done).setState (.failed spec message)).walk p spec)

def answered (s : State) (contract : Contract) (a : Answer) : Work → Option State
  | .listing => some (s.listAnswered a)
  | .removing boot live id left => s.strayAnswered boot live id left a
  | .replacing p spec => s.replaceAnswered contract p spec a
  | .adding p spec => s.addAnswered p spec a
  | _ => none

def step (contract : Contract) (s : State) : Event → Option State
  | .setServes specs => some (s.setServes specs)
  | .removeServe id => some (s.enqueue (.removeServe id))
  | .reconcile | .connected => some (s.enqueue .reconcile)
  | .noteNodeState up => some (s.noteNodeState up)
  | .restart => some s.restart
  | .go =>
    match s.queue with
    | .reconcile :: _ => s.go contract s.work
    | _ => none
  | .answer a =>
    match s.queue with
    | .reconcile :: _ => s.answered contract a s.work
    | .removeServe id :: _ => s.removeServe id a
    | [] => none

end State
def machine (contract : Contract) (left : List Standing) : Machine State Event where
  start := .start left
  next := State.step contract

/-! ## What is claimed -/

/-- What stands is what the spec asks for; of a freeway door, as far as the node lists it. -/
def Stands (v : Standing) (spec : ServeSpec) : Prop :=
  v.spec = spec ∨ (floorDoor spec = true ∧ sameFloorDoorServe v.listed spec = true)

structure Faithful (s : State) : Prop where
  /-- At the end of a pass, over a node that has not started afresh since its list was read. -/
  asked : ∀ p, s.work = .placing p → p.rest = [] → p.boot = s.boots → ∀ spec ∈ p.walked,
    artifact (serveKey spec) = false → ∀ st, s.states.lookup (serveKey spec) = some st →
      st.status = .active → st.spec = spec ∧ ∃ v, s.node.lookup (serveKey spec) = some v ∧
        Stands v spec
  /-- At any time nothing stands that is not of the spec that its record has. -/
  same : ∀ id st v, artifact id = false → s.states.lookup id = some st → st.status = .active →
    s.node.lookup id = some v → Stands v st.spec
  replaced : ∀ id st v, artifact id = false → s.states.lookup id = some st → st.status = .active →
    s.node.lookup id = some v → v.ours = false →
      floorDoor st.spec = true ∧ sameFloorDoorServe v.listed st.spec = true
  tracked : ∀ id v, s.node.lookup id = some v → v.ours = true → (s.states.lookup id).isSome

def Careful (s : State) : Event → Prop
  | .setServes specs => ∀ (id : Name) (spec spec' : ServeSpec), (desiredOf specs).lookup id =
    some spec → artifact id = false → s.desired.lookup id = some spec' → spec' = spec
  | _ => True

def Work.ahead : Work → List ServeSpec
  | .placing p => p.rest
  | .replacing p spec | .adding p spec => spec :: p.rest
  | _ => []

def Orderly (s : State) : Event → Prop
  | .setServes specs => ∀ (id : Name) (spec : ServeSpec), (desiredOf specs).lookup id =
    some spec → artifact id = false → floorDoor spec = false →
      (id ∈ s.placed → ∀ v, s.node.lookup id = some v → v.spec = spec ∧ v.ours = true) ∧
      ∀ spec' ∈ s.work.ahead, serveKey spec' = id → spec' = spec
  | .go => ∀ boot live, s.work = .strays boot live [] → boot = s.boots →
    ∀ (id : Name) (spec : ServeSpec), s.desired.lookup id = some spec → artifact id = false →
      (live.lookup id).isSome → (s.node.lookup id).isSome
  | _ => True

end VibeField.Fieldd.Serves
