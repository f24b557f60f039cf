import VibeField.Fieldd.ProjectActs
import Mathlib.Algebra.GroupWithZero.Nat
import Mathlib.Data.List.DropRight

/-!
# Acts on projects

A desktop writes what a person does on projects as records in the library.  An act reads the
grouping of the places, writes the library once and ends; acts run one after another.  A launch
waits until some grouping holds its place, and what it was launched with becomes its project's
recipe.

The grouping engine forms groups of places, which come from outside; which record names which group
is computed here.
-/

namespace VibeField.Fieldd.ProjectRecords

open ProjectDoc

structure PlaceRef where
  device : Text
  placeId : Text
  deriving DecidableEq

scoped instance : LawfulBEq Text := inferInstance

abbrev Controls := List (Text × Text)

structure Selection where
  modelId : Text
  custom : Option Bool
  controls : Option Controls
  deriving DecidableEq

structure LaunchRecipe where
  provider : Text
  profileSet : Text
  selection : Option Selection
  deriving DecidableEq

structure ProjectRecipe where
  provider : Text
  profileSet : Text
  selection : Option (Text × Option Bool)
  controlsByModel : List (Text × Controls)
  time : ℚ
  place : Option PlaceRef
  deriving DecidableEq

def setControls (m : List (Text × Controls)) (modelId : Text) (controls : Controls) :
    List (Text × Controls) :=
  if modelId ∈ m.map Prod.fst then m.map fun e => if e.1 = modelId then (e.1, controls) else e
  else m ++ [(modelId, controls)]

/-- `prior` is the project's recipe where it can be read as one. -/
def recipeAfter (prior : Option ProjectRecipe) (launch : LaunchRecipe) (time : ℚ)
    (place : Option PlaceRef) : ProjectRecipe :=
  let kept :=
    match prior with
    | some held => if held.provider = launch.provider then held.controlsByModel else []
    | none => []
  { provider := launch.provider
    profileSet := launch.profileSet
    selection := launch.selection.map fun s => (s.modelId, s.custom)
    controlsByModel :=
      match launch.selection with
      | some s => setControls kept s.modelId (s.controls.getD [])
      | none => kept
    time := time
    place := place }

/-! ## Groupings -/

structure GroupedPlace where
  placeId : Text
  deviceId : Text
  aliasIds : List Text
  deriving DecidableEq

def GroupedPlace.holds (pl : GroupedPlace) (placeId : Text) : Bool :=
  pl.placeId = placeId || placeId ∈ pl.aliasIds

/-- A group of places, before records are bound. -/
structure PlaceGroup where
  key : Text
  anchors : List Text
  ink : Nat
  home : Bool
  bucket : Bool
  places : List GroupedPlace
  deriving DecidableEq

structure GroupedProject extends PlaceGroup where
  recordId : Option Text
  recipe : Option ProjectRecipe
  deriving DecidableEq

abbrev Record := GroupingRecord ProjectRecipe

def weight (anchor : Text) : Nat :=
  if "root:".toList.isPrefixOf anchor then 4
  else if "remote:".toList.isPrefixOf anchor then 2
  else 1

def score (g : PlaceGroup) (r : Record) : Nat :=
  (r.anchors.map fun a => if a ∈ g.anchors then weight a else 0).sum

def better (excluded : Text → List Text) (r : Record) (best : Option (GroupedProject × Nat) × Nat)
    (e : GroupedProject × Nat) : Option (GroupedProject × Nat) × Nat :=
  if e.1.bucket = true then best
  else if e.1.places.any fun pl => pl.placeId ∈ excluded r.id then best
  else
    let n := score e.1.toPlaceGroup r
    if n > best.2 then (some e, n)
    else
      match best.1, r.anchors.head? with
      | some b, some oldest =>
        if n = best.2 ∧ oldest ∈ e.1.anchors ∧ oldest ∉ b.1.anchors then (some e, n) else best
      | _, _ => best

def named (r : Record) (g : GroupedProject) : GroupedProject :=
  match g.recordId with
  | some _ => g
  | none =>
    { g with
      recordId := some r.id
      key := "r:".toList ++ r.id
      ink := r.ink.getD g.ink
      recipe := r.recipe.or g.recipe }

def bindRecord (excluded : Text → List Text) (projects : List GroupedProject) (r : Record) :
    List GroupedProject :=
  match (projects.zipIdx.foldl (better excluded r) (none, 0)).1 with
  | none => projects
  | some best => projects.modify best.2 (named r)

def bindRecords (excluded : Text → List Text) (groups : List PlaceGroup) (records : List Record) :
    List GroupedProject :=
  (byAge.sort records).foldl (bindRecord excluded)
    (groups.map fun g => { g with recordId := none, recipe := none })

/-! ## Acts -/

inductive ProjectIntentOp where
  | rename (name : Text)
  | pin (pinned : Bool)
  | hide (hidden : Bool)
  | link (place : Text)
  | split (place : Text)
  | dismiss (other : Text)

inductive RefusalCode where
  | unavailable
  | notFound
  | noSuchPlace
  | bucket
  | home
  | notInProject
  | onlyPlace
  | sameProject
  | invalid
  deriving DecidableEq

structure Refusal where
  code : RefusalCode
  message : String
  deriving DecidableEq

abbrev Writes := List (ProjectWrite ProjectRecipe)

def byStrength : Comparison Text := (Comparison.order.on ProjectDoc.strength).thenBy byString

/-- What an act is about to write: the record it acts on, its writes, and the projects, by their
place in the grouping, that it makes a record for. -/
structure Ensured where
  recordId : Text
  writes : Writes
  first : List Nat

def ensure (newId : Text) (project : GroupedProject) (i : Nat) (now : ℚ) (more : List Text) :
    Ensured :=
  let recordId := project.recordId.getD newId
  { recordId := recordId
    writes :=
      (match project.recordId with
        | some _ => []
        | none => [.create recordId now (some project.ink)]) ++
      (byStrength.sort (project.anchors ++ more).dedup).map fun anchor =>
        .anchor recordId anchor now
    first := if project.recordId = none then [i] else [] }

def findFrom (projects : List GroupedProject) (moved : List (Text × Text)) :
    Nat → Text → Except Refusal (GroupedProject × Nat)
  | 0, _ => .error ⟨.notFound, "no project answers to that key"⟩
  | hops + 1, key =>
    match projects.zipIdx.find? fun e => e.1.key = key with
    | some e => .ok e
    | none =>
      match moved.lookup key with
      | none => .error ⟨.notFound, "no project answers to that key"⟩
      | some next => findFrom projects moved hops next

def find (projects : List GroupedProject) (moved : List (Text × Text)) (key : Text) :
    Except Refusal (GroupedProject × Nat) :=
  findFrom projects moved 4 key

def other (project held : GroupedProject × Nat) : Except Refusal (GroupedProject × Nat) :=
  if held.1.bucket then .error ⟨.bucket, "Temporary is not a project"⟩
  else if held.2 = project.2 then .error ⟨.sameProject, "that is this project already"⟩
  else if project.1.home || held.1.home then
    .error ⟨.home, "a desktop's Home joins and is suggested to nothing"⟩
  else .ok held

def isSpace (c : Char) : Bool :=
  c.toNat ∈ [9, 10, 11, 12, 13, 32, 0xA0, 0x1680, 0x2028, 0x2029, 0x202F, 0x205F, 0x3000, 0xFEFF] ||
    (0x2000 ≤ c.toNat && c.toNat ≤ 0x200A)

def trim (text : Text) : Text := (text.dropWhile isSpace).rdropWhile isSpace

def PROJECT_NAME_MAX : Nat := 200

def placeIn (project : GroupedProject) (placeId : Text) : Option GroupedPlace :=
  project.places.find? (·.holds placeId)

def holderOf (projects : List GroupedProject) (placeId : Text) : Option (GroupedProject × Nat) :=
  projects.zipIdx.find? fun e => e.1.places.any (·.holds placeId)

/-- The writes of one intent on the project `e`, with the ids it may give to new records. -/
def intentWrites (projects : List GroupedProject) (moved : List (Text × Text))
    (newId newId' : Text) (e : GroupedProject × Nat) (now : ℚ) :
    ProjectIntentOp → Except Refusal Ensured
  | .rename name =>
    let name := trim name
    if name = [] ∨ PROJECT_NAME_MAX < (Utf16.encode name).length then
      .error ⟨.invalid, "a project's name is 1 to 200 characters"⟩
    else
      let r := ensure newId e.1 e.2 now []
      .ok { r with writes := r.writes ++ [.name r.recordId name] }
  | .pin pinned =>
    let r := ensure newId e.1 e.2 now []
    .ok { r with writes := r.writes ++ [.pinned r.recordId pinned] }
  | .hide hidden =>
    let r := ensure newId e.1 e.2 now []
    .ok { r with writes := r.writes ++ [.hidden r.recordId hidden] }
  | .link place =>
    match holderOf projects place with
    | none => .error ⟨.noSuchPlace, "no project holds that place"⟩
    | some held =>
      match other e held with
      | .error refusal => .error refusal
      | .ok held =>
        let r := ensure newId e.1 e.2 now held.1.anchors
        match e.1.places.head?, placeIn held.1 place with
        | some mine, some theirs =>
          .ok { r with writes := r.writes ++ [.link mine.placeId theirs.placeId now] }
        | _, _ => .error ⟨.noSuchPlace, "no project holds that place"⟩
  | .split place =>
    if e.1.home then .error ⟨.home, "nothing splits out of a desktop's Home"⟩
    else
      match placeIn e.1 place with
      | none => .error ⟨.notInProject, "the place is not one of this project's"⟩
      | some pl =>
        if e.1.places.length < 2 then
          .error ⟨.onlyPlace, "a project's only place cannot be split from it"⟩
        else
          let r := ensure newId e.1 e.2 now []
          .ok { r with writes := r.writes ++ [.split pl.placeId r.recordId now] }
  | .dismiss key =>
    match find projects moved key with
    | .error refusal => .error refusal
    | .ok held =>
      match other e held with
      | .error refusal => .error refusal
      | .ok held =>
        let mine := ensure newId e.1 e.2 now []
        let theirs := ensure (if mine.first = [] then newId else newId') held.1 held.2 now []
        .ok { mine with
          writes := mine.writes ++ theirs.writes ++ [.dismiss mine.recordId theirs.recordId now]
          first := mine.first ++ theirs.first }

/-! ## Launches -/

structure PendingAct where
  /-- Which launch it is. -/
  n : Nat
  cwd : Text
  time : ℚ
  recipe : Option LaunchRecipe
  placeId : Option Text

def PENDING_ACTS_MAX : Nat := 256

/-- A launch and the place it entered. -/
structure Entered where
  placeId : Text
  project : GroupedProject
  index : Nat
  entered : GroupedPlace

def enters (projects : List GroupedProject) (placeOf : Text → Option Text) (act : PendingAct) :
    Option Entered := do
  let placeId ← act.placeId.or (placeOf act.cwd)
  let e ← holderOf projects placeId
  let entered ← placeIn e.1 placeId
  return { placeId := placeId, project := e.1, index := e.2, entered := entered }

/-- A launch that was recorded, and where. -/
structure Recorded where
  act : PendingAct
  record : Text
  place : Text

/-- A recipe that a launch left. -/
structure Launched where
  record : Text
  launch : LaunchRecipe
  time : ℚ
  place : PlaceRef

/-- What a drain has gathered. -/
structure Draining where
  waiting : List PendingAct
  writes : Writes
  ensured : List (Nat × Text)
  recipes : List (Nat × ProjectRecipe)
  newIds : Nat
  first : List Nat
  recorded : List Recorded
  launched : List Launched
  bucketed : List (PendingAct × GroupedProject)

section Drain

variable (newId : Nat → Text)

def ensureOnce (d : Draining) (e : Entered) (now : ℚ) : Text × Draining :=
  match d.ensured.lookup e.index with
  | some recordId => (recordId, d)
  | none =>
    let r := ensure (newId d.newIds) e.project e.index now []
    (r.recordId, { d with
      ensured := (e.index, r.recordId) :: d.ensured
      writes := d.writes ++ r.writes
      newIds := d.newIds + r.first.length
      first := d.first ++ r.first })

def recordLaunch (e : Entered) (act : PendingAct) (recordId : Text) (d : Draining) : Draining :=
  let d := { d with
    writes := d.writes ++ [.acted recordId e.placeId act.time]
    recorded := d.recorded ++ [⟨act, recordId, e.placeId⟩] }
  match act.recipe with
  | none => d
  | some launch =>
    let place : PlaceRef := { device := e.entered.deviceId, placeId := e.entered.placeId }
    let recipe := recipeAfter ((d.recipes.lookup e.index).or e.project.recipe) launch act.time place
    { d with
      recipes := (e.index, recipe) :: d.recipes
      writes := d.writes ++ [.recipe recordId recipe]
      launched := d.launched ++ [⟨recordId, launch, act.time, place⟩] }

def drainOne (projects : List GroupedProject) (placeOf : Text → Option Text) (d : Draining)
    (act : PendingAct) : Draining :=
  match enters projects placeOf act with
  | none => { d with waiting := d.waiting ++ [act] }
  | some e =>
    if e.project.bucket then { d with bucketed := d.bucketed ++ [(act, e.project)] }
    else
      let r := ensureOnce newId d e act.time
      recordLaunch e act r.1 r.2

def drained (projects : List GroupedProject) (placeOf : Text → Option Text) (newIds : Nat)
    (pending : List PendingAct) : Draining :=
  pending.foldl (drainOne newId projects placeOf)
    { waiting := [], writes := [], ensured := [], recipes := [], newIds := newIds, first := [],
      recorded := [], launched := [], bucketed := [] }

end Drain

/-! ## The desktop -/

/-- What a grouping is computed from. -/
structure Evidence where
  groups : List PlaceGroup
  excluded : Text → List Text
  placeOf : Text → Option Text

inductive Task where
  | drain
  | intent (key : Text) (op : ProjectIntentOp)

/-- A library write that is under way. -/
structure Commit where
  writes : Writes
  /-- The grouping the act read. -/
  projects : List GroupedProject
  first : List Nat
  recorded : List Recorded
  launched : List Launched
  moves : List (Text × Text)
  isIntent : Bool

structure State (P : Type) where
  doc : ProjectDoc.Doc P
  /-- Whether a library is mounted. -/
  mounted : Bool
  evidence : Option Evidence
  /-- The grouping has not been computed since its evidence changed. -/
  due : Bool
  pending : List PendingAct
  /-- `#chain`: the acts that have not begun, and the one that awaits its write. -/
  queue : List Task
  running : Option Commit
  moved : List (Text × Text)
  newIds : Nat
  /-- The launches so far. -/
  launches : Nat
  recorded : List Recorded
  written : Writes
  launched : List Launched
  temporary : List (PendingAct × GroupedProject)
  shifted : List PendingAct
  lost : List Recorded

/-- How a library write ends: kept, kept but not saved to disk, or refused with nothing kept. -/
inductive Outcome where
  | saved
  | unsaved
  | refused
  deriving DecidableEq

inductive Event where
  | actedIn (cwd : Text) (time : ℚ) (recipe : Option LaunchRecipe) (placeId : Option Text)
  | intent (key : Text) (op : ProjectIntentOp)
  | facts (evidence : Evidence)
  | regroup
  | mount
  | unmount
  | run (now : ℚ)
  | settled (outcome : Outcome)

section Machine

variable {P : Type} [LinearOrder P] (p : P) (stringify : ProjectRecipe → Text)
  (parse : Text → Option ProjectRecipe) (newId : Nat → Text) (doc₀ : ProjectDoc.Doc P)

def State.records (s : State P) : List Record :=
  if s.mounted then (readProjectIntents parse s.doc).records else []

def State.projects (s : State P) (e : Evidence) : List GroupedProject :=
  bindRecords e.excluded e.groups (s.records parse)

def State.regrouped (s : State P) : State P :=
  if s.due then
    { s with due := false, queue := if s.pending = [] then s.queue else s.queue ++ [.drain] }
  else s

/-- `#drainActs`, up to its library write. -/
def State.drainActs (s : State P) : State P :=
  if s.pending = [] then s
  else
    let s := s.regrouped
    match s.mounted, s.evidence with
    | true, some e =>
      let projects := s.projects parse e
      let d := drained newId projects e.placeOf s.newIds s.pending
      { s with
        pending := d.waiting
        newIds := d.newIds
        temporary := s.temporary ++ d.bucketed
        running :=
          if d.writes = [] then none
          else some
            { writes := d.writes
              projects := projects
              first := d.first
              recorded := d.recorded
              launched := d.launched
              moves := d.ensured.filterMap fun r =>
                (projects[r.1]?).map fun project => (project.key, "r:".toList ++ r.2)
              isIntent := false } }
    | _, _ => s

/-- `#intent`, up to its library write; a refused act changes nothing. -/
def State.intentActs (s : State P) (key : Text) (op : ProjectIntentOp) (now : ℚ) : State P :=
  let s := s.regrouped
  match s.mounted, s.evidence with
  | true, some e =>
    let projects := s.projects parse e
    match find projects s.moved key with
    | .error _ => s
    | .ok project =>
      if project.1.bucket then s
      else
        match intentWrites projects s.moved (newId s.newIds) (newId (s.newIds + 1)) project now op
          with
        | .error _ => s
        | .ok r =>
          { s with
            newIds := s.newIds + r.first.length
            running := some
              { writes := r.writes
                projects := projects
                first := r.first
                recorded := []
                launched := []
                moves := [(key, "r:".toList ++ r.recordId)]
                isIntent := true } }
  | _, _ => s

def State.refuse (s : State P) (c : Commit) : State P :=
  { s with running := none, lost := s.lost ++ c.recorded }

def State.keep (s : State P) (c : Commit) (doc : ProjectDoc.Doc P) : State P :=
  { s with
    doc := doc
    running := none
    recorded := s.recorded ++ c.recorded
    written := s.written ++ c.writes
    launched := s.launched ++ c.launched }

def State.answer (s : State P) (c : Commit) : State P :=
  let s := { s with moved := (c.moves.filter fun m => m.1 ≠ m.2) ++ s.moved }
  if c.isIntent then s.regrouped else s

def State.settle (s : State P) (c : Commit) (outcome : Outcome) : State P :=
  match applyProjectWrites stringify p s.doc c.writes, outcome with
  | .error _, _ => s.refuse c
  | .ok _, .refused => s.refuse c
  | .ok d, .unsaved => s.keep c d.doc
  | .ok d, .saved => (s.keep c d.doc).answer c

def State.next (s : State P) : Event → Option (State P)
  | .actedIn cwd time recipe placeId =>
    let pending := s.pending ++ [⟨s.launches, cwd, time, recipe, placeId⟩]
    let full := decide (PENDING_ACTS_MAX < pending.length)
    some { s with
      pending := if full then pending.tail else pending
      shifted := s.shifted ++ if full then pending.take 1 else []
      launches := s.launches + 1
      queue := s.queue ++ [.drain] }
  | .intent key op => some { s with queue := s.queue ++ [.intent key op] }
  | .facts evidence => some { s with evidence := some evidence, due := true }
  | .regroup => some s.regrouped
  | .mount => some { s with mounted := true, due := true }
  | .unmount => some { s with mounted := false, due := true }
  | .run now =>
    match s.running, s.queue with
    | none, .drain :: rest => some ({ s with queue := rest }.drainActs parse newId)
    | none, .intent key op :: rest =>
      some ({ s with queue := rest }.intentActs parse newId key op now)
    | _, _ => none
  | .settled outcome => s.running.map fun c => s.settle p stringify c outcome

def machine : Machine (State P) Event where
  start :=
    { doc := doc₀, mounted := false, evidence := none, due := false, pending := [], queue := [],
      running := none, moved := [], newIds := 0, launches := 0, recorded := [], written := [],
      launched := [], temporary := [], shifted := [], lost := [] }
  next := State.next p stringify parse newId

end Machine

end VibeField.Fieldd.ProjectRecords
