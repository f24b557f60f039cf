import Mathlib.Tactic.Spread
import VibeField.Base.Directory
import VibeField.Base.Machine

/-!
# The revisions of a canvas

A canvas is stored as a checkpoint and a journal of updates, each in a file of its own, and
`current.json` names them.  A commit writes the new files first and `current.json` last, each
by an atomic write: a temporary file is written and synced, renamed into place, and the
directory synced.  A step that fails ends the commit there.

What a commit has made obsolete is removed afterwards, and nobody waits for the removals: one
may still come when the next commits are under way.
-/

namespace VibeField.Fieldd

open List Option

/-- A file under `revisions/`: a checkpoint or a record of the journal. -/
inductive RevisionFile where
  | ice1 (revisionId : String)
  | loro (revisionId : String)
  deriving DecidableEq, Repr

/-- What a manifest records of a file. -/
structure Stored where
  file : RevisionFile
  byteLength : Nat
  contentId : String
  deriving DecidableEq, Repr

structure JournalRevision where
  revisionId : String
  committedAt : Int
  savedAt : Int
  byteLength : Nat
  contentId : String
  deriving DecidableEq, Repr

def JournalRevision.stored (u : JournalRevision) : Stored :=
  { file := .loro u.revisionId, byteLength := u.byteLength, contentId := u.contentId }

structure CurrentRevision where
  revisionId : String
  file : RevisionFile
  contentId : String
  committedAt : Int
  engineSchema : Option Int
  savedAt : Int
  byteLength : Nat
  baseEpoch : Int
  updates : List JournalRevision
  deriving DecidableEq, Repr

def CurrentRevision.named (m : CurrentRevision) : List Stored :=
  { file := m.file, byteLength := m.byteLength, contentId := m.contentId } ::
    m.updates.map (·.stored)

abbrev Content := List UInt8

/-- What a commit is stamped with. -/
structure Stamp where
  committedAt : Int
  engineSchema : Option Int
  savedAt : Int
  baseEpoch : Int
  deriving DecidableEq, Repr

inductive CommitKind where
  | checkpoint
  | append
  | compaction
  | rebootstrap
  deriving DecidableEq, Repr

/-- How far an atomic write is. -/
inductive Phase where
  | start
  | written
  | synced
  | renamed
  deriving DecidableEq, Repr

/-- A commit under way: the files it has yet to write, then `current.json`; `done` once that
is written, with the registry still to persist. -/
structure Committing where
  kind : CommitKind
  puts : List (RevisionFile × Content)
  next : CurrentRevision
  cleanup : List RevisionFile
  phase : Phase := .start
  done : Bool := false
  deriving DecidableEq, Repr

section Commits

variable (contentIdOf : Content → String)

/-- The manifest records this content. -/
def Stored.Records (n : Stored) (b : Content) : Prop :=
  n.byteLength = b.length ∧ n.contentId = contentIdOf b

instance (n : Stored) (b : Content) : Decidable (n.Records contentIdOf b) :=
  inferInstanceAs (Decidable (_ ∧ _))

def journalRevision (revisionId : String) (committedAt savedAt : Int) (b : Content) :
    JournalRevision :=
  { revisionId := revisionId, committedAt := committedAt, savedAt := savedAt,
    byteLength := b.length, contentId := contentIdOf b }

def obsolete (previous : Option CurrentRevision) (keep : List RevisionFile) :
    List RevisionFile :=
  match previous with
  | none => []
  | some m => (m.named.map (·.file)).filter fun f => f ∉ keep

def writeDocNow (previous : Option CurrentRevision) (revisionId : String) (stored : Content)
    (residual : Option (String × Content)) (stamp : Stamp) : Committing :=
  { kind := .checkpoint
    puts := (residual.map fun r => (.loro r.1, r.2)).toList ++ [(.ice1 revisionId, stored)]
    next :=
      { revisionId := revisionId, file := .ice1 revisionId, contentId := contentIdOf stored,
        committedAt := stamp.committedAt, engineSchema := stamp.engineSchema,
        savedAt := stamp.savedAt, byteLength := stored.length, baseEpoch := stamp.baseEpoch,
        updates := (residual.map fun r =>
          journalRevision contentIdOf r.1 stamp.committedAt stamp.savedAt r.2).toList }
    cleanup := obsolete previous [.ice1 revisionId] }

def appendNow (current : CurrentRevision) (revisionId : String) (bytes : Content)
    (stamp : Stamp) : Committing :=
  { kind := .append
    puts := [(.loro revisionId, bytes)]
    next :=
      { current with
        revisionId := revisionId
        committedAt := stamp.committedAt
        engineSchema := stamp.engineSchema
        savedAt := stamp.savedAt
        updates := current.updates ++
          [journalRevision contentIdOf revisionId stamp.committedAt stamp.savedAt bytes] }
    cleanup := [] }

def compactNow (current : CurrentRevision) (revisionId : String) (envelope : Content)
    (baseEpoch : Int) : Committing :=
  { kind := .compaction
    puts := [(.ice1 revisionId, envelope)]
    next :=
      { revisionId := revisionId, file := .ice1 revisionId, contentId := contentIdOf envelope,
        committedAt := current.committedAt, engineSchema := current.engineSchema,
        savedAt := current.savedAt, byteLength := envelope.length, baseEpoch := baseEpoch,
        updates := [] }
    cleanup := obsolete (some current) [.ice1 revisionId] }

def rebootstrapNow (previous : Option CurrentRevision) (revisionId : String)
    (payload : Content) (carried : Option (String × Content)) (stamp : Stamp) : Committing :=
  { writeDocNow contentIdOf previous revisionId payload carried stamp with
    kind := .rebootstrap
    cleanup := obsolete previous
      (.ice1 revisionId :: (carried.map fun r => RevisionFile.loro r.1).toList) }

end Commits

/-- The disk, the commit under way and the removals nobody waits for.  `committed` is the
manifest of the last commit that was done, `tried` the manifests of those begun since. -/
structure RevisionState where
  revisions : Directory RevisionFile Content := .empty
  pointer : Directory Unit CurrentRevision := .empty
  committing : Option Committing := none
  removals : List RevisionFile := []
  committed : Option CurrentRevision := none
  tried : List CurrentRevision := []

namespace RevisionState

def current (s : RevisionState) : Option CurrentRevision := s.pointer.live ()

def manifests (s : RevisionState) : List CurrentRevision :=
  (s.pointer.live () :: s.pointer.past ()).filterMap id

/-- No manifest on disk names a fresh file, and no removal of it is to come. -/
def Unused (s : RevisionState) (f : RevisionFile) : Prop :=
  f ∉ s.removals ∧ ∀ m ∈ s.manifests, ∀ n ∈ m.named, n.file ≠ f

instance (s : RevisionState) (f : RevisionFile) : Decidable (s.Unused f) :=
  inferInstanceAs (Decidable (_ ∧ _))

def begin (s : RevisionState) (x : Committing) : Option RevisionState :=
  if s.committing.isNone then
    some { s with committing := some x, tried := x.next :: s.tried }
  else none

def stepFile (s : RevisionState) (x : Committing) (f : RevisionFile) (b : Content)
    (rest : List (RevisionFile × Content)) : RevisionState :=
  match x.phase with
  | .start => { s with committing := some { x with phase := .written } }
  | .written => { s with committing := some { x with phase := .synced } }
  | .synced =>
    { s with
      revisions := s.revisions.put f (some b)
      committing := some { x with phase := .renamed } }
  | .renamed =>
    { s with
      revisions := s.revisions.sync
      committing := some { x with puts := rest, phase := .start } }

/-- One step of the atomic write of `current.json`. -/
def stepCurrent (s : RevisionState) (x : Committing) : RevisionState :=
  match x.phase with
  | .start => { s with committing := some { x with phase := .written } }
  | .written => { s with committing := some { x with phase := .synced } }
  | .synced =>
    { s with
      pointer := s.pointer.put () (some x.next)
      committing := some { x with phase := .renamed } }
  | .renamed =>
    { s with
      pointer := s.pointer.sync
      committing := some { x with done := true }
      committed := some x.next
      tried := [] }

def step (s : RevisionState) : Option RevisionState :=
  match s.committing with
  | none => none
  | some x =>
    if x.done then none
    else
      match x.puts with
      | (f, b) :: rest => some (s.stepFile x f b rest)
      | [] => some (s.stepCurrent x)

def fail (s : RevisionState) : Option RevisionState :=
  match s.committing with
  | none => none
  | some x =>
    if x.done then none
    else
      some { s with
        committing := none
        removals := if x.kind = .compaction then x.next.file :: s.removals else s.removals }

def settle (s : RevisionState) (persisted : Bool) : Option RevisionState :=
  match s.committing with
  | none => none
  | some x =>
    if x.done then
      some { s with
        committing := none
        removals := if persisted ∨ x.kind = .compaction ∨ x.kind = .rebootstrap then
          x.cleanup ++ s.removals else s.removals }
    else none

def remove (s : RevisionState) (f : RevisionFile) (removed : Bool) : Option RevisionState :=
  if f ∈ s.removals then
    some { s with
      revisions := if removed then s.revisions.put f none else s.revisions
      removals := s.removals.erase f }
  else none

end RevisionState

inductive RevisionEvent where
  | checkpoint (revisionId : String) (stored : Content) (residual : Option (String × Content))
      (stamp : Stamp)
  | append (revisionId : String) (bytes : Content) (stamp : Stamp)
  | compact (revisionId : String) (envelope : Content) (baseEpoch : Int)
  | rebootstrap (revisionId : String) (payload : Content) (carried : Option (String × Content))
      (stamp : Stamp)
  | step
  | fail
  | settle (persisted : Bool)
  | remove (f : RevisionFile) (removed : Bool)
  | crash (files : List (RevisionFile × Option Content))
      (current : List (Unit × Option CurrentRevision))
  deriving Repr

section Runs

variable (contentIdOf : Content → String)

/-- Ids the service makes itself are fresh; the client's are what it sends.  An append under
the id `current.json` has is taken for a retry and writes nothing. -/
def RevisionState.next (s : RevisionState) : RevisionEvent → Option RevisionState
  | .checkpoint id b residual stamp =>
    if ∀ r ∈ residual.toList, s.Unused (.loro r.1) then
      s.begin (writeDocNow contentIdOf s.current id b residual stamp)
    else none
  | .append id b stamp =>
    s.current.bind fun m =>
      if m.revisionId = id then none else s.begin (appendNow contentIdOf m id b stamp)
  | .compact id b baseEpoch =>
    s.current.bind fun m =>
      if s.Unused (.ice1 id) then s.begin (compactNow contentIdOf m id b baseEpoch) else none
  | .rebootstrap id b carried stamp =>
    if s.Unused (.ice1 id) ∧ ∀ r ∈ carried.toList, s.Unused (.loro r.1) then
      s.begin (rebootstrapNow contentIdOf s.current id b carried stamp)
    else none
  | .step => s.step
  | .fail => s.fail
  | .settle persisted => s.settle persisted
  | .remove f removed => s.remove f removed
  | .crash files current =>
    if s.revisions.Past files ∧ s.pointer.Past current then
      some { s with
        revisions := s.revisions.crash files
        pointer := s.pointer.crash current
        committing := none
        removals := [] }
    else none

def revisionMachine : Machine RevisionState RevisionEvent :=
  { start := {}, next := RevisionState.next contentIdOf }

end Runs

namespace RevisionState

variable {contentIdOf : Content → String} {m : CurrentRevision}

@[simp]
theorem mem_manifests {s : RevisionState} :
    m ∈ s.manifests ↔ s.pointer.MayHave () (some m) := by
  simp [manifests, Directory.MayHave]

theorem current_mem_manifests {s : RevisionState}
    (h : s.current = some m) : m ∈ s.manifests :=
  mem_manifests.mpr (.inl h.symm)

theorem mem_named {n : Stored} :
    n ∈ m.named ↔ n = { file := m.file, byteLength := m.byteLength, contentId := m.contentId } ∨
      ∃ u ∈ m.updates, n = u.stored := by
  simp [CurrentRevision.named, eq_comm]

theorem mem_obsolete {previous : Option CurrentRevision} {keep : List RevisionFile}
    {f : RevisionFile} (h : f ∈ obsolete previous keep) :
    f ∉ keep ∧ ∃ m n, previous = some m ∧ n ∈ m.named ∧ n.file = f := by
  cases previous with
  | none => cases h
  | some m =>
    obtain ⟨hm, hk⟩ := mem_filter.mp h
    obtain ⟨n, hn, hf⟩ := List.mem_map.mp hm
    exact ⟨of_decide_eq_true hk, m, n, rfl, hn, hf⟩

section Properties

variable (contentIdOf)

/-- Each file `current.json` names is there, with what it records. -/
def Intact (s : RevisionState) : Prop :=
  ∀ m, s.current = some m → ∀ n ∈ m.named,
    ∃ b, s.revisions.live n.file = some b ∧ n.Records contentIdOf b

/-- `current.json` is that of the last commit done, or of one tried since. -/
def Atomic (s : RevisionState) : Prop :=
  s.current = s.committed ∨ ∃ m ∈ s.tried, s.current = some m

/-- No removal to come is of a file `current.json` names. -/
def Spared (s : RevisionState) : Prop :=
  ∀ f ∈ s.removals, ∀ m, s.current = some m → ∀ n ∈ m.named, n.file ≠ f

/-- Nothing on disk names the file for other bytes, and no removal of it is to come. -/
def Free (s : RevisionState) (f : RevisionFile) (b : Content) : Prop :=
  f ∉ s.removals ∧ ∀ m ∈ s.manifests, ∀ n ∈ m.named, n.file = f → n.Records contentIdOf b

instance (s : RevisionState) (f : RevisionFile) (b : Content) :
    Decidable (s.Free contentIdOf f b) :=
  inferInstanceAs (Decidable (_ ∧ _))

end Properties

theorem Unused.free {s : RevisionState} {f : RevisionFile} (h : s.Unused f) (b : Content) :
    s.Free contentIdOf f b :=
  ⟨h.1, fun m hm n hn hf => absurd hf (h.2 m hm n hn)⟩

end RevisionState

/-- `current.json` is in place, and its directory not yet synced. -/
def Committing.Replaced (x : Committing) : Prop := x.puts = [] ∧ x.phase = .renamed

instance (x : Committing) : Decidable x.Replaced := inferInstanceAs (Decidable (_ ∧ _))

namespace RevisionState

variable {contentIdOf : Content → String}

def Orderly (contentIdOf : Content → String) (s : RevisionState) : RevisionEvent → Prop
  | .checkpoint id b _ _ => s.Free contentIdOf (.ice1 id) b
  | .append id b _ => s.Free contentIdOf (.loro id) b
  | .fail => ∀ x ∈ s.committing.toList, x.kind = .compaction → ¬x.Replaced
  | _ => True

instance (s : RevisionState) : (e : RevisionEvent) → Decidable (s.Orderly contentIdOf e)
  | .checkpoint id b _ _ => inferInstanceAs (Decidable (s.Free contentIdOf (.ice1 id) b))
  | .append id b _ => inferInstanceAs (Decidable (s.Free contentIdOf (.loro id) b))
  | .fail => inferInstanceAs
      (Decidable (∀ x ∈ s.committing.toList, x.kind = .compaction → ¬x.Replaced))
  | .compact _ _ _ => .isTrue trivial
  | .rebootstrap _ _ _ _ => .isTrue trivial
  | .step => .isTrue trivial
  | .settle _ => .isTrue trivial
  | .remove _ _ => .isTrue trivial
  | .crash _ _ => .isTrue trivial

/-! ## The commit under way -/

/-- What is known of the commit under way. -/
structure Running (contentIdOf : Content → String) (s : RevisionState) (x : Committing) :
    Prop where
  backed : x.done = false → ∀ n ∈ x.next.named,
    s.revisions.Sure n.file (n.Records contentIdOf) ∨ ∃ p ∈ x.puts, n.file = p.1
  written : ∀ p ∈ x.puts, ∀ n ∈ x.next.named, n.file = p.1 → n.Records contentIdOf p.2
  free : ∀ p ∈ x.puts, s.Free contentIdOf p.1 p.2
  kept : ∀ n ∈ x.next.named, n.file ∉ s.removals
  inPlace : x.phase = .renamed → ∀ p ∈ x.puts.head?, s.revisions.live p.1 = some p.2
  cleared : ∀ f ∈ x.cleanup, ∀ n ∈ x.next.named, n.file ≠ f
  tried : x.done = false → x.next ∈ s.tried
  base : x.kind = .compaction → ¬x.Replaced →
    ∀ m ∈ s.manifests, ∀ n ∈ m.named, n.file ≠ x.next.file
  pointed : x.Replaced → s.current = some x.next
  done : x.done = true → x.Replaced ∧ ∀ m ∈ s.manifests, m = x.next

structure Sound (contentIdOf : Content → String) (s : RevisionState) : Prop where
  backed : ∀ m ∈ s.manifests, ∀ n ∈ m.named, s.revisions.Sure n.file (n.Records contentIdOf)
  spared : ∀ f ∈ s.removals, ∀ m ∈ s.manifests, ∀ n ∈ m.named, n.file ≠ f
  atomic : ∀ v, s.pointer.MayHave () v → v = s.committed ∨ ∃ m ∈ s.tried, v = some m
  running : ∀ x, s.committing = some x → s.Running contentIdOf x

variable {b : Content} {f : RevisionFile} {id : String} {m : CurrentRevision} {n : Stored}
  {residual : Option (String × Content)} {s s' : RevisionState} {x : Committing}

theorem Sound.intact (h : s.Sound contentIdOf) : s.Intact contentIdOf :=
  fun m hm n hn => (h.backed m (current_mem_manifests hm) n hn).live

theorem Sound.isAtomic (h : s.Sound contentIdOf) : s.Atomic :=
  h.atomic s.current (.inl rfl)

theorem Sound.isSpared (h : s.Sound contentIdOf) : s.Spared :=
  fun f hf m hm => h.spared f hf m (current_mem_manifests hm)

/-! ## A commit begins -/

/-- A commit none of whose files is written yet. -/
structure Fresh (contentIdOf : Content → String) (s : RevisionState) (x : Committing) :
    Prop where
  start : x.phase = .start
  undone : x.done = false
  backed : ∀ n ∈ x.next.named,
    (∃ m ∈ s.manifests, n ∈ m.named) ∨ ∃ p ∈ x.puts, n.file = p.1
  written : ∀ p ∈ x.puts, ∀ n ∈ x.next.named, n.file = p.1 → n.Records contentIdOf p.2
  free : ∀ p ∈ x.puts, s.Free contentIdOf p.1 p.2
  cleared : ∀ f ∈ x.cleanup, ∀ n ∈ x.next.named, n.file ≠ f
  base : x.kind = .compaction → s.Unused x.next.file

theorem Sound.begin (h : s.Sound contentIdOf) (hx : s.Fresh contentIdOf x)
    (hs : s.begin x = some s') : s'.Sound contentIdOf := by
  rw [RevisionState.begin] at hs
  split at hs
  · cases hs
    constructor
    case backed => exact h.backed
    case spared => exact h.spared
    case atomic =>
      intro v hv
      rcases h.atomic v hv with hc | ⟨m, hm, hv⟩
      · exact .inl hc
      · exact .inr ⟨m, mem_cons_of_mem _ hm, hv⟩
    case running =>
      intro y hy
      cases hy
      constructor
      case backed =>
        intro _ n hn
        rcases hx.backed n hn with ⟨m, hm, hnm⟩ | hp
        · exact .inl (h.backed m hm n hnm)
        · exact .inr hp
      case written => exact hx.written
      case free => exact hx.free
      case kept =>
        intro n hn
        rcases hx.backed n hn with ⟨m, hm, hnm⟩ | ⟨p, hp, hf⟩
        · exact fun hr => h.spared _ hr m hm n hnm rfl
        · rw [hf]
          exact (hx.free p hp).1
      case inPlace =>
        intro hr
        rw [hx.start] at hr
        cases hr
      case cleared => exact hx.cleared
      case tried => exact fun _ => mem_cons_self
      case base => exact fun hk _ => (hx.base hk).2
      case pointed =>
        intro hr
        cases hx.start.symm.trans hr.2
      case done =>
        intro hd
        rw [hx.undone] at hd
        cases hd
  · cases hs

theorem named_writeDocNow {previous : Option CurrentRevision} {stamp : Stamp}
    (hn : n ∈ (writeDocNow contentIdOf previous id b residual stamp).next.named) :
    (n.file = .ice1 id ∧ n.Records contentIdOf b) ∨
      ∃ r, residual = some r ∧ n.file = .loro r.1 ∧ n.Records contentIdOf r.2 := by
  rcases mem_named.mp hn with rfl | ⟨u, hu, rfl⟩
  · exact .inl ⟨rfl, rfl, rfl⟩
  · cases residual with
    | none => cases hu
    | some r =>
      obtain rfl := mem_singleton.mp hu
      exact .inr ⟨r, rfl, rfl, rfl, rfl⟩

theorem puts_writeDocNow {previous : Option CurrentRevision} {stamp : Stamp}
    {p : RevisionFile × Content} :
    p ∈ (writeDocNow contentIdOf previous id b residual stamp).puts ↔
      p = (.ice1 id, b) ∨ ∃ r, residual = some r ∧ p = (.loro r.1, r.2) := by
  show p ∈ (residual.map fun r => (RevisionFile.loro r.1, r.2)).toList ++ [(.ice1 id, b)] ↔ _
  cases residual with
  | none => simp
  | some r => simp [or_comm]

theorem fresh_writeDocNow {stamp : Stamp} (hid : s.Free contentIdOf (.ice1 id) b)
    (hres : ∀ r ∈ residual.toList, s.Unused (.loro r.1)) :
    s.Fresh contentIdOf (writeDocNow contentIdOf s.current id b residual stamp) := by
  constructor
  case start => rfl
  case undone => rfl
  case backed =>
    intro n hn
    rcases named_writeDocNow hn with ⟨hf, -⟩ | ⟨r, hr, hf, -⟩
    · exact .inr ⟨(.ice1 id, b), puts_writeDocNow.mpr (.inl rfl), hf⟩
    · exact .inr ⟨(.loro r.1, r.2), puts_writeDocNow.mpr (.inr ⟨r, hr, rfl⟩), hf⟩
  case written =>
    intro p hp n hn he
    rcases named_writeDocNow hn with ⟨hf, hrec⟩ | ⟨r, hr, hf, hrec⟩
    · rcases puts_writeDocNow.mp hp with rfl | ⟨r, -, rfl⟩
      · exact hrec
      · rw [hf] at he
        cases he
    · rcases puts_writeDocNow.mp hp with rfl | ⟨r', hr', rfl⟩
      · rw [hf] at he
        cases he
      · rw [hr] at hr'
        cases hr'
        exact hrec
  case free =>
    intro p hp
    rcases puts_writeDocNow.mp hp with rfl | ⟨r, hr, rfl⟩
    · exact hid
    · exact (hres r (by simp [hr])).free r.2
  case cleared =>
    intro f hf n hn he
    obtain ⟨hk, m, n', hm, hn', rfl⟩ := mem_obsolete hf
    rcases named_writeDocNow hn with ⟨hfile, -⟩ | ⟨r, hr, hfile, -⟩
    · rw [← he, hfile] at hk
      exact hk (mem_singleton.mpr rfl)
    · have hu := hres r (by simp [hr])
      exact hu.2 m (current_mem_manifests hm) n' hn' (he.symm.trans hfile)
  case base =>
    intro hk
    cases hk

theorem fresh_rebootstrapNow {carried : Option (String × Content)} {stamp : Stamp}
    (hid : s.Unused (.ice1 id)) (hcar : ∀ r ∈ carried.toList, s.Unused (.loro r.1)) :
    s.Fresh contentIdOf (rebootstrapNow contentIdOf s.current id b carried stamp) := by
  have hw : s.Fresh contentIdOf (writeDocNow contentIdOf s.current id b carried stamp) :=
    fresh_writeDocNow (hid.free b) hcar
  constructor
  case start => rfl
  case undone => rfl
  case backed => exact hw.backed
  case written => exact hw.written
  case free => exact hw.free
  case cleared =>
    intro f hf n hn he
    obtain ⟨hk, -⟩ := mem_obsolete hf
    rw [← he] at hk
    have hn' : n ∈ (writeDocNow contentIdOf s.current id b carried stamp).next.named := hn
    rcases named_writeDocNow hn' with ⟨hfile, -⟩ | ⟨r, hr, hfile, -⟩
    · exact hk (by simp [hfile])
    · exact hk (by simp [hfile, hr])
  case base =>
    intro hk
    cases hk

theorem named_appendNow {stamp : Stamp} (hn : n ∈ (appendNow contentIdOf m id b stamp).next.named) :
    n ∈ m.named ∨ (n.file = .loro id ∧ n.Records contentIdOf b) := by
  rcases mem_named.mp hn with rfl | ⟨u, hu, rfl⟩
  · exact .inl (mem_named.mpr (.inl rfl))
  · rcases mem_snoc.mp hu with hu | rfl
    · exact .inl (mem_named.mpr (.inr ⟨u, hu, rfl⟩))
    · exact .inr ⟨rfl, rfl, rfl⟩

theorem fresh_appendNow {stamp : Stamp} (hm : s.current = some m)
    (hid : s.Free contentIdOf (.loro id) b) :
    s.Fresh contentIdOf (appendNow contentIdOf m id b stamp) := by
  have hmem := current_mem_manifests hm
  constructor
  case start => rfl
  case undone => rfl
  case backed =>
    intro n hn
    rcases named_appendNow hn with hn | ⟨hf, -⟩
    · exact .inl ⟨m, hmem, hn⟩
    · exact .inr ⟨(.loro id, b), mem_singleton.mpr rfl, hf⟩
  case written =>
    intro p hp n hn he
    obtain rfl := mem_singleton.mp hp
    rcases named_appendNow hn with hn | ⟨-, hrec⟩
    · exact hid.2 m hmem n hn he
    · exact hrec
  case free =>
    intro p hp
    obtain rfl := mem_singleton.mp hp
    exact hid
  case cleared =>
    intro f hf
    cases hf
  case base =>
    intro hk
    cases hk

theorem named_compactNow {baseEpoch : Int}
    (hn : n ∈ (compactNow contentIdOf m id b baseEpoch).next.named) :
    n.file = .ice1 id ∧ n.Records contentIdOf b := by
  obtain rfl := mem_singleton.mp hn
  exact ⟨rfl, rfl, rfl⟩

theorem fresh_compactNow {baseEpoch : Int} (hid : s.Unused (.ice1 id)) :
    s.Fresh contentIdOf (compactNow contentIdOf m id b baseEpoch) := by
  constructor
  case start => rfl
  case undone => rfl
  case backed =>
    intro n hn
    exact .inr ⟨(.ice1 id, b), mem_singleton.mpr rfl, (named_compactNow hn).1⟩
  case written =>
    intro p hp n hn _
    obtain rfl := mem_singleton.mp hp
    exact (named_compactNow hn).2
  case free =>
    intro p hp
    obtain rfl := mem_singleton.mp hp
    exact hid.free b
  case cleared =>
    intro f hf n hn he
    have hk : f ∉ [RevisionFile.ice1 id] :=
      (mem_obsolete (show f ∈ obsolete (some m) [.ice1 id] from hf)).1
    rw [← he, (named_compactNow hn).1] at hk
    exact hk (mem_singleton.mpr rfl)
  case base => exact fun _ => hid

/-! ## The commit goes on -/

theorem Sound.advance {phase : Phase} (h : s.Sound contentIdOf) (hx : s.committing = some x)
    (hd : x.done = false) (hold : x.phase ≠ .renamed) (hnew : phase ≠ .renamed) :
    ({ s with committing := some { x with phase := phase } } : RevisionState).Sound
      contentIdOf := by
  have hr := h.running x hx
  refine { h with running := ?running }
  case running =>
    intro y hy
    cases hy
    refine { hr with inPlace := ?inPlace, base := ?base, pointed := ?pointed, done := ?done }
    case inPlace => exact fun hp => absurd hp hnew
    case base => exact fun hk _ => hr.base hk fun hrep => hold hrep.2
    case pointed => exact fun hrep => absurd hrep.2 hnew
    case done =>
      intro (hdone : x.done = true)
      rw [hd] at hdone
      cases hdone

theorem Sound.put_file {rest : List (RevisionFile × Content)} (h : s.Sound contentIdOf)
    (hx : s.committing = some x) (hd : x.done = false) (hputs : x.puts = (f, b) :: rest)
    (hold : x.phase ≠ .renamed) :
    ({ s with
        revisions := s.revisions.put f (some b)
        committing := some { x with phase := .renamed } } : RevisionState).Sound
      contentIdOf := by
  have hr := h.running x hx
  have hmem : (f, b) ∈ x.puts := by
    rw [hputs]
    exact mem_cons_self
  have hput : ∀ n : Stored, s.revisions.Sure n.file (n.Records contentIdOf) →
      (n.file = f → n.Records contentIdOf b) →
      (s.revisions.put f (some b)).Sure n.file (n.Records contentIdOf) := by
    intro n hn hb
    by_cases hf : n.file = f
    · rw [hf] at hn ⊢
      exact hn.put_self (hb hf)
    · exact hn.put_ne hf
  constructor
  case backed =>
    intro m hm n hn
    exact hput n (h.backed m hm n hn) ((hr.free _ hmem).2 m hm n hn)
  case spared => exact h.spared
  case atomic => exact h.atomic
  case running =>
    intro y hy
    cases hy
    refine { hr with
      backed := ?backed, inPlace := ?inPlace, base := ?base, pointed := ?pointed, done := ?done }
    case backed =>
      intro _ n hn
      rcases hr.backed hd n hn with hsure | hp
      · exact .inl (hput n hsure (hr.written _ hmem n hn))
      · exact .inr hp
    case inPlace =>
      intro _ p hp
      have hp' : p = (f, b) := by
        rw [show ({ x with phase := Phase.renamed } : Committing).puts = (f, b) :: rest
          from hputs] at hp
        exact (some.inj hp).symm
      rw [hp']
      exact Directory.live_put_self
    case base => exact fun hk _ => hr.base hk fun hrep => hold hrep.2
    case pointed =>
      intro hrep
      have hnil : x.puts = [] := hrep.1
      rw [hputs] at hnil
      cases hnil
    case done =>
      intro (hdone : x.done = true)
      rw [hd] at hdone
      cases hdone

theorem Sound.sync_file {rest : List (RevisionFile × Content)} (h : s.Sound contentIdOf)
    (hx : s.committing = some x) (hd : x.done = false) (hputs : x.puts = (f, b) :: rest)
    (hold : x.phase = .renamed) :
    ({ s with
        revisions := s.revisions.sync
        committing := some { x with puts := rest, phase := .start } } : RevisionState).Sound
      contentIdOf := by
  have hr := h.running x hx
  have hlive : s.revisions.live f = some b := hr.inPlace hold (f, b) (by rw [hputs]; rfl)
  have hmem : (f, b) ∈ x.puts := by
    rw [hputs]
    exact mem_cons_self
  have hrest : ∀ p ∈ rest, p ∈ x.puts := by
    intro p hp
    rw [hputs]
    exact mem_cons_of_mem _ hp
  constructor
  case backed => exact fun m hm n hn => (h.backed m hm n hn).sync
  case spared => exact h.spared
  case atomic => exact h.atomic
  case running =>
    intro y hy
    cases hy
    constructor
    case backed =>
      intro _ n hn
      rcases hr.backed hd n hn with hsure | ⟨p, hp, hf⟩
      · exact .inl hsure.sync
      · rw [hputs] at hp
        rcases mem_cons.mp hp with rfl | hp
        · have hrec := hr.written _ hmem n hn hf
          rw [hf]
          exact .inl (Directory.sure_sync hlive hrec)
        · exact .inr ⟨p, hp, hf⟩
    case written => exact fun p hp => hr.written p (hrest p hp)
    case free => exact fun p hp => hr.free p (hrest p hp)
    case kept => exact hr.kept
    case inPlace =>
      intro hp
      cases hp
    case cleared => exact hr.cleared
    case tried => exact hr.tried
    case base =>
      intro hk _
      refine hr.base hk fun hrep => ?_
      cases hputs.symm.trans hrep.1
    case pointed =>
      intro hrep
      cases hrep.2
    case done =>
      intro (hdone : x.done = true)
      rw [hd] at hdone
      cases hdone

theorem Sound.put_current (h : s.Sound contentIdOf) (hx : s.committing = some x)
    (hd : x.done = false) (hputs : x.puts = []) :
    ({ s with
        pointer := s.pointer.put () (some x.next)
        committing := some { x with phase := .renamed } } : RevisionState).Sound
      contentIdOf := by
  have hr := h.running x hx
  have hmay : ∀ m : CurrentRevision, (s.pointer.put () (some x.next)).MayHave () (some m) →
      m = x.next ∨ m ∈ s.manifests := by
    intro m hm
    rcases Directory.mayHave_put_self.mp hm with he | hm
    · exact .inl (some.inj he)
    · exact .inr (mem_manifests.mpr hm)
  have hsure : ∀ n ∈ x.next.named, s.revisions.Sure n.file (n.Records contentIdOf) := by
    intro n hn
    rcases hr.backed hd n hn with hs | ⟨p, hp, -⟩
    · exact hs
    · rw [hputs] at hp
      cases hp
  constructor
  case backed =>
    intro m hm
    rcases hmay m (mem_manifests.mp hm) with rfl | hm
    · exact hsure
    · exact h.backed m hm
  case spared =>
    intro f hf m hm n hn he
    rcases hmay m (mem_manifests.mp hm) with rfl | hm
    · rw [← he] at hf
      exact hr.kept n hn hf
    · exact h.spared f hf m hm n hn he
  case atomic =>
    intro v hv
    rcases Directory.mayHave_put_self.mp hv with hv | hv
    · exact .inr ⟨x.next, hr.tried hd, hv⟩
    · exact h.atomic v hv
  case running =>
    intro y hy
    cases hy
    constructor
    case backed => exact fun _ n hn => .inl (hsure n hn)
    case written => exact hr.written
    case free =>
      intro p (hp : p ∈ x.puts)
      rw [hputs] at hp
      cases hp
    case kept => exact hr.kept
    case inPlace =>
      intro _ p (hp : p ∈ x.puts.head?)
      rw [hputs] at hp
      cases hp
    case cleared => exact hr.cleared
    case tried => exact hr.tried
    case base => exact fun _ hrep => absurd ⟨hputs, rfl⟩ hrep
    case pointed => exact fun _ => Directory.live_put_self
    case done =>
      intro (hdone : x.done = true)
      rw [hd] at hdone
      cases hdone

theorem Sound.sync_current (h : s.Sound contentIdOf) (hx : s.committing = some x)
    (hputs : x.puts = []) (hphase : x.phase = .renamed) :
    ({ s with
        pointer := s.pointer.sync
        committing := some { x with done := true }
        committed := some x.next
        tried := [] } : RevisionState).Sound contentIdOf := by
  have hr := h.running x hx
  have hlive : s.pointer.live () = some x.next := hr.pointed ⟨hputs, hphase⟩
  have honly : ∀ m : CurrentRevision, s.pointer.sync.MayHave () (some m) → m = x.next := by
    intro m hm
    exact some.inj ((Directory.mayHave_sync.mp hm).trans hlive)
  have hmem : x.next ∈ s.manifests := current_mem_manifests hlive
  constructor
  case backed =>
    intro m hm
    rw [honly m (mem_manifests.mp hm)]
    exact h.backed _ hmem
  case spared =>
    intro f hf m hm
    rw [honly m (mem_manifests.mp hm)]
    exact h.spared f hf _ hmem
  case atomic =>
    intro v hv
    exact .inl ((Directory.mayHave_sync.mp hv).trans hlive)
  case running =>
    intro y hy
    cases hy
    constructor
    case backed =>
      intro hdone
      cases hdone
    case written => exact hr.written
    case free =>
      intro p (hp : p ∈ x.puts)
      rw [hputs] at hp
      cases hp
    case kept => exact hr.kept
    case inPlace =>
      intro _ p (hp : p ∈ x.puts.head?)
      rw [hputs] at hp
      cases hp
    case cleared => exact hr.cleared
    case tried =>
      intro hdone
      cases hdone
    case base => exact fun _ hrep => absurd ⟨hputs, hphase⟩ hrep
    case pointed => exact fun _ => hlive
    case done =>
      exact fun _ => ⟨⟨hputs, hphase⟩, fun m hm => honly m (mem_manifests.mp hm)⟩

theorem Sound.step (h : s.Sound contentIdOf) (hs : s.step = some s') : s'.Sound contentIdOf := by
  rw [RevisionState.step] at hs
  split at hs
  · cases hs
  · next x hx =>
    split at hs
    · cases hs
    · next hd =>
      have hd : x.done = false := Bool.eq_false_iff.mpr hd
      split at hs
      · next f b rest hputs =>
        cases hs
        rw [stepFile]
        split
        · next hp => exact h.advance hx hd (by rw [hp]; decide) (by decide)
        · next hp => exact h.advance hx hd (by rw [hp]; decide) (by decide)
        · next hp => exact h.put_file hx hd hputs (by rw [hp]; decide)
        · next hp => exact h.sync_file hx hd hputs hp
      · next hputs =>
        cases hs
        rw [stepCurrent]
        split
        · next hp => exact h.advance hx hd (by rw [hp]; decide) (by decide)
        · next hp => exact h.advance hx hd (by rw [hp]; decide) (by decide)
        · exact h.put_current hx hd hputs
        · next hp => exact h.sync_current hx hputs hp

/-! ## The commit ends, and what it left is removed -/

theorem Sound.idle {removals : List RevisionFile} (h : s.Sound contentIdOf)
    (hrem : ∀ f ∈ removals, ∀ m ∈ s.manifests, ∀ n ∈ m.named, n.file ≠ f) :
    ({ s with committing := none, removals := removals } : RevisionState).Sound
      contentIdOf where
  __ := h
  spared := hrem
  running := by
    intro x hx
    cases hx

theorem Sound.fail (h : s.Sound contentIdOf) (hok : s.Orderly contentIdOf .fail)
    (hs : s.fail = some s') : s'.Sound contentIdOf := by
  rw [RevisionState.fail] at hs
  split at hs
  · cases hs
  · next x hx =>
    split at hs
    · cases hs
    · cases hs
      refine h.idle fun f hf m hm => ?_
      split at hf
      · next hk =>
        rcases mem_cons.mp hf with rfl | hf
        · have hrep : ¬x.Replaced := hok x (by rw [hx]; exact mem_singleton.mpr rfl) hk
          exact (h.running x hx).base hk hrep m hm
        · exact h.spared f hf m hm
      · exact h.spared f hf m hm

theorem Sound.settle {persisted : Bool} (h : s.Sound contentIdOf)
    (hs : s.settle persisted = some s') : s'.Sound contentIdOf := by
  rw [RevisionState.settle] at hs
  split at hs
  · cases hs
  · next x hx =>
    split at hs
    · next hd =>
      cases hs
      have hr := h.running x hx
      refine h.idle fun f hf m hm => ?_
      split at hf
      · rcases mem_append.mp hf with hf | hf
        · rw [(hr.done hd).2 m hm]
          exact hr.cleared f hf
        · exact h.spared f hf m hm
      · exact h.spared f hf m hm
    · cases hs

theorem Sound.remove {removed : Bool} (h : s.Sound contentIdOf)
    (hs : s.remove f removed = some s') : s'.Sound contentIdOf := by
  rw [RevisionState.remove] at hs
  split at hs
  · next hf =>
    cases hs
    have hsub : ∀ f', f' ∈ s.removals.erase f → f' ∈ s.removals :=
      fun f' hf' => mem_of_mem_erase hf'
    have hput : ∀ n : Stored, n.file ≠ f →
        s.revisions.Sure n.file (n.Records contentIdOf) →
        (if removed then s.revisions.put f none else s.revisions).Sure n.file
          (n.Records contentIdOf) := by
      intro n hne hn
      split
      · exact hn.put_ne hne
      · exact hn
    constructor
    case backed =>
      intro m hm n hn
      exact hput n (h.spared f hf m hm n hn) (h.backed m hm n hn)
    case spared => exact fun f' hf' => h.spared f' (hsub f' hf')
    case atomic => exact h.atomic
    case running =>
      intro x hx
      have hr := h.running x hx
      refine { hr with backed := ?backed, free := ?free, kept := ?kept, inPlace := ?inPlace }
      case backed =>
        intro hd n hn
        have hne : n.file ≠ f := fun he => hr.kept n hn (he ▸ hf)
        exact (hr.backed hd n hn).imp (hput n hne) id
      case free => exact fun p hp => ⟨fun hm => (hr.free p hp).1 (hsub _ hm), (hr.free p hp).2⟩
      case kept => exact fun n hn hm => hr.kept n hn (hsub _ hm)
      case inPlace =>
        intro hp p hmem
        have hpf : p.1 ≠ f := by
          intro he
          have hm : p ∈ x.puts := List.mem_of_mem_head? hmem
          exact (hr.free p hm).1 (he ▸ hf)
        show (if removed then s.revisions.put f none else s.revisions).live p.1 = some p.2
        split
        · rw [Directory.live_put_ne hpf]
          exact hr.inPlace hp p hmem
        · exact hr.inPlace hp p hmem
  · cases hs

/-! ## Crashes -/

theorem Sound.crash {files : List (RevisionFile × Option Content)}
    {current : List (Unit × Option CurrentRevision)} (h : s.Sound contentIdOf)
    (hfiles : s.revisions.Past files) (hcur : s.pointer.Past current) :
    ({ s with
        revisions := s.revisions.crash files
        pointer := s.pointer.crash current
        committing := none
        removals := [] } : RevisionState).Sound contentIdOf where
  backed := by
    intro m hm n hn
    have hm' : m ∈ s.manifests :=
      mem_manifests.mpr (Directory.mayHave_crash hcur (mem_manifests.mp hm))
    exact (h.backed m hm' n hn).crash hfiles
  spared := by
    intro f hf
    cases hf
  atomic := fun v hv => h.atomic v (Directory.mayHave_crash hcur hv)
  running := by
    intro x hx
    cases hx

/-! ## Whole runs -/

theorem sound_start : ({} : RevisionState).Sound contentIdOf where
  backed := by
    intro m hm
    cases hm
  spared := by
    intro f hf
    cases hf
  atomic := by
    intro v hv
    rcases hv with hv | hv
    · exact .inl hv
    · cases hv
  running := by
    intro x hx
    cases hx

theorem Sound.next {e : RevisionEvent} (h : s.Sound contentIdOf) (hok : s.Orderly contentIdOf e)
    (hs : s.next contentIdOf e = some s') : s'.Sound contentIdOf := by
  cases e with
  | checkpoint id b residual stamp =>
    rw [RevisionState.next] at hs
    split at hs
    · next hres => exact h.begin (fresh_writeDocNow hok hres) hs
    · cases hs
  | append id b stamp =>
    obtain ⟨m, hm, hs⟩ := bind_eq_some_iff.mp hs
    split at hs
    · cases hs
    · exact h.begin (fresh_appendNow hm hok) hs
  | compact id b baseEpoch =>
    obtain ⟨m, hm, hs⟩ := bind_eq_some_iff.mp hs
    split at hs
    · next hid => exact h.begin (fresh_compactNow hid) hs
    · cases hs
  | rebootstrap id b carried stamp =>
    rw [RevisionState.next] at hs
    split at hs
    · next hfree => exact h.begin (fresh_rebootstrapNow hfree.1 hfree.2) hs
    · cases hs
  | step => exact h.step hs
  | fail => exact h.fail hok hs
  | settle persisted => exact h.settle hs
  | remove f removed => exact h.remove hs
  | crash files current =>
    rw [RevisionState.next] at hs
    split at hs
    · next hp =>
      cases hs
      exact h.crash hp.1 hp.2
    · cases hs

/-- While clients' ids are free and no compaction fails past its rename, whatever
`current.json` names is whole, at every point of every run, whatever fails or crashes. -/
theorem commits_atomic {s : RevisionState}
    (h : (revisionMachine contentIdOf).Reaches (Orderly contentIdOf) s) :
    s.Intact contentIdOf ∧ s.Atomic ∧ s.Spared := by
  have hs : s.Sound contentIdOf := h.invariant sound_start fun _ _ _ hs hok hn => hs.next hok hn
  exact ⟨hs.intact, hs.isAtomic, hs.isSpared⟩

/-! ## Runs -/

def contentId (b : Content) : String := String.ofList (b.map fun x => Char.ofNat x.toNat)

def whole (files : Nat) : List RevisionEvent :=
  List.replicate (4 * (files + 1)) .step ++ [.settle true]

def stamp : Stamp := { committedAt := 1, engineSchema := none, savedAt := 1, baseEpoch := 0 }

def journaled : List RevisionEvent :=
  .checkpoint "a" [1] none stamp :: whole 1 ++ .append "u" [2] stamp :: whole 1 ++
    .append "v" [3] stamp :: whole 1

def holdsIn (n : Stored) (s : RevisionState) : Bool :=
  (s.revisions.live n.file).any fun b => decide (n.Records contentId b)

def torn (s : RevisionState) : Bool :=
  s.current.any fun m => m.named.any fun n => !holdsIn n s

theorem not_intact_of_torn (h : torn s = true) : ¬s.Intact contentId := by
  intro hi
  obtain ⟨m, hm, hany⟩ := Option.any_eq_true _ _ |>.mp h
  obtain ⟨n, hn, hno⟩ := List.any_eq_true.mp hany
  obtain ⟨b, hb, hrec⟩ := hi m hm n hn
  rw [holdsIn, hb] at hno
  simp [hrec] at hno

/-- A journal record's id comes again with other bytes, and the commit goes no further; or a
compaction's last sync fails, and it removes the base `current.json` names. -/
theorem commits_tear :
    (∃ s, (revisionMachine contentId).Reachable s ∧ ¬s.Intact contentId ∧
        s.revisions.live (.loro "u") = some [8, 9]) ∧
      ∃ s, (revisionMachine contentId).Reachable s ∧ ¬s.Intact contentId ∧
        s.revisions.live (.ice1 "c") = none := by
  constructor
  · obtain ⟨s, hs, hp⟩ := Machine.exists_of_run (M := revisionMachine contentId)
      (fun s => torn s && decide (s.revisions.live (.loro "u") = some [8, 9]))
      (journaled ++ [.append "u" [8, 9] stamp, .step, .step, .step, .fail]) (by decide)
    obtain ⟨ht, hl⟩ := Bool.and_eq_true_iff.mp hp
    exact ⟨s, hs, not_intact_of_torn ht, of_decide_eq_true hl⟩
  · obtain ⟨s, hs, hp⟩ := Machine.exists_of_run (M := revisionMachine contentId)
      (fun s => torn s && decide (s.revisions.live (.ice1 "c") = none))
      (journaled ++ .compact "c" [7] 1 :: List.replicate 7 .step ++
        [.fail, .remove (.ice1 "c") true]) (by decide)
    obtain ⟨ht, hl⟩ := Bool.and_eq_true_iff.mp hp
    exact ⟨s, hs, not_intact_of_torn ht, of_decide_eq_true hl⟩

/-- A checkpoint over a journal, crashed once its rename is in place and turned back. -/
theorem commits_atomic_crashed :
    ∃ s : RevisionState, (s.Intact contentId ∧ s.Atomic ∧ s.Spared) ∧
      s.current.map (·.revisionId) = some "v" := by
  obtain ⟨s, hs, hp⟩ := Machine.exists_of_orderly_run (M := revisionMachine contentId)
    (Orderly contentId) (fun s => decide (s.current.map (·.revisionId) = some "v"))
    (journaled ++ .checkpoint "b" [5] (some ("r", [6])) stamp :: List.replicate 11 .step ++
      [.crash [] [((), some (appendNow contentId (appendNow contentId (writeDocNow contentId none
        "a" [1] none stamp).next "u" [2] stamp).next "v" [3] stamp).next)]]) (by decide)
  exact ⟨s, commits_atomic hs, of_decide_eq_true hp⟩

end RevisionState

end VibeField.Fieldd
