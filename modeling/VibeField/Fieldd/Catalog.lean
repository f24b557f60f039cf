import VibeField.Base.Machine
import VibeField.Fieldd.Library

/-!
# The catalog against the library

The registry is this desktop's answer, the library the account's.  An edit goes into the
registry, waits for its persist, and then goes into the library.  A change another desktop
made to the library asks for a reconcile.  Reconciles run one at a time: a run reads every
row, seeds the canvases the library lacks, and then folds the rows it read into the
registry, one after the other.

The rows of a run are the library as it was when the run began.  What an edit wrote since,
or is about to write, they do not have.
-/

namespace VibeField.Fieldd

open List Option Dict

/-- The columns the registry and the library both keep. -/
inductive Shared where
  | name
  | syncIntent
  | tombstone
  deriving DecidableEq, Repr

def Edit.shared : Edit → Shared
  | .rename _ => .name
  | .delete _ => .tombstone
  | .setSyncIntent _ => .syncIntent

def Patch.touches (p : Patch) : Shared → Bool
  | .name => p.name.isSome
  | .syncIntent => p.syncIntent.isSome
  | .tombstone => p.deletedAt.isSome

def Agrees (e : DocRegistryEntry) (row : DocLibraryEntry) : Shared → Prop
  | .name => e.deletedAt = none → e.name = row.name
  | .syncIntent => e.deletedAt = none → e.syncIntent = row.syncIntent
  | .tombstone => e.deletedAt.isSome = row.tombstone.isSome

def SameIn (row row' : DocLibraryEntry) : Shared → Prop
  | .name => row.name = row'.name
  | .syncIntent => row.syncIntent = row'.syncIntent
  | .tombstone => row.tombstone.isSome = row'.tombstone.isSome

def Edit.Holds (e : DocRegistryEntry) : Edit → Prop
  | .rename name => e.name = name
  | .delete deletedAt => e.deletedAt = some deletedAt
  | .setSyncIntent intent => e.syncIntent = some intent

/-- An edit on its way: its persist is done when it is `durable`. -/
structure Editing where
  docId : DocId
  edit : Edit
  captured : DocRegistryEntry
  durable : Bool := false
  deriving DecidableEq, Repr

/-- A reconcile under way: the entries it has yet to seed, the rows it has yet to fold, the
row whose directory is being made.  `written` are the columns an edit wrote to the library
since the run read it, `merged` the canvases another desktop changed. -/
structure Reconcile where
  seeds : List DocRegistryEntry
  known : List DocLibraryEntry
  adopting : Option DocLibraryEntry := none
  written : List (DocId × Shared) := []
  merged : List DocId := []
  deriving DecidableEq, Repr

/-- Edits are named by the time they began at.  `touched` is when a canvas's entry was last
set or a row of it folded; `home` are the canvases kept home by a durable edit since the
last change of their intent. -/
structure CatalogState where
  registry : Registry
  library : Library
  clock : Nat
  edits : Dict Nat Editing
  pending : Nat
  run : Option Reconcile
  touched : DocId → Nat
  home : List DocId

/-- What a boot finds: entries under their own ids, and a library that states an intent and
a tombstone where the registry does and only of canvases it lists. -/
structure Catalog where
  registry : Registry
  library : Library
  keyed : ∀ d e, registry.lookup d = some e → e.docId = d
  intents : ∀ d e row, registry.lookup d = some e → library.get d = some row →
    e.syncIntent.isSome → row.syncIntent.isSome
  tombstones : ∀ d e, registry.lookup d = some e → e.deletedAt.isSome →
    ∃ row, library.get d = some row ∧ row.tombstone.isSome
  whole : ∀ d, (library.fields d).Whole

namespace CatalogState

def boot (c : Catalog) : CatalogState :=
  { registry := c.registry, library := c.library, clock := 1, edits := ∅, pending := 1,
    run := none, touched := fun _ => 0, home := [] }

def touch (s : CatalogState) (d : DocId) : CatalogState :=
  { s with touched := fun d' => if d' = d then s.clock else s.touched d' }

def tick (s : CatalogState) : CatalogState := { s with clock := s.clock + 1 }

def withRun (s : CatalogState) (f : Reconcile → Reconcile) : CatalogState :=
  { s with run := s.run.map f }

/-! ## The edits -/

def edit (s : CatalogState) (d : DocId) (e : Edit) : Option CatalogState :=
  match s.registry.lookup d with
  | none => none
  | some entry =>
    if e.finds entry then
      some
        (({ s with
            registry := s.registry.insert d (entry.spread e.patch)
            edits := s.edits.insert s.clock { docId := d, edit := e, captured := entry }
            home := if e = .setSyncIntent .sync then s.home.filter (· ≠ d) else s.home }
          : CatalogState).touch d).tick
    else none

def persisted (s : CatalogState) (op : Nat) : Option CatalogState :=
  match s.edits.lookup op with
  | some x =>
    if x.durable then none
    else
      some
        ({ s with
            edits := s.edits.insert op { x with durable := true }
            home := if x.edit = .setSyncIntent .localOnly then x.docId :: s.home else s.home }
          : CatalogState).tick
  | none => none

def failed (s : CatalogState) (op : Nat) : Option CatalogState :=
  match s.edits.lookup op with
  | some x =>
    if x.durable then none
    else
      some
        (({ s with
            registry := s.registry.insert x.docId x.captured
            edits := s.edits.erase op } : CatalogState).touch x.docId).tick
  | none => none

def written (self : Option String) (s : CatalogState) (op : Nat) : Option CatalogState :=
  match s.edits.lookup op with
  | some x =>
    if x.durable then
      some
        (({ s with
            library := s.library.write x.docId fun f => x.edit.fields self f
            edits := s.edits.erase op } : CatalogState).withRun fun r =>
          { r with written := (x.docId, x.edit.shared) :: r.written }).tick
    else none
  | none => none

def refused (s : CatalogState) (op : Nat) : Option CatalogState :=
  match s.edits.lookup op with
  | some x => if x.durable then some { s with edits := s.edits.erase op }.tick else none
  | none => none

/-! ## The reconcile -/

def merge (s : CatalogState) (d : DocId) (f : LibraryFields) : Option CatalogState :=
  if (s.library.fields d).MergesInto f then
    some
      (({ s with
          library := s.library.insert d f
          pending := s.pending + 1
          home := if f.intents = (s.library.fields d).intents then s.home
            else s.home.filter (· ≠ d) } : CatalogState).withRun fun r =>
        { r with merged := d :: r.merged }).tick
  else none

def unlisted (s : CatalogState) : List DocRegistryEntry :=
  s.registry.values.filter fun e =>
    (s.library.get e.docId).isNone && e.deletedAt.isNone && e.system != some true

def start (s : CatalogState) : Option CatalogState :=
  if s.pending ≠ 0 ∧ s.run.isNone then
    some { s with
      pending := s.pending - 1
      run := some { seeds := s.unlisted, known := s.library.entries } }.tick
  else none

def seed (self : Option String) (s : CatalogState) (reached : Bool) : Option CatalogState :=
  match s.run with
  | some r =>
    match r.seeds with
    | entry :: rest =>
      some
        { s with
          library :=
            if reached then s.library.write entry.docId (seedFields self entry) else s.library
          run := some { r with seeds := rest } }.tick
    | [] => none
  | none => none

/-- One row is folded; `syncs` is what its intent resolves to here. -/
def fold (s : CatalogState) (syncs : Bool) : Option CatalogState :=
  match s.run with
  | some r =>
    match r.seeds, r.adopting, r.known with
    | [], none, row :: rest =>
      let s := { s with run := some { r with known := rest } }
      match foldRow syncs row (s.registry.lookup row.docId) with
      | .leave => some (s.touch row.docId).tick
      | .adopt => some { s with run := some { r with known := rest, adopting := some row } }.tick
      | .change patch =>
        (s.registry.lookup row.docId).map fun entry =>
          (({ s with registry := s.registry.insert row.docId (entry.spread patch) }
            : CatalogState).touch row.docId).tick
    | _, _, _ => none
  | none => none

def adopt (s : CatalogState) (made : Bool) : Option CatalogState :=
  match s.run with
  | some r =>
    match r.adopting with
    | some row =>
      some
        (({ s with
            registry := if made then s.registry.insert row.docId (adoptedEntry row)
              else s.registry
            run := some { r with adopting := none } } : CatalogState).touch row.docId).tick
    | none => none
  | none => none

def finish (s : CatalogState) : Option CatalogState :=
  match s.run with
  | some r =>
    if r.seeds = [] ∧ r.known = [] ∧ r.adopting = none then some { s with run := none }.tick
    else none
  | none => none

end CatalogState

inductive CatalogEvent where
  | edit (d : DocId) (e : Edit)
  | persisted (op : Nat)
  | failed (op : Nat)
  | written (op : Nat)
  | refused (op : Nat)
  | merge (d : DocId) (f : LibraryFields)
  | start
  | seed (reached : Bool)
  | fold (syncs : Bool)
  | adopt (made : Bool)
  | finish
  deriving DecidableEq, Repr

def CatalogState.next (self : Option String) (s : CatalogState) :
    CatalogEvent → Option CatalogState
  | .edit d e => s.edit d e
  | .persisted op => s.persisted op
  | .failed op => s.failed op
  | .written op => s.written self op
  | .refused op => s.refused op
  | .merge d f => s.merge d f
  | .start => s.start
  | .seed reached => s.seed self reached
  | .fold syncs => s.fold syncs
  | .adopt made => s.adopt made
  | .finish => s.finish

def catalogMachine (self : Option String) (c : Catalog) : Machine CatalogState CatalogEvent where
  start := .boot c
  next := CatalogState.next self

namespace CatalogState

/-! ## What is wanted of the catalog -/

/-- Every edit has returned and every reconcile has run. -/
def Quiet (s : CatalogState) : Prop :=
  (∀ op, s.edits.lookup op = none) ∧ s.pending = 0 ∧ s.run = none

/-- Registry and library say the same of every canvas they both have. -/
def Agreed (s : CatalogState) : Prop :=
  ∀ d e row, s.registry.lookup d = some e → s.library.get d = some row → ∀ c, Agrees e row c

/-- A canvas kept home is local in the registry. -/
def KeptHome (s : CatalogState) : Prop :=
  ∀ d ∈ s.home, ∀ e, s.registry.lookup d = some e → e.syncIntent = some .localOnly

/-- An edit of this column has not reached the library. -/
def Busy (s : CatalogState) (d : DocId) (c : Shared) : Prop :=
  ∃ op x, s.edits.lookup op = some x ∧ x.docId = d ∧ x.edit.shared = c

/-- Another edit than `op` has not reached the library. -/
def BusyBut (s : CatalogState) (op : Nat) (d : DocId) (c : Shared) : Prop :=
  ∃ op' x, op' ≠ op ∧ s.edits.lookup op' = some x ∧ x.docId = d ∧ x.edit.shared = c

def Orderly (s : CatalogState) : CatalogEvent → Prop
  | .edit d e => s.library.get d ≠ none ∧ ¬s.Busy d e.shared
  | .failed op => ∀ x, s.edits.lookup op = some x → s.touched x.docId = op
  | .refused _ => False
  | .merge d f => f.Whole ∧ (s.library.get d = none → ∀ e, s.registry.lookup d = some e →
      e.syncIntent.isSome → f.intents.isSome)
  | .seed _ => ∀ r entry rest, s.run = some r → r.seeds = entry :: rest →
      (entry.docId, .name) ∉ r.written ∧ (entry.docId, .syncIntent) ∉ r.written
  | .fold syncs => ∀ r row rest patch, s.run = some r → r.known = row :: rest →
      foldRow syncs row (s.registry.lookup row.docId) = .change patch →
      ∀ c, patch.touches c = true → ¬s.Busy row.docId c ∧ (row.docId, c) ∉ r.written
  | _ => True

end CatalogState

/-! ## Columns, edits and rows -/

theorem Edit.touches_patch (e : Edit) (c : Shared) :
    e.patch.touches c = true ↔ c = e.shared := by
  cases e <;> cases c <;> simp [Edit.patch, Patch.touches, Edit.shared]

theorem Edit.holds_spread (entry : DocRegistryEntry) (e : Edit) :
    e.Holds (entry.spread e.patch) := by
  cases e <;> rfl

variable {c : Shared} {e : Edit} {entry : DocRegistryEntry} {p : Patch}
  {row row' : DocLibraryEntry} {syncs : Bool}

theorem Edit.holds_iff (h : p.touches e.shared = false) (entry : DocRegistryEntry) :
    e.Holds (entry.spread p) ↔ e.Holds entry := by
  cases e with
  | rename name =>
    have hp : p.name = none := by simpa [Patch.touches, Edit.shared] using h
    simp [Edit.Holds, DocRegistryEntry.spread, hp]
  | delete deletedAt =>
    have hp : p.deletedAt = none := by simpa [Patch.touches, Edit.shared] using h
    simp [Edit.Holds, DocRegistryEntry.spread, hp]
  | setSyncIntent intent =>
    have hp : p.syncIntent = none := by simpa [Patch.touches, Edit.shared] using h
    simp [Edit.Holds, DocRegistryEntry.spread, hp]

theorem live_of_spread {e : DocRegistryEntry} (h : (e.spread p).deletedAt = none) :
    e.deletedAt = none := (or_eq_none_iff.mp h).2

theorem Agrees.spread {e : DocRegistryEntry} (h : Agrees e row c) (hp : p.touches c = false) :
    Agrees (e.spread p) row c := by
  cases c with
  | name =>
    intro hlive
    have hn : p.name = none := by simpa [Patch.touches] using hp
    rw [← h (live_of_spread hlive)]
    show p.name.getD e.name = e.name
    rw [hn]
    rfl
  | syncIntent =>
    intro hlive
    have hn : p.syncIntent = none := by simpa [Patch.touches] using hp
    rw [← h (live_of_spread hlive)]
    show p.syncIntent.or e.syncIntent = e.syncIntent
    rw [hn]
    rfl
  | tombstone =>
    have hn : p.deletedAt = none := by simpa [Patch.touches] using hp
    show (p.deletedAt.or e.deletedAt).isSome = row.tombstone.isSome
    rw [hn]
    exact h

theorem Agrees.same {e : DocRegistryEntry} (h : Agrees e row c) (hs : SameIn row row' c) :
    Agrees e row' c := by
  cases c with
  | name => exact fun hlive => (h hlive).trans hs
  | syncIntent => exact fun hlive => (h hlive).trans hs
  | tombstone => exact h.trans hs

theorem SameIn.refl (row : DocLibraryEntry) (c : Shared) : SameIn row row c := by
  cases c <;> rfl

theorem SameIn.trans {row row' row'' : DocLibraryEntry} (h : SameIn row row' c)
    (h' : SameIn row' row'' c) : SameIn row row'' c := by
  cases c
  · exact Eq.trans h h'
  · exact Eq.trans h h'
  · exact Eq.trans h h'

theorem Edit.agrees_fields (h : e.Holds entry) (self : Option String) (f : LibraryFields)
    (d : DocId) : Agrees entry ((e.fields self f).row d) e.shared := by
  cases e with
  | rename name => exact fun _ => h
  | delete deletedAt =>
    have hd : entry.deletedAt = some deletedAt := h
    show entry.deletedAt.isSome = true
    rw [hd]
    rfl
  | setSyncIntent intent => exact fun _ => h

theorem Edit.sameIn_fields (h : c ≠ e.shared) (self : Option String) (f : LibraryFields)
    (d : DocId) : SameIn (f.row d) ((e.fields self f).row d) c := by
  cases e <;> cases c <;> first | rfl | exact absurd rfl h

theorem Edit.tombstones_fields (e : Edit) (self : Option String) {f : LibraryFields}
    (h : f.tombstones.isSome) : (e.fields self f).tombstones.isSome := by
  cases e <;> first | exact h | rfl

theorem Edit.intents_fields (e : Edit) (self : Option String) {f : LibraryFields}
    (h : f.intents.isSome) : (e.fields self f).intents.isSome := by
  cases e <;> first | exact h | rfl

/-! ## One row against one entry -/

def folded (syncs : Bool) (row : DocLibraryEntry) (entry : DocRegistryEntry) :
    DocRegistryEntry :=
  match foldRow syncs row (some entry) with
  | .change patch => entry.spread patch
  | _ => entry

theorem foldRow_tombstone {deletedAt : Int} (hrow : row.tombstone = some deletedAt) :
    foldRow syncs row (some entry) =
      if entry.deletedAt.isNone then .change { deletedAt := some deletedAt } else .leave := by
  rw [foldRow, hrow]

theorem foldRow_live (hrow : row.tombstone = none) (he : entry.deletedAt = none) :
    foldRow syncs row (some entry) =
      if row.name ≠ entry.name ∨ row.syncIntent.or entry.syncIntent ≠ entry.syncIntent then
        .change
          { name := if row.name ≠ entry.name then some row.name else none,
            syncIntent := if row.syncIntent.or entry.syncIntent ≠ entry.syncIntent then
              row.syncIntent.or entry.syncIntent else none }
      else .leave := by
  rw [foldRow, hrow]
  dsimp only
  rw [he]
  rfl

theorem foldRow_deleted (hrow : row.tombstone = none) (he : entry.deletedAt.isSome) :
    foldRow syncs row (some entry) = .leave := by
  rw [foldRow, hrow]
  exact if_pos he

theorem foldRow_some_ne_adopt (syncs : Bool) (row : DocLibraryEntry) (entry : DocRegistryEntry) :
    foldRow syncs row (some entry) ≠ .adopt := by
  cases hrow : row.tombstone with
  | some deletedAt =>
    rw [foldRow_tombstone hrow]
    split <;> exact RowFold.noConfusion
  | none =>
    by_cases he : entry.deletedAt = none
    · rw [foldRow_live hrow he]
      split <;> exact RowFold.noConfusion
    · rw [foldRow_deleted hrow (isSome_iff_ne_none.mpr he)]
      exact RowFold.noConfusion

theorem folded_live (hrow : row.tombstone = none) (he : entry.deletedAt = none) :
    (folded syncs row entry).name = row.name ∧
      (folded syncs row entry).syncIntent = row.syncIntent.or entry.syncIntent ∧
      (folded syncs row entry).deletedAt = none := by
  rw [folded, foldRow_live hrow he]
  by_cases hn : row.name = entry.name
  · by_cases hi : row.syncIntent.or entry.syncIntent = entry.syncIntent
    · rw [if_neg (by simp [hn, hi])]
      exact ⟨hn.symm, hi.symm, he⟩
    · rw [if_pos (Or.inr hi)]
      refine ⟨?_, ?_, ?_⟩
      · simp [DocRegistryEntry.spread, hn]
      · have hsome : row.syncIntent ≠ none := by
          intro hnone
          rw [hnone] at hi
          exact hi rfl
        obtain ⟨i, hrowi⟩ := ne_none_iff_exists'.mp hsome
        rw [hrowi] at hi ⊢
        have hi' : ¬some i = entry.syncIntent := hi
        simp [DocRegistryEntry.spread, hi']
      · simpa [DocRegistryEntry.spread] using he
  · rw [if_pos (Or.inl hn)]
    refine ⟨?_, ?_, ?_⟩
    · simp [DocRegistryEntry.spread, hn]
    · cases hrowi : row.syncIntent with
      | none => simp [DocRegistryEntry.spread]
      | some i =>
        by_cases hsame : some i = entry.syncIntent
        · simp [DocRegistryEntry.spread, hsame.symm]
        · simp [DocRegistryEntry.spread, hsame]
    · simpa [DocRegistryEntry.spread] using he

theorem folded_tombstone {deletedAt : Int} (hrow : row.tombstone = some deletedAt) :
    (folded syncs row entry).deletedAt.isSome := by
  rw [folded, foldRow_tombstone hrow]
  by_cases he : entry.deletedAt.isNone = true
  · rw [if_pos he]
    rfl
  · rw [if_neg he]
    simpa [isSome_iff_ne_none] using he

theorem folded_deleted (hrow : row.tombstone = none) (he : entry.deletedAt.isSome) :
    folded syncs row entry = entry := by
  rw [folded, foldRow_deleted hrow he]

theorem folded_agrees (hsame : SameIn row row' c)
    (htomb : c = .tombstone → entry.deletedAt.isSome → row'.tombstone.isSome)
    (hintent : c = .syncIntent → entry.syncIntent.isSome → row'.syncIntent.isSome) :
    Agrees (folded syncs row entry) row' c := by
  cases hrow : row.tombstone with
  | some deletedAt =>
    have hdel : (folded syncs row entry).deletedAt.isSome := folded_tombstone hrow
    cases c with
    | name =>
      intro hlive
      rw [hlive] at hdel
      cases hdel
    | syncIntent =>
      intro hlive
      rw [hlive] at hdel
      cases hdel
    | tombstone =>
      show (folded syncs row entry).deletedAt.isSome = row'.tombstone.isSome
      have hs : row.tombstone.isSome = row'.tombstone.isSome := hsame
      rw [hdel, ← hs, hrow]
      rfl
  | none =>
    by_cases he : entry.deletedAt = none
    · obtain ⟨hname, hint, hlive⟩ := @folded_live entry row syncs hrow he
      cases c with
      | name => exact fun _ => hname.trans hsame
      | syncIntent =>
        intro _
        have hs : row.syncIntent = row'.syncIntent := hsame
        rw [hint, hs]
        cases hi : row'.syncIntent with
        | some i => rfl
        | none =>
          cases hei : entry.syncIntent with
          | none => rfl
          | some i =>
            have := hintent rfl (by rw [hei]; rfl)
            rw [hi] at this
            cases this
      | tombstone =>
        show (folded syncs row entry).deletedAt.isSome = row'.tombstone.isSome
        have hs : row.tombstone.isSome = row'.tombstone.isSome := hsame
        rw [hlive, ← hs, hrow]
    · have hdel : entry.deletedAt.isSome := isSome_iff_ne_none.mpr he
      rw [folded_deleted hrow hdel]
      cases c with
      | name => exact fun hlive => absurd hlive he
      | syncIntent => exact fun hlive => absurd hlive he
      | tombstone =>
        have hs : row.tombstone.isSome = row'.tombstone.isSome := hsame
        have := htomb rfl hdel
        rw [← hs, hrow] at this
        cases this

def Reconcile.toFold (r : Reconcile) : List DocLibraryEntry := r.adopting.toList ++ r.known

namespace CatalogState

/-! ## What every run keeps -/

/-- A reconcile still to come, or a row still to fold, will bring a column into agreement. -/
def Due (s : CatalogState) (d : DocId) (c : Shared) : Prop :=
  0 < s.pending ∨ ∃ r row row', s.run = some r ∧ row ∈ r.known ∧ row.docId = d ∧
    s.library.get d = some row' ∧ SameIn row row' c

/-- What a run read is the library as it is, but for what an edit wrote or another desktop
changed since. -/
structure RunSound (s : CatalogState) (r : Reconcile) : Prop where
  merged : r.merged ≠ [] → 0 < s.pending
  nodup : (r.toFold.map (·.docId)).Nodup
  current : ∀ row ∈ r.toFold, ∃ row', s.library.get row.docId = some row' ∧
    (row.tombstone.isSome → row'.tombstone.isSome) ∧
    (row.syncIntent.isSome → row'.syncIntent.isSome) ∧
    ∀ c, SameIn row row' c ∨ (row.docId, c) ∈ r.written ∨ row.docId ∈ r.merged
  seedsNodup : (r.seeds.map (·.docId)).Nodup
  unseeded : ∀ entry ∈ r.seeds, ∀ row ∈ r.toFold, row.docId ≠ entry.docId
  seeds : ∀ entry ∈ r.seeds, entry.deletedAt = none ∧
    s.registry.lookup entry.docId ≠ none ∧
    (s.library.get entry.docId = none → s.registry.lookup entry.docId = some entry) ∧
    (s.library.get entry.docId ≠ none → 0 < s.pending)
  written : ∀ d c, (d, c) ∈ r.written → s.registry.lookup d ≠ none
  adopting : ∀ row, r.adopting = some row →
    s.registry.lookup row.docId = none ∧ row.tombstone = none

/-- An edit that finds the entry as it left it may put back what it captured. -/
structure Found (s : CatalogState) (op : Nat) (x : Editing) : Prop where
  entry : s.registry.lookup x.docId = some (x.captured.spread x.edit.patch)
  tombs : x.captured.deletedAt.isSome →
    (∃ row, s.library.get x.docId = some row ∧ row.tombstone.isSome) ∨
      s.BusyBut op x.docId .tombstone
  intents : x.captured.syncIntent.isSome → ∀ row, s.library.get x.docId = some row →
    row.syncIntent.isSome ∨ s.BusyBut op x.docId .syncIntent
  agree : ∀ row, s.library.get x.docId = some row → ∀ c, Agrees x.captured row c ∨
    s.BusyBut op x.docId c ∨ s.Due x.docId c
  home : x.docId ∈ s.home → x.durable = false → x.captured.syncIntent = some .localOnly

/-- The durable edit that keeps a canvas home is on its way to the library. -/
def Homing (s : CatalogState) (d : DocId) : Prop :=
  ∃ op x, s.edits.lookup op = some x ∧ x.docId = d ∧ x.edit = .setSyncIntent .localOnly ∧
    x.durable = true

/-- The library keeps a canvas home, and what a run read of it does too, unless an edit
wrote it since. -/
def AtHome (s : CatalogState) (d : DocId) : Prop :=
  (∀ row, s.library.get d = some row → row.syncIntent = some .localOnly) ∧
    ∀ r, s.run = some r → (d, .syncIntent) ∈ r.written ∨
      ((∀ row ∈ r.toFold, row.docId = d → row.syncIntent = some .localOnly) ∧
        ∀ entry ∈ r.seeds, entry.docId ≠ d)

/-- What every run keeps of one canvas. -/
structure DocSound (s : CatalogState) (d : DocId) : Prop where
  whole : (s.library.fields d).Whole
  keyed : ∀ e, s.registry.lookup d = some e → e.docId = d
  held : ∀ op x, s.edits.lookup op = some x → x.docId = d →
    s.registry.lookup d ≠ none ∧ s.library.get d ≠ none
  apart : ∀ op op' x x', s.edits.lookup op = some x → s.edits.lookup op' = some x' →
    x.docId = d → x'.docId = d → x.edit.shared = x'.edit.shared → op = op'
  holds : ∀ op x e, s.edits.lookup op = some x → x.docId = d → s.registry.lookup d = some e →
    x.edit.Holds e
  tombs : ∀ e, s.registry.lookup d = some e → e.deletedAt.isSome →
    (∃ row, s.library.get d = some row ∧ row.tombstone.isSome) ∨ s.Busy d .tombstone
  intents : ∀ e row, s.registry.lookup d = some e → s.library.get d = some row →
    e.syncIntent.isSome → row.syncIntent.isSome ∨ s.Busy d .syncIntent
  agree : ∀ e row, s.registry.lookup d = some e → s.library.get d = some row →
    ∀ c, Agrees e row c ∨ s.Busy d c ∨ s.Due d c
  found : ∀ op x, s.edits.lookup op = some x → x.docId = d → s.touched d = op → s.Found op x
  home : d ∈ s.home → (∃ e, s.registry.lookup d = some e ∧ e.syncIntent = some .localOnly) ∧
    s.library.get d ≠ none ∧ (s.Homing d ∨ s.AtHome d)

structure Sound (s : CatalogState) : Prop where
  begun : ∀ op x, s.edits.lookup op = some x → op < s.clock
  docs : ∀ d, s.DocSound d
  run : ∀ r, s.run = some r → s.RunSound r

variable {c : Shared} {d : DocId} {op : Nat} {s s' : CatalogState}

theorem BusyBut.toBusy (h : s.BusyBut op d c) : s.Busy d c := by
  obtain ⟨op', x, -, hx, hd, hc⟩ := h
  exact ⟨op', x, hx, hd, hc⟩

theorem Busy.of_edits (he : s'.edits = s.edits) (h : s.Busy d c) : s'.Busy d c := by
  unfold Busy
  rw [he]
  exact h

theorem BusyBut.of_edits (he : s'.edits = s.edits) (h : s.BusyBut op d c) :
    s'.BusyBut op d c := by
  unfold BusyBut
  rw [he]
  exact h

theorem Homing.of_edits (he : s'.edits = s.edits) (h : s.Homing d) : s'.Homing d := by
  unfold Homing
  rw [he]
  exact h

theorem Due.mono (h : s.Due d c)
    (hp : s.pending ≤ s'.pending)
    (hrun : ∀ r row, s.run = some r → row ∈ r.known → row.docId = d →
      ∃ r', s'.run = some r' ∧ row ∈ r'.known)
    (hlib : ∀ row, s.library.get d = some row →
      ∃ row', s'.library.get d = some row' ∧ SameIn row row' c) : s'.Due d c := by
  rcases h with h | ⟨r, row, row', hr, hmem, hd, hget, hsame⟩
  · exact .inl (Nat.lt_of_lt_of_le h hp)
  · obtain ⟨r', hr', hmem'⟩ := hrun r row hr hmem hd
    obtain ⟨row'', hget', hsame'⟩ := hlib row' hget
    exact .inr ⟨r', row, row'', hr', hmem', hd, hget', hsame.trans hsame'⟩

/-! ## What an entry shows of its canvas -/

/-- An entry shows what the library has of a canvas, but for columns on their way. -/
structure Shown (s : CatalogState) (d : DocId) (e : DocRegistryEntry) (busy : Shared → Prop) :
    Prop where
  tombs : e.deletedAt.isSome →
    (∃ row, s.library.get d = some row ∧ row.tombstone.isSome) ∨ busy .tombstone
  intents : e.syncIntent.isSome → ∀ row, s.library.get d = some row →
    row.syncIntent.isSome ∨ busy .syncIntent
  agree : ∀ row, s.library.get d = some row → ∀ c, Agrees e row c ∨ busy c ∨ s.Due d c

theorem Shown.still {e : DocRegistryEntry} {busy busy' : Shared → Prop} (h : s.Shown d e busy)
    (hlib : s'.library.get d = s.library.get d)
    (hdue : ∀ c row, s.library.get d = some row → s.Due d c → s'.Due d c)
    (hbusy : ∀ c, busy c → busy' c) : s'.Shown d e busy' where
  tombs := by
    rw [hlib]
    exact fun hsome => (h.tombs hsome).imp_right (hbusy _)
  intents := by
    rw [hlib]
    exact fun hsome row hrow => (h.intents hsome row hrow).imp_right (hbusy _)
  agree := by
    rw [hlib]
    exact fun row hrow c => (h.agree row hrow c).imp_right (Or.imp (hbusy c) (hdue c row hrow))

theorem DocSound.shown {e : DocRegistryEntry} (h : s.DocSound d)
    (he : s.registry.lookup d = some e) : s.Shown d e (s.Busy d) where
  tombs := h.tombs e he
  intents := fun hsome row hrow => h.intents e row he hrow hsome
  agree := fun row hrow => h.agree e row he hrow

theorem Found.shown {x : Editing} (h : s.Found op x) :
    s.Shown x.docId x.captured (s.BusyBut op x.docId) where
  __ := h

theorem Shown.docSound {e : DocRegistryEntry} (hs : s.Shown d e (s.Busy d))
    (he : s.registry.lookup d = some e) (hkey : e.docId = d)
    (hwhole : (s.library.fields d).Whole)
    (hedits : ∀ op x, s.edits.lookup op = some x → x.docId = d →
      s.library.get d ≠ none ∧ x.edit.Holds e ∧ (s.touched d = op → s.Found op x))
    (hapart : ∀ op op' x x', s.edits.lookup op = some x → s.edits.lookup op' = some x' →
      x.docId = d → x'.docId = d → x.edit.shared = x'.edit.shared → op = op')
    (hhome : d ∈ s.home → e.syncIntent = some .localOnly ∧ s.library.get d ≠ none ∧
      (s.Homing d ∨ s.AtHome d)) : s.DocSound d := by
  have hone : ∀ e', s.registry.lookup d = some e' → e' = e :=
    fun _ he' => some.inj (he'.symm.trans he)
  constructor
  case whole => exact hwhole
  case keyed =>
    intro e' he'
    rw [hone e' he']
    exact hkey
  case held =>
    intro op x hx hxd
    rw [he]
    exact ⟨some_ne_none _, (hedits op x hx hxd).1⟩
  case apart => exact hapart
  case holds =>
    intro op x e' hx hxd he'
    rw [hone e' he']
    exact (hedits op x hx hxd).2.1
  case tombs =>
    intro e' he'
    rw [hone e' he']
    exact hs.tombs
  case intents =>
    intro e' row he' hrow
    rw [hone e' he']
    exact fun hsome => hs.intents hsome row hrow
  case agree =>
    intro e' row he'
    rw [hone e' he']
    exact hs.agree row
  case found => exact fun op x hx hxd => (hedits op x hx hxd).2.2
  case home => exact fun hin => ⟨⟨e, he, (hhome hin).1⟩, (hhome hin).2⟩

/-- A step that keeps a canvas's entry: it is enough to look at what entries show. -/
theorem DocSound.kept (h : s.DocSound d)
    (hreg : s'.registry.lookup d = s.registry.lookup d) (htouched : s'.touched d = s.touched d)
    (hwhole : (s'.library.fields d).Whole)
    (hlisted : s.library.get d ≠ none → s'.library.get d ≠ none)
    (hedits : ∀ op y, s'.edits.lookup op = some y → y.docId = d → ∃ z,
      s.edits.lookup op = some z ∧ z.docId = d ∧ z.edit = y.edit ∧ z.captured = y.captured)
    (hshown : ∀ e, s.registry.lookup d = some e → s.Shown d e (s.Busy d) →
      s'.Shown d e (s'.Busy d))
    (hfound : ∀ op y, s'.edits.lookup op = some y → y.docId = d →
      s.registry.lookup d = some (y.captured.spread y.edit.patch) →
      s.Shown d y.captured (s.BusyBut op d) → s'.Shown d y.captured (s'.BusyBut op d))
    (hlocal : ∀ op y, s'.edits.lookup op = some y → y.docId = d → s.touched d = op →
      d ∈ s'.home → y.durable = false → y.captured.syncIntent = some .localOnly)
    (hhome : d ∈ s'.home →
      (∃ e, s'.registry.lookup d = some e ∧ e.syncIntent = some .localOnly) ∧
        s'.library.get d ≠ none ∧ (s'.Homing d ∨ s'.AtHome d)) : s'.DocSound d := by
  constructor
  case whole => exact hwhole
  case keyed =>
    rw [hreg]
    exact h.keyed
  case held =>
    intro op y hy hyd
    obtain ⟨z, hz, hzd, -⟩ := hedits op y hy hyd
    rw [hreg]
    exact (h.held op z hz hzd).imp_right hlisted
  case apart =>
    intro a b y y' hy hy' hyd hyd' hc
    obtain ⟨z, hz, hzd, hze, -⟩ := hedits a y hy hyd
    obtain ⟨z', hz', hzd', hze', -⟩ := hedits b y' hy' hyd'
    exact h.apart a b z z' hz hz' hzd hzd' (by rw [hze, hze', hc])
  case holds =>
    intro op y e hy hyd he
    obtain ⟨z, hz, hzd, hze, -⟩ := hedits op y hy hyd
    rw [hreg] at he
    rw [← hze]
    exact h.holds op z e hz hzd he
  case tombs =>
    rw [hreg]
    exact fun e he => (hshown e he (h.shown he)).tombs
  case intents =>
    rw [hreg]
    exact fun e row he hrow hsome => (hshown e he (h.shown he)).intents hsome row hrow
  case agree =>
    rw [hreg]
    exact fun e row he hrow => (hshown e he (h.shown he)).agree row hrow
  case found =>
    intro op y hy hyd ht
    subst hyd
    obtain ⟨z, hz, hzd, hze, hzc⟩ := hedits op y hy rfl
    rw [htouched] at ht
    have hf := h.found op z hz hzd ht
    have hentry := hf.entry
    have hs := hf.shown
    rw [hzd, hzc] at hentry hs
    rw [hze] at hentry
    exact { hfound op y hy rfl hentry hs with
      entry := by
        rw [hreg]
        exact hentry
      home := hlocal op y hy rfl ht }
  case home => exact hhome

/-! ## Canvases a step does not move -/

/-- A step leaves a canvas alone. -/
structure Still (s s' : CatalogState) (d : DocId) : Prop where
  registry : s'.registry.lookup d = s.registry.lookup d
  fields : s'.library.fields d = s.library.fields d
  edits : ∀ op x, x.docId = d → (s'.edits.lookup op = some x ↔ s.edits.lookup op = some x)
  touched : s'.touched d = s.touched d
  home : d ∈ s'.home → d ∈ s.home
  due : ∀ c row, s.library.get d = some row → s.Due d c → s'.Due d c
  atHome : s.library.get d ≠ none → s.AtHome d → s'.AtHome d

theorem Still.library (h : s.Still s' d) : s'.library.get d = s.library.get d := by
  rw [Library.get, h.fields]
  rfl

theorem Still.busy (h : s.Still s' d) (hb : s.Busy d c) : s'.Busy d c := by
  obtain ⟨op, x, hx, hd, hc⟩ := hb
  exact ⟨op, x, (h.edits op x hd).mpr hx, hd, hc⟩

theorem Still.busyBut (h : s.Still s' d) (hb : s.BusyBut op d c) : s'.BusyBut op d c := by
  obtain ⟨op', x, hne, hx, hd, hc⟩ := hb
  exact ⟨op', x, hne, (h.edits op' x hd).mpr hx, hd, hc⟩

theorem DocSound.still (hd : s.DocSound d) (h : s.Still s' d) : s'.DocSound d := by
  refine hd.kept h.registry h.touched ?whole ?listed ?edits ?shown ?found ?captured ?home
  case whole =>
    rw [h.fields]
    exact hd.whole
  case listed =>
    rw [h.library]
    exact id
  case edits => exact fun op y hy hyd => ⟨y, (h.edits op y hyd).mp hy, hyd, rfl, rfl⟩
  case shown => exact fun _ _ hs => hs.still h.library h.due fun _ => h.busy
  case found => exact fun _ _ _ _ _ hs => hs.still h.library h.due fun _ => h.busyBut
  case captured =>
    intro op y hy hyd ht hin
    subst hyd
    exact (hd.found op y ((h.edits op y rfl).mp hy) rfl ht).home (h.home hin)
  case home =>
    intro hhome
    obtain ⟨hlocal, hrow, hat⟩ := hd.home (h.home hhome)
    rw [h.registry, h.library]
    refine ⟨hlocal, hrow, hat.imp ?_ (h.atHome hrow)⟩
    rintro ⟨op, x, hx, hxd, he, hdur⟩
    exact ⟨op, x, (h.edits op x hxd).mpr hx, hxd, he, hdur⟩

/-- An entry the registry holds is written over. -/
theorem RunSound.registered {r : Reconcile} {e : DocRegistryEntry} (h : s.RunSound r)
    (hreg : ∀ d', s'.registry.lookup d' = if d' = d then some e else s.registry.lookup d')
    (hlib : s'.library = s.library) (hpend : s'.pending = s.pending)
    (hheld : s.registry.lookup d ≠ none) (hlisted : s.library.get d ≠ none) : s'.RunSound r := by
  have hsome : ∀ d', s.registry.lookup d' ≠ none → s'.registry.lookup d' ≠ none := by
    intro d' hd'
    rw [hreg]
    by_cases hd : d' = d
    · rw [if_pos hd]
      exact some_ne_none _
    · rw [if_neg hd]
      exact hd'
  refine { h with merged := ?_, current := ?_, seeds := ?_, written := ?_, adopting := ?_ }
  · rw [hpend]
    exact h.merged
  · rw [hlib]
    exact h.current
  · intro e' he'
    obtain ⟨hlive, hin, hsame, hp⟩ := h.seeds e' he'
    rw [hlib, hpend]
    refine ⟨hlive, hsome _ hin, fun hnone => ?_, hp⟩
    have hne : e'.docId ≠ d := fun hd => hlisted (hd ▸ hnone)
    rw [hreg, if_neg hne]
    exact hsame hnone
  · exact fun d' c hmem => hsome d' (h.written d' c hmem)
  · intro row hrow
    obtain ⟨hnone, hlive⟩ := h.adopting row hrow
    have hne : row.docId ≠ d := fun hd => hheld (hd ▸ hnone)
    rw [hreg, if_neg hne]
    exact ⟨hnone, hlive⟩

/-! ## An edit begins -/

theorem deletedAt_spread {p : Patch} (h : p.touches .tombstone = false) (e : DocRegistryEntry) :
    (e.spread p).deletedAt = e.deletedAt := by
  have hn : p.deletedAt = none := by simpa [Patch.touches] using h
  show p.deletedAt.or e.deletedAt = e.deletedAt
  rw [hn]
  rfl

theorem syncIntent_spread {p : Patch} (h : p.touches .syncIntent = false)
    (e : DocRegistryEntry) : (e.spread p).syncIntent = e.syncIntent := by
  have hn : p.syncIntent = none := by simpa [Patch.touches] using h
  show p.syncIntent.or e.syncIntent = e.syncIntent
  rw [hn]
  rfl

theorem touches_of_ne {e : Edit} (h : c ≠ e.shared) : e.patch.touches c = false := by
  cases ht : e.patch.touches c with
  | false => rfl
  | true => exact absurd ((e.touches_patch c).mp ht) h

def edited (s : CatalogState) (d : DocId) (e : Edit) (entry : DocRegistryEntry) :
    CatalogState :=
  (({ s with
      registry := s.registry.insert d (entry.spread e.patch)
      edits := s.edits.insert s.clock { docId := d, edit := e, captured := entry }
      home := if e = .setSyncIntent .sync then s.home.filter (· ≠ d) else s.home }
    : CatalogState).touch d).tick

theorem edit_eq_some {e : Edit} (hs : s.edit d e = some s') :
    ∃ entry, s.registry.lookup d = some entry ∧ s' = s.edited d e entry := by
  cases hentry : s.registry.lookup d with
  | none =>
    rw [edit, hentry] at hs
    cases hs
  | some entry =>
    rw [edit, hentry] at hs
    dsimp only at hs
    split at hs
    · cases hs
      exact ⟨entry, rfl, rfl⟩
    · cases hs

section Edited

variable {s : CatalogState} {d : DocId} {e : Edit} {entry : DocRegistryEntry}

theorem lookup_edited (d' : DocId) : (s.edited d e entry).registry.lookup d' =
    if d' = d then some (entry.spread e.patch) else s.registry.lookup d' :=
  lookup_insert _ _ _ _

theorem edits_edited (op : Nat) : (s.edited d e entry).edits.lookup op =
    if op = s.clock then some { docId := d, edit := e, captured := entry }
    else s.edits.lookup op :=
  lookup_insert _ _ _ _

theorem touched_edited (d' : DocId) : (s.edited d e entry).touched d' =
    if d' = d then s.clock else s.touched d' := rfl

variable {d' : DocId}

theorem mem_home_edited (h : d' ∈ (s.edited d e entry).home) :
    d' ∈ s.home ∧ (e = .setSyncIntent .sync → d' ≠ d) := by
  have h' : d' ∈ if e = .setSyncIntent .sync then s.home.filter (· ≠ d) else s.home := h
  by_cases he : e = .setSyncIntent .sync
  · rw [if_pos he, mem_filter] at h'
    exact ⟨h'.1, fun _ => by simpa using h'.2⟩
  · rw [if_neg he] at h'
    exact ⟨h', fun hc => absurd hc he⟩

theorem due_edited {c : Shared} (h : s.Due d' c) :
    (s.edited d e entry).Due d' c :=
  h.mono (Nat.le_refl _) (fun r _ hr hmem _ => ⟨r, hr, hmem⟩)
    fun row hrow => ⟨row, hrow, .refl row c⟩

theorem Sound.free (h : s.Sound) : s.edits.lookup s.clock = none := by
  cases hx : s.edits.lookup s.clock with
  | none => rfl
  | some x => exact absurd (h.begun _ x hx) (Nat.lt_irrefl _)

theorem edits_edited_old (hfree : s.edits.lookup s.clock = none) {op : Nat} {x : Editing}
    (hx : s.edits.lookup op = some x) : op ≠ s.clock ∧
      (s.edited d e entry).edits.lookup op = some x := by
  have hne : op ≠ s.clock := by
    intro he
    rw [he, hfree] at hx
    cases hx
  refine ⟨hne, ?_⟩
  rw [edits_edited, if_neg hne]
  exact hx

theorem busyBut_edited (hfree : s.edits.lookup s.clock = none) {c : Shared}
    (h : s.Busy d' c) : (s.edited d e entry).BusyBut s.clock d' c := by
  obtain ⟨op, x, hx, hd, hc⟩ := h
  obtain ⟨hne, hx'⟩ := edits_edited_old hfree hx
  exact ⟨op, x, hne, hx', hd, hc⟩

theorem still_edited (hfree : s.edits.lookup s.clock = none) (hne : d' ≠ d) :
    s.Still (s.edited d e entry) d' where
  registry := by rw [lookup_edited, if_neg hne]
  fields := rfl
  edits := by
    intro op x hxd
    rw [edits_edited]
    by_cases he : op = s.clock
    · rw [if_pos he, he, hfree]
      constructor
      · intro hx
        cases hx
        exact absurd hxd.symm hne
      · intro hx
        cases hx
    · rw [if_neg he]
  touched := by rw [touched_edited, if_neg hne]
  home := fun h => (mem_home_edited h).1
  due := fun c _ _ h => due_edited h
  atHome := fun _ h => h

theorem DocSound.edited (h : s.DocSound d) (hfree : s.edits.lookup s.clock = none)
    (hentry : s.registry.lookup d = some entry) (hlisted : s.library.get d ≠ none)
    (hidle : ¬s.Busy d e.shared) : (s.edited d e entry).DocSound d := by
  have hreg : (s.edited d e entry).registry.lookup d = some (entry.spread e.patch) := by
    rw [lookup_edited, if_pos rfl]
  have hnew : (s.edited d e entry).Busy d e.shared :=
    ⟨s.clock, _, by rw [edits_edited, if_pos rfl], rfl, rfl⟩
  have hbusy : ∀ {c}, s.Busy d c → (s.edited d e entry).Busy d c :=
    fun hb => (busyBut_edited hfree hb).toBusy
  refine Shown.docSound ?shown hreg (h.keyed entry hentry) h.whole ?edits ?apart ?home
  case shown =>
    constructor
    case tombs =>
      intro hsome
      by_cases hc : Shared.tombstone = e.shared
      · rw [hc]
        exact .inr hnew
      · rw [deletedAt_spread (touches_of_ne hc)] at hsome
        exact (h.tombs entry hentry hsome).imp_right hbusy
    case intents =>
      intro hsome row hrow
      by_cases hc : Shared.syncIntent = e.shared
      · rw [hc]
        exact .inr hnew
      · rw [syncIntent_spread (touches_of_ne hc)] at hsome
        exact (h.intents entry row hentry hrow hsome).imp_right hbusy
    case agree =>
      intro row hrow c
      by_cases hc : c = e.shared
      · rw [hc]
        exact .inr (.inl hnew)
      · exact (h.agree entry row hentry hrow c).imp (fun ha => ha.spread (touches_of_ne hc))
          (Or.imp hbusy due_edited)
  case edits =>
    intro op x hx hd
    refine ⟨hlisted, ?_, fun ht => ?_⟩
    · rw [edits_edited] at hx
      by_cases he : op = s.clock
      · rw [if_pos he] at hx
        cases hx
        exact e.holds_spread entry
      · rw [if_neg he] at hx
        have hne : x.edit.shared ≠ e.shared := fun hc => hidle ⟨op, x, hx, hd, hc⟩
        exact (Edit.holds_iff (touches_of_ne hne) entry).mpr (h.holds op x entry hx hd hentry)
    · rw [touched_edited, if_pos rfl] at ht
      rw [edits_edited, if_pos ht.symm] at hx
      cases hx
      subst ht
      have hs : (s.edited d e entry).Shown d entry ((s.edited d e entry).BusyBut s.clock d) :=
        (h.shown hentry).still rfl (fun _ _ _ => due_edited) fun _ => busyBut_edited hfree
      refine { hs with entry := hreg, home := ?_ }
      intro hhome _
      obtain ⟨⟨e', he', hlocal⟩, -⟩ := h.home (mem_home_edited hhome).1
      rw [hentry] at he'
      cases he'
      exact hlocal
  case apart =>
    intro op op' x x' hx hx' hd hd' hc
    rw [edits_edited] at hx hx'
    by_cases he : op = s.clock
    · rw [if_pos he] at hx
      cases hx
      by_cases he' : op' = s.clock
      · rw [he, he']
      · rw [if_neg he'] at hx'
        exact absurd ⟨op', x', hx', hd', hc.symm⟩ hidle
    · rw [if_neg he] at hx
      by_cases he' : op' = s.clock
      · rw [if_pos he'] at hx'
        cases hx'
        exact absurd ⟨op, x, hx, hd, hc⟩ hidle
      · rw [if_neg he'] at hx'
        exact h.apart op op' x x' hx hx' hd hd' hc
  case home =>
    intro hhome
    obtain ⟨hold, hsync⟩ := mem_home_edited hhome
    obtain ⟨⟨e', he', hlocal⟩, hrow, hat⟩ := h.home hold
    rw [hentry] at he'
    cases he'
    refine ⟨?_, hrow, hat.imp_left ?_⟩
    · cases e with
      | rename name => exact hlocal
      | delete deletedAt => exact hlocal
      | setSyncIntent intent =>
        cases intent with
        | sync => exact absurd rfl (hsync rfl)
        | localOnly => rfl
    · rintro ⟨op, x, hx, hxd, hxe, hdur⟩
      exact ⟨op, x, (edits_edited_old hfree hx).2, hxd, hxe, hdur⟩

end Edited

variable {s s' : CatalogState}

theorem Sound.edit {d : DocId} {e : Edit} (h : s.Sound)
    (hok : s.Orderly (.edit d e)) (hs : s.edit d e = some s') : s'.Sound := by
  obtain ⟨entry, hentry, rfl⟩ := edit_eq_some hs
  obtain ⟨hlisted, hidle⟩ := hok
  constructor
  case begun =>
    intro op x hx
    show op < s.clock + 1
    rw [edits_edited] at hx
    by_cases he : op = s.clock
    · omega
    · rw [if_neg he] at hx
      have := h.begun op x hx
      omega
  case docs =>
    intro d'
    by_cases hd : d' = d
    · subst hd
      exact (h.docs d').edited h.free hentry hlisted hidle
    · exact (h.docs d').still (still_edited h.free hd)
  case run =>
    refine fun r hr => (h.run r hr).registered lookup_edited rfl rfl ?_ hlisted
    rw [hentry]
    exact some_ne_none _

/-! ## A persist is done -/

theorem persisted_eq_some {op : Nat} (hs : s.persisted op = some s') :
    ∃ x, s.edits.lookup op = some x ∧ x.durable = false ∧
      s' = ({ s with
              edits := s.edits.insert op { x with durable := true }
              home := if x.edit = .setSyncIntent .localOnly then x.docId :: s.home else s.home }
            : CatalogState).tick := by
  rw [CatalogState.persisted] at hs
  split at hs
  · next x hx =>
    split at hs
    · cases hs
    · next hdur =>
      cases hs
      exact ⟨x, hx, Bool.eq_false_iff.mpr hdur, rfl⟩
  · cases hs

theorem Sound.persisted {op : Nat} (h : s.Sound)
    (hs : s.persisted op = some s') : s'.Sound := by
  obtain ⟨x, hx, hdur, hs'⟩ := persisted_eq_some hs
  have hlook : ∀ op', s'.edits.lookup op' =
      if op' = op then some { x with durable := true } else s.edits.lookup op' := by
    intro op'
    rw [hs']
    exact lookup_insert _ _ _ _
  -- an edit is the same edit, but for its being durable
  have hold : ∀ op' y, s'.edits.lookup op' = some y → ∃ z, s.edits.lookup op' = some z ∧
      z.docId = y.docId ∧ z.edit = y.edit ∧ z.captured = y.captured ∧
      (y.durable = false → z = y) := by
    intro op' y hy
    rw [hlook] at hy
    by_cases he : op' = op
    · rw [if_pos he] at hy
      cases hy
      exact ⟨x, by rw [he]; exact hx, rfl, rfl, rfl, fun hd => by cases hd⟩
    · rw [if_neg he] at hy
      exact ⟨y, hy, rfl, rfl, rfl, fun _ => rfl⟩
  have hnew : ∀ op' z, s.edits.lookup op' = some z → ∃ y, s'.edits.lookup op' = some y ∧
      y.docId = z.docId ∧ y.edit = z.edit ∧ (z.durable = true → y.durable = true) := by
    intro op' z hz
    rw [hlook]
    by_cases he : op' = op
    · rw [he, hx] at hz
      cases hz
      rw [if_pos he]
      exact ⟨_, rfl, rfl, rfl, fun _ => rfl⟩
    · rw [if_neg he]
      exact ⟨z, hz, rfl, rfl, id⟩
  have hbusy : ∀ {d c}, s.Busy d c → s'.Busy d c := by
    rintro d c ⟨op', z, hz, hd, hc⟩
    obtain ⟨y, hy, hyd, hye, -⟩ := hnew op' z hz
    exact ⟨op', y, hy, hyd.trans hd, by rw [hye]; exact hc⟩
  have hbut : ∀ {op' d c}, s.BusyBut op' d c → s'.BusyBut op' d c := by
    rintro op' d c ⟨op'', z, hne, hz, hd, hc⟩
    obtain ⟨y, hy, hyd, hye, -⟩ := hnew op'' z hz
    exact ⟨op'', y, hne, hy, hyd.trans hd, by rw [hye]; exact hc⟩
  have hhome : ∀ {d}, d ∈ s'.home →
      d ∈ s.home ∨ (d = x.docId ∧ x.edit = .setSyncIntent .localOnly) := by
    intro d hd
    rw [hs'] at hd
    have hd' : d ∈ if x.edit = .setSyncIntent .localOnly then x.docId :: s.home else s.home := hd
    by_cases hxe : x.edit = .setSyncIntent .localOnly
    · rw [if_pos hxe] at hd'
      exact (mem_cons.mp hd').symm.imp_right fun he => ⟨he, hxe⟩
    · rw [if_neg hxe] at hd'
      exact .inl hd'
  have hreg : s'.registry = s.registry := by rw [hs']; rfl
  have hlib : s'.library = s.library := by rw [hs']; rfl
  have htouched : s'.touched = s.touched := by rw [hs']; rfl
  have hdue : ∀ {d c}, s.Due d c → s'.Due d c := by
    intro d c hd
    rw [hs']
    exact hd
  have hat : ∀ {d}, s.AtHome d → s'.AtHome d := by
    intro d hd
    rw [hs']
    exact hd
  constructor
  case begun =>
    intro op' y hy
    obtain ⟨z, hz, -⟩ := hold op' y hy
    rw [hs']
    exact Nat.lt_succ_of_lt (h.begun op' z hz)
  case run =>
    intro r hr
    rw [hs'] at hr ⊢
    have hrs := h.run r hr
    exact { hrs with }
  case docs =>
    intro d
    have hd := h.docs d
    refine hd.kept (by rw [hreg]) (by rw [htouched]) ?whole ?listed ?edits ?shown ?found ?captured
      ?home
    case whole =>
      rw [hlib]
      exact hd.whole
    case listed =>
      rw [hlib]
      exact id
    case edits =>
      intro op' y hy hyd
      obtain ⟨z, hz, hzd, hze, hzc, -⟩ := hold op' y hy
      exact ⟨z, hz, hzd.trans hyd, hze, hzc⟩
    case shown => exact fun _ _ hs => hs.still (by rw [hlib]) (fun _ _ _ => hdue) fun _ => hbusy
    case found =>
      exact fun _ _ _ _ _ hs => hs.still (by rw [hlib]) (fun _ _ _ => hdue) fun _ => hbut
    case captured =>
      intro op' y hy hyd ht hin hydur
      subst hyd
      obtain ⟨z, hz, hzd, -, -, hzy⟩ := hold op' y hy
      have hf := (h.docs y.docId).found op' z hz hzd ht
      obtain rfl := hzy hydur
      rcases hhome hin with hin | ⟨hxd, hxe⟩
      · exact hf.home hin hydur
      · -- the durable edit set the intent before this one captured it
        have hne : Shared.syncIntent ≠ z.edit.shared := by
          intro hc
          have hop : op' = op := by
            refine (h.docs z.docId).apart op' op z x hz hx rfl hxd.symm ?_
            rw [← hc, hxe]
            rfl
          rw [hop, hlook, if_pos rfl] at hy
          cases hy
          cases hydur
        have hlocal := (h.docs z.docId).holds op x _ hx hxd.symm hf.entry
        rw [hxe] at hlocal
        have hl : (z.captured.spread z.edit.patch).syncIntent = some .localOnly := hlocal
        rw [syncIntent_spread (touches_of_ne hne)] at hl
        exact hl
    case home =>
      intro hin
      rw [hreg, hlib]
      rcases hhome hin with hin | ⟨hxd, hxe⟩
      · obtain ⟨hlocal, hrow, hor⟩ := hd.home hin
        refine ⟨hlocal, hrow, hor.imp ?_ hat⟩
        rintro ⟨op', z, hz, hzd, hze, hzdur⟩
        obtain ⟨y, hy, hyd, hye, hydur⟩ := hnew op' z hz
        exact ⟨op', y, hy, hyd.trans hzd, hye.trans hze, hydur hzdur⟩
      · obtain ⟨hheld, hrow⟩ := hd.held op x hx hxd.symm
        obtain ⟨e, he⟩ := ne_none_iff_exists'.mp hheld
        have hlocal := hd.holds op x e hx hxd.symm he
        rw [hxe] at hlocal
        refine ⟨⟨e, he, hlocal⟩, hrow, .inl ⟨op, { x with durable := true }, ?_, hxd.symm, hxe,
          rfl⟩⟩
        rw [hlook, if_pos rfl]

/-! ## An edit leaves -/

section Erased

variable {s s' : CatalogState} {op : Nat} {x : Editing}

theorem edits_erased (hs : s'.edits = s.edits.erase op) {op' : Nat} {y : Editing} :
    s'.edits.lookup op' = some y ↔ op' ≠ op ∧ s.edits.lookup op' = some y := by
  rw [hs, lookup_erase]
  by_cases he : op' = op
  · rw [if_pos he]
    constructor
    · intro h
      cases h
    · intro h
      exact absurd he h.1
  · rw [if_neg he]
    exact ⟨fun h => ⟨he, h⟩, fun h => h.2⟩

variable {d : DocId}

theorem BusyBut.erased (hs : s'.edits = s.edits.erase op) {c : Shared}
    (h : s.BusyBut op d c) : s'.Busy d c := by
  obtain ⟨op', y, hne, hy, hd, hc⟩ := h
  exact ⟨op', y, (edits_erased hs).mpr ⟨hne, hy⟩, hd, hc⟩

theorem Busy.erased (hs : s'.edits = s.edits.erase op) (hx : s.edits.lookup op = some x)
    {c : Shared} (h : s.Busy d c) :
    s'.Busy d c ∨ (d = x.docId ∧ c = x.edit.shared) := by
  obtain ⟨op', y, hy, hd, hc⟩ := h
  by_cases he : op' = op
  · rw [he, hx] at hy
    cases hy
    exact .inr ⟨hd.symm, hc.symm⟩
  · exact .inl ⟨op', y, (edits_erased hs).mpr ⟨he, hy⟩, hd, hc⟩

theorem BusyBut.erased_but (hs : s'.edits = s.edits.erase op)
    (hx : s.edits.lookup op = some x) {op' : Nat} {c : Shared}
    (h : s.BusyBut op' d c) : s'.BusyBut op' d c ∨ (d = x.docId ∧ c = x.edit.shared) := by
  obtain ⟨op'', y, hne, hy, hd, hc⟩ := h
  by_cases he : op'' = op
  · rw [he, hx] at hy
    cases hy
    exact .inr ⟨hd.symm, hc.symm⟩
  · exact .inl ⟨op'', y, hne, (edits_erased hs).mpr ⟨he, hy⟩, hd, hc⟩

theorem edits_erased_ne (hs : s'.edits = s.edits.erase op) (hx : s.edits.lookup op = some x)
    (hd : d ≠ x.docId) (op' : Nat) (y : Editing) (hy : y.docId = d) :
    s'.edits.lookup op' = some y ↔ s.edits.lookup op' = some y := by
  rw [edits_erased hs]
  constructor
  · exact fun h => h.2
  · intro h
    refine ⟨?_, h⟩
    intro he
    rw [he, hx] at h
    cases h
    exact hd hy.symm

end Erased

variable {d : DocId} {entry : DocRegistryEntry} {f : LibraryFields} {op : Nat} {r : Reconcile}
  {rest : List DocLibraryEntry} {row : DocLibraryEntry} {s s' : CatalogState}
  {self : Option String} {syncs : Bool}

theorem failed_eq_some (hs : s.failed op = some s') :
    ∃ x, s.edits.lookup op = some x ∧ x.durable = false ∧
      s' = (({ s with
              registry := s.registry.insert x.docId x.captured
              edits := s.edits.erase op } : CatalogState).touch x.docId).tick := by
  rw [CatalogState.failed] at hs
  split at hs
  · next x hx =>
    split at hs
    · cases hs
    · next hdur =>
      cases hs
      exact ⟨x, hx, Bool.eq_false_iff.mpr hdur, rfl⟩
  · cases hs

theorem Sound.failed (h : s.Sound) (hok : s.Orderly (.failed op)) (hs : s.failed op = some s') :
    s'.Sound := by
  obtain ⟨x, hx, hdur, hs'⟩ := failed_eq_some hs
  have hf : s.Found op x := (h.docs x.docId).found op x hx rfl (hok x hx)
  have hedits : s'.edits = s.edits.erase op := by rw [hs']; rfl
  have hreg : ∀ d, s'.registry.lookup d =
      if d = x.docId then some x.captured else s.registry.lookup d := by
    intro d
    rw [hs']
    exact lookup_insert _ _ _ _
  have hself : s'.registry.lookup x.docId = some x.captured := by rw [hreg, if_pos rfl]
  have hlib : s'.library = s.library := by rw [hs']; rfl
  have htouched : ∀ d, s'.touched d = if d = x.docId then s.clock else s.touched d := by
    intro d
    rw [hs']
    rfl
  have hhome : s'.home = s.home := by rw [hs']; rfl
  have hclock : s'.clock = s.clock + 1 := by rw [hs']; rfl
  have hdue : ∀ {d c}, s.Due d c → s'.Due d c := by
    intro d c hd
    rw [hs']
    exact hd
  have hat : ∀ {d}, s.AtHome d → s'.AtHome d := by
    intro d hd
    rw [hs']
    exact hd
  constructor
  case begun =>
    intro op' y hy
    rw [hclock]
    exact Nat.lt_succ_of_lt (h.begun op' y ((edits_erased hedits).mp hy).2)
  case run =>
    intro r hr
    have hr' : s.run = some r := by rw [hs'] at hr; exact hr
    obtain ⟨hheld, hlisted⟩ := (h.docs x.docId).held op x hx rfl
    exact (h.run r hr').registered hreg hlib (by rw [hs']; rfl) hheld hlisted
  case docs =>
    intro d
    have hd := h.docs d
    by_cases hne : d ≠ x.docId
    · refine hd.still ?_
      constructor
      case registry => rw [hreg, if_neg hne]
      case fields => rw [hlib]
      case edits => exact fun op' y hy => edits_erased_ne hedits hx hne op' y hy
      case touched => rw [htouched, if_neg hne]
      case home => rw [hhome]; exact id
      case due => exact fun c _ _ => hdue
      case atHome => exact fun _ => hat
    · obtain rfl : d = x.docId := not_not.mp hne
      have hentry := hf.entry
      have hshown : s'.Shown x.docId x.captured (s'.Busy x.docId) :=
        hf.shown.still (by rw [hlib]) (fun _ _ _ => hdue) fun _ hb => hb.erased hedits
      have hkey := hd.keyed _ hentry
      refine hshown.docSound hself hkey (by rw [hlib]; exact hd.whole) ?edits ?apart ?home
      case edits =>
        intro op' y hy hyd
        obtain ⟨hop, hy⟩ := (edits_erased hedits).mp hy
        have hcol : y.edit.shared ≠ x.edit.shared :=
          fun hc => hop (hd.apart op' op y x hy hx hyd rfl hc)
        refine ⟨by rw [hlib]; exact (hd.held op' y hy hyd).2,
          (Edit.holds_iff (touches_of_ne hcol) _).mp (hd.holds op' y _ hy hyd hentry), ?_⟩
        intro ht
        rw [htouched, if_pos rfl] at ht
        have := h.begun op' y hy
        omega
      case apart =>
        intro a b y y' hy hy' hyd hyd' hc
        exact hd.apart a b y y' ((edits_erased hedits).mp hy).2 ((edits_erased hedits).mp hy').2
          hyd hyd' hc
      case home =>
        intro hin
        rw [hhome] at hin
        obtain ⟨-, hrow, hor⟩ := hd.home hin
        refine ⟨hf.home hin hdur, by rw [hlib]; exact hrow, hor.imp ?_ hat⟩
        rintro ⟨op', y, hy, hyd, hye, hydur⟩
        refine ⟨op', y, (edits_erased hedits).mpr ⟨?_, hy⟩, hyd, hye, hydur⟩
        intro he
        rw [he, hx] at hy
        cases hy
        rw [hdur] at hydur
        cases hydur

/-! ## An edit reaches the library -/

theorem written_eq_some (hs : s.written self op = some s') :
    ∃ x, s.edits.lookup op = some x ∧ x.durable = true ∧
      s' = (({ s with
              library := s.library.write x.docId fun f => x.edit.fields self f
              edits := s.edits.erase op } : CatalogState).withRun fun r =>
            { r with written := (x.docId, x.edit.shared) :: r.written }).tick := by
  rw [CatalogState.written] at hs
  split at hs
  · next x hx =>
    split at hs
    · next hdur =>
      cases hs
      exact ⟨x, hx, hdur, rfl⟩
    · cases hs
  · cases hs

theorem row_of_get {l : Library} (h : l.get d ≠ none) :
    (l.fields d).listed = true ∧ l.get d = some ((l.fields d).row d) := by
  obtain ⟨row, hrow⟩ := ne_none_iff_exists'.mp h
  obtain ⟨hlisted, rfl⟩ := Library.get_eq_some hrow
  exact ⟨hlisted, hrow⟩

theorem Sound.written (h : s.Sound) (hs : s.written self op = some s') : s'.Sound := by
  obtain ⟨x, hx, hdur, hs'⟩ := written_eq_some hs
  obtain ⟨hheld, hlisted⟩ := (h.docs x.docId).held op x hx rfl
  obtain ⟨hl, hget⟩ := row_of_get hlisted
  generalize hf : s.library.fields x.docId = f at hl hget
  have hedits : s'.edits = s.edits.erase op := by rw [hs']; rfl
  have hreg : s'.registry = s.registry := by rw [hs']; rfl
  have hlib : s'.library = s.library.insert x.docId (x.edit.fields self f) := by
    rw [hs', ← hf]
    rfl
  have htouched : s'.touched = s.touched := by rw [hs']; rfl
  have hhome : s'.home = s.home := by rw [hs']; rfl
  have hpend : s'.pending = s.pending := by rw [hs']; rfl
  have hrun : s'.run = s.run.map fun r =>
      { r with written := (x.docId, x.edit.shared) :: r.written } := by rw [hs']; rfl
  have hclock : s'.clock = s.clock + 1 := by rw [hs']; rfl
  clear hs' hs
  have hget' : s'.library.get x.docId = some ((x.edit.fields self f).row x.docId) := by
    rw [hlib, Library.get_insert_self, Library.read_of_listed (listed_edit self hl x.edit)]
  have hgetne : ∀ d, d ≠ x.docId → s'.library.get d = s.library.get d := by
    intro d hd
    rw [hlib, Library.get_insert_ne _ hd]
  have hrun' : ∀ r, s.run = some r → s'.run =
      some { r with written := (x.docId, x.edit.shared) :: r.written } := by
    intro r hr
    rw [hrun, hr]
    rfl
  -- a column the edit is not about reads as before
  have hlibsame : ∀ d c row, (d = x.docId → c ≠ x.edit.shared) → s.library.get d = some row →
      ∃ row', s'.library.get d = some row' ∧ SameIn row row' c := by
    intro d c row hc hrow
    by_cases hd : d = x.docId
    · subst hd
      rw [hget] at hrow
      cases hrow
      exact ⟨_, hget', Edit.sameIn_fields (hc rfl) self f _⟩
    · exact ⟨row, by rw [hgetne d hd]; exact hrow, .refl row c⟩
  have hdue : ∀ d c, (d = x.docId → c ≠ x.edit.shared) → s.Due d c → s'.Due d c := by
    intro d c hc hd
    refine hd.mono (Nat.le_of_eq hpend.symm) ?_ fun row hrow => hlibsame d c row hc hrow
    intro r row hr hmem _
    exact ⟨_, hrun' r hr, hmem⟩
  constructor
  case begun =>
    intro op' y hy
    rw [hclock]
    exact Nat.lt_succ_of_lt (h.begun op' y ((edits_erased hedits).mp hy).2)
  case run =>
    intro r' hr'
    rw [hrun] at hr'
    obtain ⟨r, hr, rfl⟩ := map_eq_some_iff.mp hr'
    have hrs := h.run r hr
    constructor
    case merged =>
      rw [hpend]
      exact hrs.merged
    case nodup => exact hrs.nodup
    case current =>
      intro row hrow
      obtain ⟨row', hrow', htomb, hint, hsame⟩ := hrs.current row hrow
      by_cases hd : row.docId = x.docId
      · rw [hd] at hrow' hsame ⊢
        rw [hget] at hrow'
        cases hrow'
        refine ⟨_, hget', fun ht => x.edit.tombstones_fields self (htomb ht),
          fun hi => x.edit.intents_fields self (hint hi), fun c => ?_⟩
        by_cases hc : c = x.edit.shared
        · rw [hc]
          exact .inr (.inl mem_cons_self)
        · exact (hsame c).imp (fun hs => hs.trans (Edit.sameIn_fields hc self f _))
            (Or.imp_left (mem_cons_of_mem _))
      · refine ⟨row', by rw [hgetne _ hd]; exact hrow', htomb, hint, fun c => ?_⟩
        exact (hsame c).imp_right (Or.imp_left (mem_cons_of_mem _))
    case seedsNodup => exact hrs.seedsNodup
    case unseeded => exact hrs.unseeded
    case seeds =>
      intro e he
      obtain ⟨hlive, hin, hsame, hp⟩ := hrs.seeds e he
      rw [hreg, hpend]
      by_cases hd : e.docId = x.docId
      · rw [hd] at hp hin ⊢
        refine ⟨hlive, hin, fun hnone => ?_, fun _ => hp hlisted⟩
        rw [hget'] at hnone
        cases hnone
      · rw [hgetne _ hd]
        exact ⟨hlive, hin, hsame, hp⟩
    case written =>
      intro d c hmem
      rw [hreg]
      rcases mem_cons.mp hmem with he | hmem
      · cases he
        exact hheld
      · exact hrs.written d c hmem
    case adopting =>
      rw [hreg]
      exact hrs.adopting
  case docs =>
    intro d
    have hd := h.docs d
    have hathome : ∀ {d}, (d = x.docId → x.edit.shared = .syncIntent →
        x.edit = .setSyncIntent .localOnly) → s.library.get d ≠ none → s.AtHome d →
        s'.AtHome d := by
      intro d hedit hrow hat
      obtain ⟨hlocal, hruns⟩ := hat
      constructor
      · intro row' hrow'
        by_cases hdx : d = x.docId
        · subst hdx
          rw [hget'] at hrow'
          cases hrow'
          by_cases hc : Shared.syncIntent = x.edit.shared
          · rw [hedit rfl hc.symm]
            rfl
          · have hs : SameIn (f.row x.docId) _ .syncIntent :=
              Edit.sameIn_fields hc self f x.docId
            exact (Eq.symm hs).trans (hlocal _ hget)
        · rw [hgetne d hdx] at hrow'
          exact hlocal row' hrow'
      · intro r' hr'
        rw [hrun] at hr'
        obtain ⟨r, hr, rfl⟩ := map_eq_some_iff.mp hr'
        exact (hruns r hr).imp_left (mem_cons_of_mem _)
    by_cases hne : d ≠ x.docId
    · refine hd.still ?_
      constructor
      case registry => rw [hreg]
      case fields => rw [hlib, Library.fields_insert, if_neg hne]
      case edits => exact fun op' y hy => edits_erased_ne hedits hx hne op' y hy
      case touched => rw [htouched]
      case home => rw [hhome]; exact id
      case due => exact fun c _ _ => hdue d c fun he => absurd he hne
      case atHome => exact fun hrow => hathome (fun he => absurd he hne) hrow
    · obtain rfl : d = x.docId := not_not.mp hne
      -- the edit's column is written, and the others read as before
      have hshown : ∀ {e busy busy'}, x.edit.Holds e →
          (∀ c, busy c → busy' c ∨ c = x.edit.shared) → s.Shown x.docId e busy →
          s'.Shown x.docId e busy' := by
        intro e busy busy' hholds hbusy hs
        constructor
        case tombs =>
          intro hsome
          rcases hs.tombs hsome with ⟨row, hrow, ht⟩ | hb
          · rw [hget] at hrow
            cases hrow
            exact .inl ⟨_, hget', x.edit.tombstones_fields self ht⟩
          · refine (hbusy _ hb).symm.imp_left fun hc => ⟨_, hget', ?_⟩
            cases hxe : x.edit with
            | rename name => rw [hxe] at hc; cases hc
            | delete deletedAt => rfl
            | setSyncIntent intent => rw [hxe] at hc; cases hc
        case intents =>
          intro hsome row' hrow'
          rw [hget'] at hrow'
          cases hrow'
          rcases hs.intents hsome _ hget with hi | hb
          · exact .inl (x.edit.intents_fields self hi)
          · refine (hbusy _ hb).symm.imp_left fun hc => ?_
            show (x.edit.fields self f).intents.isSome
            cases hxe : x.edit with
            | rename name => rw [hxe] at hc; cases hc
            | delete deletedAt => rw [hxe] at hc; cases hc
            | setSyncIntent intent => rfl
        case agree =>
          intro row' hrow' c
          rw [hget'] at hrow'
          cases hrow'
          by_cases hc : c = x.edit.shared
          · rw [hc]
            exact .inl (Edit.agrees_fields hholds self f x.docId)
          · rcases hs.agree _ hget c with ha | hb | hdu
            · exact .inl (ha.same (Edit.sameIn_fields hc self f x.docId))
            · exact .inr (.inl ((hbusy c hb).resolve_right hc))
            · exact .inr (.inr (hdue _ c (fun _ => hc) hdu))
      refine hd.kept (by rw [hreg]) (by rw [htouched]) ?whole ?listed ?edits ?shown ?found
        ?captured ?home
      case whole =>
        rw [hlib, Library.fields_insert, if_pos rfl]
        intro hnot
        rw [listed_edit self hl x.edit] at hnot
        cases hnot
      case listed =>
        rw [hget']
        exact fun _ => some_ne_none _
      case edits =>
        exact fun op' y hy hyd => ⟨y, ((edits_erased hedits).mp hy).2, hyd, rfl, rfl⟩
      case shown =>
        exact fun e he => hshown (hd.holds op x e hx rfl he) fun _ hb =>
          (hb.erased hedits hx).imp_right (·.2)
      case found =>
        intro op' y hy hyd hentry
        obtain ⟨hop, hy⟩ := (edits_erased hedits).mp hy
        have hcol : x.edit.shared ≠ y.edit.shared :=
          fun hc => hop (hd.apart op' op y x hy hx hyd rfl hc.symm)
        exact hshown ((Edit.holds_iff (touches_of_ne hcol) _).mp (hd.holds op x _ hx rfl hentry))
          fun _ hb => (hb.erased_but hedits hx).imp_right (·.2)
      case captured =>
        intro op' y hy hyd ht hin
        rw [hhome, ← hyd] at hin
        exact (hd.found op' y ((edits_erased hedits).mp hy).2 hyd ht).home hin
      case home =>
        intro hin
        rw [hhome] at hin
        obtain ⟨⟨e, he, hlocal⟩, hrow, hor⟩ := hd.home hin
        rw [hreg, hget']
        refine ⟨⟨e, he, hlocal⟩, some_ne_none _, ?_⟩
        have hedit : x.edit.shared = .syncIntent → x.edit = .setSyncIntent .localOnly := by
          intro hc
          have hxh := hd.holds op x e hx rfl he
          cases hxe : x.edit with
          | rename name => rw [hxe] at hc; cases hc
          | delete deletedAt => rw [hxe] at hc; cases hc
          | setSyncIntent intent =>
            rw [hxe] at hxh
            have hi : e.syncIntent = some intent := hxh
            rw [hlocal] at hi
            cases hi
            rfl
        rcases hor with ⟨op', y, hy, hyd, hye, hydur⟩ | hat
        · by_cases hop : op' = op
          · right
            rw [hop, hx] at hy
            cases hy
            constructor
            · intro row' hrow'
              rw [hget'] at hrow'
              cases hrow'
              rw [hye]
              rfl
            · intro r' hr'
              rw [hrun] at hr'
              obtain ⟨r, -, rfl⟩ := map_eq_some_iff.mp hr'
              left
              rw [hye]
              exact mem_cons_self
          · exact .inl ⟨op', y, (edits_erased hedits).mpr ⟨hop, hy⟩, hyd, hye, hydur⟩
        · exact .inr (hathome (fun _ => hedit) hrow hat)

/-! ## A merge -/

theorem merge_eq_some (hs : s.merge d f = some s') : (s.library.fields d).MergesInto f ∧
      s' = (({ s with
              library := s.library.insert d f
              pending := s.pending + 1
              home := if f.intents = (s.library.fields d).intents then s.home
                else s.home.filter (· ≠ d) } : CatalogState).withRun fun r =>
            { r with merged := d :: r.merged }).tick := by
  rw [CatalogState.merge] at hs
  split at hs
  · next hm =>
    cases hs
    exact ⟨hm, rfl⟩
  · cases hs

theorem get_eq_none {l : Library} (h : (l.fields d).listed = false) : l.get d = none := by
  rw [Library.get, LibraryFields.read, h]
  rfl

theorem Sound.merge (h : s.Sound) (hok : s.Orderly (.merge d f)) (hs : s.merge d f = some s') :
    s'.Sound := by
  obtain ⟨hm, hs'⟩ := merge_eq_some hs
  obtain ⟨hwhole, hstates⟩ := hok
  have hedits : s'.edits = s.edits := by rw [hs']; rfl
  have hreg : s'.registry = s.registry := by rw [hs']; rfl
  have hlib : s'.library = s.library.insert d f := by rw [hs']; rfl
  have htouched : s'.touched = s.touched := by rw [hs']; rfl
  have hpend : 0 < s'.pending := by
    rw [hs']
    exact Nat.succ_pos _
  have hhome : ∀ {d'}, d' ∈ s'.home →
      d' ∈ s.home ∧ (d' = d → f.intents = (s.library.fields d).intents) := by
    intro d' hd'
    rw [hs'] at hd'
    have hd'' : d' ∈ if f.intents = (s.library.fields d).intents then s.home
        else s.home.filter (· ≠ d) := hd'
    by_cases hf : f.intents = (s.library.fields d).intents
    · rw [if_pos hf] at hd''
      exact ⟨hd'', fun _ => hf⟩
    · rw [if_neg hf, mem_filter] at hd''
      exact ⟨hd''.1, fun he => absurd he (by simpa using hd''.2)⟩
  have hrun : s'.run = s.run.map fun r => { r with merged := d :: r.merged } := by
    rw [hs']
    rfl
  have hclock : s'.clock = s.clock + 1 := by rw [hs']; rfl
  clear hs' hs
  have hgetne : ∀ d', d' ≠ d → s'.library.get d' = s.library.get d' := by
    intro d' hd
    rw [hlib, Library.get_insert_ne _ hd]
  have hget : ∀ row, s.library.get d = some row → s'.library.get d = some (f.row d) ∧
      row = (s.library.fields d).row d := by
    intro row hrow
    obtain ⟨hl, rfl⟩ := Library.get_eq_some hrow
    refine ⟨?_, rfl⟩
    rw [hlib, Library.get_insert_self, Library.read_of_listed (listed_merge hm hl)]
  have hget' : ∀ row, s'.library.get d = some row → row = f.row d := by
    intro row hrow
    obtain ⟨-, rfl⟩ := Library.get_eq_some hrow
    rw [hlib, Library.fields_insert, if_pos rfl]
  obtain ⟨-, -, hmt, hmi⟩ := hm
  constructor
  case begun =>
    rw [hedits, hclock]
    exact fun op x hx => Nat.lt_succ_of_lt (h.begun op x hx)
  case run =>
    intro r' hr'
    rw [hrun] at hr'
    obtain ⟨r, hr, rfl⟩ := map_eq_some_iff.mp hr'
    have hrs := h.run r hr
    constructor
    case merged => exact fun _ => hpend
    case nodup => exact hrs.nodup
    case current =>
      intro row hrow
      obtain ⟨row', hrow', htomb, hint, hsame⟩ := hrs.current row hrow
      by_cases hd : row.docId = d
      · rw [hd] at hrow' hsame ⊢
        obtain ⟨hnew, rfl⟩ := hget row' hrow'
        exact ⟨_, hnew, fun ht => hmt (htomb ht), fun hi => hmi (hint hi),
          fun c => .inr (.inr mem_cons_self)⟩
      · refine ⟨row', by rw [hgetne _ hd]; exact hrow', htomb, hint, fun c => ?_⟩
        exact (hsame c).imp_right (Or.imp_right (mem_cons_of_mem _))
    case seedsNodup => exact hrs.seedsNodup
    case unseeded => exact hrs.unseeded
    case seeds =>
      intro e he
      obtain ⟨hlive, hin, hsame, -⟩ := hrs.seeds e he
      rw [hreg]
      refine ⟨hlive, hin, fun hnone => hsame ?_, fun _ => hpend⟩
      by_cases hd : e.docId = d
      · rw [hd] at hnone ⊢
        cases hold : s.library.get d with
        | none => rfl
        | some row =>
          rw [(hget row hold).1] at hnone
          cases hnone
      · rw [hgetne _ hd] at hnone
        exact hnone
    case written =>
      rw [hreg]
      exact hrs.written
    case adopting =>
      rw [hreg]
      exact hrs.adopting
  case docs =>
    intro d'
    have hd := h.docs d'
    have hruns : s.AtHome d' → ∀ r', s'.run = some r' → (d', .syncIntent) ∈ r'.written ∨
        ((∀ row ∈ r'.toFold, row.docId = d' → row.syncIntent = some .localOnly) ∧
          ∀ entry ∈ r'.seeds, entry.docId ≠ d') := by
      intro hat r' hr'
      rw [hrun] at hr'
      obtain ⟨r, hr, rfl⟩ := map_eq_some_iff.mp hr'
      exact hat.2 r hr
    by_cases hne : d' ≠ d
    · refine hd.still ?_
      constructor
      case registry => rw [hreg]
      case fields => rw [hlib, Library.fields_insert, if_neg hne]
      case edits => rw [hedits]; exact fun _ _ _ => Iff.rfl
      case touched => rw [htouched]
      case home => exact fun hin => (hhome hin).1
      case due => exact fun _ _ _ _ => .inl hpend
      case atHome =>
        intro _ hat
        refine ⟨?_, hruns hat⟩
        rw [hgetne d' hne]
        exact hat.1
    · obtain rfl : d' = d := not_not.mp hne
      have hlisted : s.library.get d' ≠ none → s'.library.get d' ≠ none := by
        intro hne
        obtain ⟨row, hrow⟩ := ne_none_iff_exists'.mp hne
        rw [(hget row hrow).1]
        exact some_ne_none _
      have hshown : ∀ {e busy busy'},
          (s.library.get d' = none → e.syncIntent.isSome → f.intents.isSome) →
          (∀ c, busy c → busy' c) → s.Shown d' e busy → s'.Shown d' e busy' := by
        intro e busy busy' hnew hbusy hs
        constructor
        case tombs =>
          refine fun hsome => (hs.tombs hsome).imp ?_ (hbusy _)
          rintro ⟨row, hrow, ht⟩
          obtain ⟨hnew, rfl⟩ := hget row hrow
          exact ⟨_, hnew, hmt ht⟩
        case intents =>
          intro hsome row hrow
          rw [hget' row hrow]
          cases hold : s.library.get d' with
          | none => exact .inl (hnew hold hsome)
          | some row' =>
            obtain ⟨-, rfl⟩ := hget row' hold
            exact (hs.intents hsome _ hold).imp hmi (hbusy _)
        case agree => exact fun _ _ _ => .inr (.inr (.inl hpend))
      refine hd.kept (by rw [hreg]) (by rw [htouched]) ?whole hlisted ?edits ?shown ?found ?captured
        ?home
      case whole =>
        rw [hlib, Library.fields_insert, if_pos rfl]
        exact hwhole
      case edits =>
        rw [hedits]
        exact fun op y hy hyd => ⟨y, hy, hyd, rfl, rfl⟩
      case shown => exact fun e he => hshown (hstates · e he) fun _ hb => hb.of_edits hedits
      case found =>
        rw [hedits]
        exact fun op y hy hyd _ => hshown (absurd · (hd.held op y hy hyd).2)
          fun _ hb => hb.of_edits hedits
      case captured =>
        rw [hedits]
        intro op y hy hyd ht hin
        subst hyd
        exact (hd.found op y hy rfl ht).home (hhome hin).1
      case home =>
        intro hin
        obtain ⟨hold, hsame⟩ := hhome hin
        obtain ⟨hlocal, hrow, hor⟩ := hd.home hold
        rw [hreg]
        refine ⟨hlocal, hlisted hrow, hor.imp (·.of_edits hedits) ?_⟩
        intro hat
        refine ⟨fun row' hrow' => ?_, hruns hat⟩
        obtain ⟨row, hrow⟩ := ne_none_iff_exists'.mp hrow
        obtain ⟨-, rfl⟩ := hget row hrow
        rw [hget' row' hrow']
        exact (hsame rfl).trans (hat.1 _ hrow)

/-! ## A run begins and ends -/

theorem mem_unlisted (h : s.Sound) (hmem : entry ∈ s.unlisted) :
    s.registry.lookup entry.docId = some entry ∧
      s.library.get entry.docId = none ∧ entry.deletedAt = none := by
  rw [unlisted, mem_filter] at hmem
  obtain ⟨hval, htest⟩ := hmem
  obtain ⟨d, hd⟩ := mem_values.mp hval
  rw [Bool.and_eq_true, Bool.and_eq_true, isNone_iff_eq_none,
    isNone_iff_eq_none] at htest
  refine ⟨?_, htest.1⟩
  rw [(h.docs d).keyed entry hd]
  exact hd

theorem nodup_unlisted (h : s.Sound) : (s.unlisted.map (·.docId)).Nodup := by
  have hkeys : s.registry.values.map (·.docId) = s.registry.keys := by
    show (s.registry.alist.entries.map fun e => e.2).map (·.docId) =
      s.registry.alist.entries.map fun e => e.1
    rw [List.map_map]
    refine map_congr_left fun e he => ?_
    exact (h.docs e.1).keyed e.2 (mem_entries_iff.mp he)
  have hsub : (s.unlisted.map (·.docId)).Sublist (s.registry.values.map (·.docId)) :=
    List.Sublist.map _ filter_sublist
  rw [hkeys] at hsub
  exact s.registry.alist.keys_nodup.sublist hsub

theorem Sound.start (h : s.Sound) (hs : s.start = some s') : s'.Sound := by
  rw [CatalogState.start] at hs
  split at hs
  · cases hs
    have hdue : ∀ d c row, s.library.get d = some row →
        ({ s with pending := s.pending - 1,
                  run := some { seeds := s.unlisted, known := s.library.entries } }
          : CatalogState).tick.Due d c := by
      intro d c row hrow
      have hid : row.docId = d := Library.docId_of_get hrow
      refine .inr ⟨_, row, row, rfl, Library.mem_entries.mpr ?_, hid, hrow, .refl row c⟩
      rw [hid]
      exact hrow
    constructor
    case begun => exact fun op x hx => Nat.lt_succ_of_lt (h.begun op x hx)
    case run =>
      intro r hr
      cases hr
      constructor
      case merged => exact fun hne => absurd rfl hne
      case nodup => exact Library.nodup_entries s.library
      case current =>
        intro row hrow
        exact ⟨row, Library.mem_entries.mp hrow, id, id, fun c => .inl (.refl row c)⟩
      case seedsNodup => exact nodup_unlisted h
      case unseeded =>
        intro entry hentry row hrow hid
        have hget := Library.mem_entries.mp hrow
        rw [hid, (mem_unlisted h hentry).2.1] at hget
        cases hget
      case seeds =>
        intro entry hentry
        obtain ⟨hlook, hnone, hlive⟩ := mem_unlisted h hentry
        refine ⟨hlive, ?_, fun _ => hlook, fun hne => absurd hnone hne⟩
        show s.registry.lookup entry.docId ≠ none
        rw [hlook]
        exact some_ne_none _
      case written =>
        intro d c hmem
        cases hmem
      case adopting =>
        intro row hrow
        cases hrow
    case docs =>
      intro d
      refine (h.docs d).still ?_
      constructor
      case registry => rfl
      case fields => rfl
      case edits => exact fun _ _ _ => Iff.rfl
      case touched => rfl
      case home => exact id
      case due => exact fun c row hrow _ => hdue d c row hrow
      case atHome =>
        intro hrow hat
        refine ⟨hat.1, fun r hr => ?_⟩
        cases hr
        right
        constructor
        · intro row hmem hid
          have hget := Library.mem_entries.mp hmem
          rw [hid] at hget
          exact hat.1 row hget
        · intro entry hentry hid
          exact hrow (hid ▸ (mem_unlisted h hentry).2.1)
  · cases hs

theorem Sound.finish (h : s.Sound) (hs : s.finish = some s') : s'.Sound := by
  rw [CatalogState.finish] at hs
  split at hs
  · next r hr =>
    split at hs
    · next hdone =>
      cases hs
      constructor
      case begun => exact fun op x hx => Nat.lt_succ_of_lt (h.begun op x hx)
      case run =>
        intro r' hr'
        cases hr'
      case docs =>
        intro d
        refine (h.docs d).still ?_
        constructor
        case registry => rfl
        case fields => rfl
        case edits => exact fun _ _ _ => Iff.rfl
        case touched => rfl
        case home => exact id
        case due =>
          rintro c _ _ (hp | ⟨r', row, _, hr', hmem, -⟩)
          · exact .inl hp
          · rw [hr] at hr'
            cases hr'
            rw [hdone.2.1] at hmem
            cases hmem
        case atHome =>
          intro _ hat
          refine ⟨hat.1, fun r' hr' => ?_⟩
          cases hr'
    · cases hs
  · cases hs

/-! ## A seed -/

theorem RunSound.unseed {rest : List DocRegistryEntry} (h : s.RunSound r)
    (hseeds : r.seeds = entry :: rest) :
    s.RunSound { r with seeds := rest } where
  __ := h
  seedsNodup := by
    have hn := h.seedsNodup
    rw [hseeds] at hn
    exact (nodup_cons.mp hn).2
  unseeded := fun e he => h.unseeded e (by rw [hseeds]; exact mem_cons_of_mem _ he)
  seeds := fun e he => h.seeds e (by rw [hseeds]; exact mem_cons_of_mem _ he)

theorem AtHome.unseed {rest : List DocRegistryEntry} (hr : s.run = some r)
    (hseeds : r.seeds = entry :: rest) (h : s.AtHome d) :
    ∀ r', some { r with seeds := rest } = some r' → (d, .syncIntent) ∈ r'.written ∨
      ((∀ row ∈ r'.toFold, row.docId = d → row.syncIntent = some .localOnly) ∧
        ∀ e ∈ r'.seeds, e.docId ≠ d) := by
  intro r' hr'
  cases hr'
  refine (h.2 r hr).imp_right fun hh => ⟨hh.1, fun e he => hh.2 e ?_⟩
  rw [hseeds]
  exact mem_cons_of_mem _ he

theorem seed_eq_some {reached : Bool} (hs : s.seed self reached = some s') :
    ∃ r entry rest, s.run = some r ∧ r.seeds = entry :: rest ∧
      s' = { s with
              library :=
                if reached then s.library.write entry.docId (seedFields self entry)
                else s.library
              run := some { r with seeds := rest } }.tick := by
  rw [CatalogState.seed] at hs
  split at hs
  · next r hr =>
    split at hs
    · next entry rest hseeds =>
      cases hs
      exact ⟨r, entry, rest, hr, hseeds, rfl⟩
    · cases hs
  · cases hs

theorem Sound.seed_refused {rest : List DocRegistryEntry} (h : s.Sound) (hr : s.run = some r)
    (hseeds : r.seeds = entry :: rest) :
    ({ s with run := some { r with seeds := rest } } : CatalogState).tick.Sound where
  begun := fun op x hx => Nat.lt_succ_of_lt (h.begun op x hx)
  run := by
    intro r' hr'
    cases hr'
    have hrs := (h.run r hr).unseed hseeds
    exact { hrs with }
  docs := by
    intro d
    refine (h.docs d).still ?_
    constructor
    case registry => rfl
    case fields => rfl
    case edits => exact fun _ _ _ => Iff.rfl
    case touched => rfl
    case home => exact id
    case due =>
      intro c row _ hdue
      refine hdue.mono (Nat.le_refl _) ?_ fun row hrow => ⟨row, hrow, .refl row c⟩
      intro r' row hr' hmem _
      rw [hr] at hr'
      cases hr'
      exact ⟨_, rfl, hmem⟩
    case atHome => exact fun _ hat => ⟨hat.1, hat.unseed hr hseeds⟩

theorem listed_seed (self : Option String) (entry : DocRegistryEntry) (f : LibraryFields) :
    (seedFields self entry f).listed = true := rfl

theorem agrees_seed (hlive : entry.deletedAt = none) (hf : f.intents = none ∧ f.tombstones = none)
    (d : DocId) (c : Shared) : Agrees entry ((seedFields self entry f).row d) c := by
  cases c with
  | name => exact fun _ => rfl
  | syncIntent =>
    intro _
    show entry.syncIntent = entry.syncIntent.or f.intents
    rw [hf.1, or_none]
  | tombstone =>
    show entry.deletedAt.isSome = f.tombstones.isSome
    rw [hlive, hf.2]

theorem Sound.seed_reached {rest : List DocRegistryEntry} (h : s.Sound)
    (hr : s.run = some r) (hseeds : r.seeds = entry :: rest)
    (hunwritten : (entry.docId, .syncIntent) ∉ r.written)
    (hs' : s' = { s with
      library := s.library.write entry.docId (seedFields self entry)
      run := some { r with seeds := rest } }.tick) : s'.Sound := by
  have hrs := h.run r hr
  obtain ⟨hlive, hheld, hunlisted, hpending⟩ :=
    hrs.seeds entry (by rw [hseeds]; exact mem_cons_self)
  generalize hd : entry.docId = d at *
  generalize hf : s.library.fields d = f
  have hedits : s'.edits = s.edits := by rw [hs']; rfl
  have hreg : s'.registry = s.registry := by rw [hs']; rfl
  have hlib : s'.library = s.library.insert d (seedFields self entry f) := by
    rw [hs', ← hf]
    rfl
  have htouched : s'.touched = s.touched := by rw [hs']; rfl
  have hhome : s'.home = s.home := by rw [hs']; rfl
  have hpend : s'.pending = s.pending := by rw [hs']; rfl
  have hrun : s'.run = some { r with seeds := rest } := by rw [hs']; rfl
  have hclock : s'.clock = s.clock + 1 := by rw [hs']; rfl
  clear hs'
  have hget' : s'.library.get d = some ((seedFields self entry f).row d) := by
    rw [hlib, Library.get_insert_self, Library.read_of_listed (listed_seed self entry f)]
  have hgetne : ∀ d', d' ≠ d → s'.library.get d' = s.library.get d' := by
    intro d' hne
    rw [hlib, Library.get_insert_ne _ hne]
  constructor
  case begun =>
    rw [hedits, hclock]
    exact fun op x hx => Nat.lt_succ_of_lt (h.begun op x hx)
  case run =>
    intro r' hr'
    rw [hrun] at hr'
    cases hr'
    have hns := hrs.seedsNodup
    rw [hseeds, map_cons, hd] at hns
    have hu := hrs.unseed hseeds
    constructor
    case merged =>
      rw [hpend]
      exact hu.merged
    case nodup => exact hu.nodup
    case current =>
      intro row hrow
      have hne : row.docId ≠ d := by
        rw [← hd]
        exact hrs.unseeded entry (by rw [hseeds]; exact mem_cons_self) row hrow
      rw [hgetne _ hne]
      exact hu.current row hrow
    case seedsNodup => exact hu.seedsNodup
    case unseeded => exact hu.unseeded
    case seeds =>
      intro e he
      have hne : e.docId ≠ d := by
        intro hed
        exact (nodup_cons.mp hns).1 (List.mem_map.mpr ⟨e, he, hed⟩)
      rw [hreg, hpend, hgetne _ hne]
      exact hu.seeds e he
    case written =>
      rw [hreg]
      exact hu.written
    case adopting =>
      rw [hreg]
      exact hu.adopting
  case docs =>
    intro d'
    have hdoc := h.docs d'
    by_cases hne : d' ≠ d
    · refine hdoc.still ?_
      constructor
      case registry => rw [hreg]
      case fields => rw [hlib, Library.fields_insert, if_neg hne]
      case edits => rw [hedits]; exact fun _ _ _ => Iff.rfl
      case touched => rw [htouched]
      case home => rw [hhome]; exact id
      case due =>
        intro c row _ hdue
        refine hdue.mono (Nat.le_of_eq hpend.symm) ?_ ?_
        · intro r' row hr' hmem _
          rw [hr] at hr'
          cases hr'
          exact ⟨_, hrun, hmem⟩
        · intro row hrow
          exact ⟨row, by rw [hgetne d' hne]; exact hrow, .refl row c⟩
      case atHome =>
        intro _ hat
        refine ⟨?_, ?_⟩
        · rw [hgetne d' hne]
          exact hat.1
        · rw [hrun]
          exact hat.unseed hr hseeds
    · obtain rfl : d' = d := not_not.mp hne
      -- the canvas is either not listed, and its entry is the one seeded, or a merge has
      -- listed it since the run began, and a reconcile is still to come
      have hcases : (s.library.get d' = none ∧ f.intents = none ∧ f.tombstones = none ∧
          s.registry.lookup d' = some entry) ∨
          (s.library.get d' = some (f.row d') ∧ 0 < s'.pending) := by
        cases hl : f.listed with
        | false =>
          have hnone : s.library.get d' = none := get_eq_none (by rw [hf]; exact hl)
          obtain ⟨hi, ht⟩ := (h.docs d').whole (by rw [hf]; exact hl)
          rw [hf] at hi ht
          exact .inl ⟨hnone, hi, ht, hunlisted hnone⟩
        | true =>
          have hsome : s.library.get d' = some (f.row d') := by
            rw [Library.get, hf, Library.read_of_listed hl]
          refine .inr ⟨hsome, ?_⟩
          rw [hpend]
          refine hpending ?_
          rw [hsome]
          exact some_ne_none _
      have hshown : ∀ {e busy busy'}, (s.library.get d' = none → e = entry) →
          (∀ c, busy c → busy' c) → s.Shown d' e busy → s'.Shown d' e busy' := by
        intro e busy busy' hnew hbusy hs
        constructor
        case tombs =>
          refine fun hsome => (hs.tombs hsome).imp ?_ (hbusy _)
          rintro ⟨row, hrow, ht⟩
          obtain ⟨-, rfl⟩ := Library.get_eq_some hrow
          rw [hf] at ht
          exact ⟨_, hget', ht⟩
        case intents =>
          intro hsome row hrow
          rw [hget'] at hrow
          cases hrow
          show (entry.syncIntent.or f.intents).isSome ∨ _
          rw [isSome_or, Bool.or_eq_true]
          rcases hcases with ⟨hnone, -⟩ | ⟨hlisted, -⟩
          · rw [← hnew hnone]
            exact .inl (.inl hsome)
          · exact (hs.intents hsome _ hlisted).imp .inr (hbusy _)
        case agree =>
          intro row hrow c
          rw [hget'] at hrow
          cases hrow
          rcases hcases with ⟨hnone, hi, ht, -⟩ | ⟨-, hp⟩
          · rw [hnew hnone]
            exact .inl (agrees_seed hlive ⟨hi, ht⟩ d' c)
          · exact .inr (.inr (.inl hp))
      refine hdoc.kept (by rw [hreg]) (by rw [htouched]) ?whole ?listed ?edits ?shown ?found ?captured
        ?home
      case whole =>
        rw [hlib, Library.fields_insert, if_pos rfl]
        intro hl
        cases hl
      case listed =>
        rw [hget']
        exact fun _ => some_ne_none _
      case edits =>
        rw [hedits]
        exact fun op y hy hyd => ⟨y, hy, hyd, rfl, rfl⟩
      case shown =>
        refine fun e he => hshown (fun hnone => ?_) fun _ hb => hb.of_edits hedits
        rw [hunlisted hnone] at he
        exact (some.inj he).symm
      case found =>
        rw [hedits]
        exact fun op y hy hyd _ => hshown (absurd · (hdoc.held op y hy hyd).2)
          fun _ hb => hb.of_edits hedits
      case captured =>
        rw [hedits, hhome]
        intro op y hy hyd ht
        subst hyd
        exact (hdoc.found op y hy rfl ht).home
      case home =>
        intro hin
        rw [hhome] at hin
        obtain ⟨hlocal, hrow, hor⟩ := hdoc.home hin
        rw [hreg, hget']
        refine ⟨hlocal, some_ne_none _, ?_⟩
        refine hor.imp (·.of_edits hedits) fun hat => ?_
        rcases hat.2 r hr with hw | ⟨-, hns⟩
        · exact absurd hw hunwritten
        · exact absurd hd (hns entry (by rw [hseeds]; exact mem_cons_self))

theorem Sound.seed {reached : Bool} (h : s.Sound) (hok : s.Orderly (.seed reached))
    (hs : s.seed self reached = some s') : s'.Sound := by
  obtain ⟨r, entry, rest, hr, hseeds, hs'⟩ := seed_eq_some hs
  cases reached with
  | false =>
    rw [hs']
    exact h.seed_refused hr hseeds
  | true => exact h.seed_reached hr hseeds (hok r entry rest hr hseeds).2 hs'

/-! ## A row is folded -/

theorem DocSound.absent (hw : (s.library.fields d).Whole) (hnone : s.registry.lookup d = none)
    (hedits : ∀ op x, s.edits.lookup op = some x → x.docId ≠ d) (hhome : d ∉ s.home) :
    s.DocSound d where
  whole := hw
  keyed := by
    intro e he
    rw [hnone] at he
    cases he
  held := fun op x hx hd => absurd hd (hedits op x hx)
  apart := fun op _ x _ hx _ hd => absurd hd (hedits op x hx)
  holds := fun op x _ hx hd => absurd hd (hedits op x hx)
  tombs := by
    intro e he
    rw [hnone] at he
    cases he
  intents := by
    intro e row he
    rw [hnone] at he
    cases he
  agree := by
    intro e row he
    rw [hnone] at he
    cases he
  found := fun op x hx hd => absurd hd (hedits op x hx)
  home := fun hin => absurd hin hhome

theorem DocSound.idle (h : s.DocSound d) (hnone : s.registry.lookup d = none) :
    (∀ op x, s.edits.lookup op = some x → x.docId ≠ d) ∧ d ∉ s.home := by
  constructor
  · intro op x hx hd
    exact (h.held op x hx hd).1 hnone
  · intro hin
    obtain ⟨⟨e, he, -⟩, -⟩ := h.home hin
    rw [hnone] at he
    cases he

theorem folded_eq_spread (syncs : Bool) (row : DocLibraryEntry) (entry : DocRegistryEntry) :
    ∃ patch, folded syncs row entry = entry.spread patch ∧
      ∀ c, patch.touches c = true → foldRow syncs row (some entry) = .change patch := by
  rw [folded]
  split
  · next patch hp => exact ⟨patch, rfl, fun _ _ => hp⟩
  · refine ⟨{}, rfl, fun c hc => ?_⟩
    cases c <;> cases hc

theorem deletedAt_folded (h : (folded syncs row entry).deletedAt.isSome) :
    entry.deletedAt.isSome ∨ row.tombstone.isSome := by
  cases hrow : row.tombstone with
  | some deletedAt => exact .inr rfl
  | none =>
    by_cases he : entry.deletedAt = none
    · rw [(folded_live hrow he).2.2] at h
      cases h
    · exact .inl (isSome_iff_ne_none.mpr he)

theorem syncIntent_folded (syncs : Bool) (row : DocLibraryEntry) (entry : DocRegistryEntry) :
    (folded syncs row entry).syncIntent = entry.syncIntent ∨
      (folded syncs row entry).syncIntent = row.syncIntent.or entry.syncIntent := by
  cases hrow : row.tombstone with
  | some deletedAt =>
    left
    rw [folded, foldRow_tombstone hrow]
    split
    · next patch hp =>
      split at hp
      · cases hp
        rfl
      · cases hp
    · rfl
  | none =>
    by_cases he : entry.deletedAt = none
    · exact .inr (folded_live hrow he).2.1
    · left
      rw [folded_deleted hrow (isSome_iff_ne_none.mpr he)]

theorem RunSound.toFold_cons (h : s.RunSound r) (hadopt : r.adopting = none)
    (hknown : r.known = row :: rest) :
    r.toFold = row :: rest ∧ ∀ row' ∈ rest, row'.docId ≠ row.docId := by
  have hfold : r.toFold = row :: rest := by
    rw [Reconcile.toFold, hadopt, hknown]
    rfl
  refine ⟨hfold, fun row' hmem hid => ?_⟩
  have hn := h.nodup
  rw [hfold, map_cons] at hn
  exact (nodup_cons.mp hn).1 (List.mem_map.mpr ⟨row', hmem, hid⟩)

theorem RunSound.fold {adopting : Option DocLibraryEntry} (h : s.RunSound r)
    (hseeds : r.seeds = []) (hadopt : r.adopting = none) (hknown : r.known = row :: rest)
    (hsub : (adopting.toList ++ rest).Sublist (row :: rest))
    (hnew : ∀ row', adopting = some row' →
      s.registry.lookup row'.docId = none ∧ row'.tombstone = none) :
    s.RunSound { r with known := rest, adopting := adopting } where
  __ := h
  nodup := by
    have hn := h.nodup
    rw [(h.toFold_cons hadopt hknown).1] at hn
    exact (hsub.map _).nodup hn
  current := by
    intro row' hmem
    refine h.current row' ?_
    rw [(h.toFold_cons hadopt hknown).1]
    exact hsub.subset hmem
  unseeded := by
    intro entry hentry
    rw [show ({ r with known := rest, adopting := adopting } : Reconcile).seeds = r.seeds from rfl,
      hseeds] at hentry
    cases hentry
  adopting := hnew

theorem still_folded {r r' : Reconcile} (hr : s.run = some r)
    (hreg : s'.registry.lookup d = s.registry.lookup d)
    (hlib : s'.library = s.library) (hedits : s'.edits = s.edits)
    (htouched : s'.touched d = s.touched d) (hhome : s'.home = s.home)
    (hpend : s'.pending = s.pending) (hr' : s'.run = some r')
    (hk : ∀ row' ∈ r.known, row'.docId = d → row' ∈ r'.known)
    (hw : r'.written = r.written) (hs : r'.seeds = r.seeds)
    (hsub : ∀ row' ∈ r'.toFold, row' ∈ r.toFold) : s.Still s' d where
  registry := hreg
  fields := by rw [hlib]
  edits := by
    rw [hedits]
    exact fun _ _ _ => Iff.rfl
  touched := htouched
  home := by
    rw [hhome]
    exact id
  due := by
    intro c row' _ hdue
    refine hdue.mono (Nat.le_of_eq hpend.symm) ?_ fun row hrow =>
      ⟨row, by rw [hlib]; exact hrow, .refl row c⟩
    intro r'' row'' hr'' hmem hid
    rw [hr] at hr''
    cases hr''
    exact ⟨r', hr', hk row'' hmem hid⟩
  atHome := by
    intro _ hat
    refine ⟨by rw [hlib]; exact hat.1, fun r'' hr'' => ?_⟩
    rw [hr'] at hr''
    cases hr''
    rw [hw, hs]
    exact (hat.2 r hr).imp_right fun hh => ⟨fun row' hmem => hh.1 row' (hsub row' hmem), hh.2⟩

theorem known_behind (hknown : r.known = row :: rest) (hne : d ≠ row.docId)
    {row' : DocLibraryEntry} (hmem : row' ∈ r.known) (hid : row'.docId = d) : row' ∈ rest := by
  rw [hknown] at hmem
  refine (mem_cons.mp hmem).resolve_left fun he => hne ?_
  rw [← hid, he]

/-- A row is folded over the entry of its canvas. -/
theorem Sound.foldedOver (h : s.Sound) (hr : s.run = some r) (hseeds : r.seeds = [])
    (hadopt : r.adopting = none)
    (hknown : r.known = row :: rest) (hentry : s.registry.lookup row.docId = some entry)
    (hok : s.Orderly (.fold syncs))
    (hreg : ∀ d, s'.registry.lookup d =
      if d = row.docId then some (folded syncs row entry) else s.registry.lookup d)
    (hlib : s'.library = s.library) (hedits : s'.edits = s.edits)
    (htouched : ∀ d, s'.touched d = if d = row.docId then s.clock else s.touched d)
    (hhome : s'.home = s.home) (hpend : s'.pending = s.pending)
    (hrun : s'.run = some { r with known := rest }) (hclock : s'.clock = s.clock + 1) :
    s'.Sound := by
  have hrs := h.run r hr
  obtain ⟨hfold, hrest⟩ := hrs.toFold_cons hadopt hknown
  obtain ⟨row', hrow', htomb, hint, hsame⟩ :=
    hrs.current row (by rw [hfold]; exact mem_cons_self)
  obtain ⟨patch, hpatch, htouch⟩ := folded_eq_spread syncs row entry
  have hclear : ∀ c, patch.touches c = true →
      ¬s.Busy row.docId c ∧ (row.docId, c) ∉ r.written := by
    intro c hc
    refine hok r row rest patch hr hknown ?_ c hc
    rw [hentry]
    exact htouch c hc
  have huntouched : ∀ {c}, s.Busy row.docId c → patch.touches c = false := by
    intro c hb
    cases ht : patch.touches c with
    | false => rfl
    | true => exact absurd hb (hclear c ht).1
  have hself : s'.registry.lookup row.docId = some (folded syncs row entry) := by
    rw [hreg, if_pos rfl]
  have hbusy : ∀ {d c}, s.Busy d c → s'.Busy d c := fun hb => hb.of_edits hedits
  constructor
  case begun =>
    rw [hedits, hclock]
    exact fun op x hx => Nat.lt_succ_of_lt (h.begun op x hx)
  case run =>
    intro r' hr'
    rw [hrun] at hr'
    cases hr'
    have hf := @RunSound.fold _ _ _ _ r.adopting hrs hseeds hadopt hknown
      (by rw [hadopt]; exact sublist_cons_self row rest)
      (by rw [hadopt]; intro _ hn; cases hn)
    refine hf.registered hreg hlib hpend ?_ ?_
    · rw [hentry]
      exact some_ne_none _
    · rw [hrow']
      exact some_ne_none _
  case docs =>
    intro d
    have hd := h.docs d
    by_cases hne : d ≠ row.docId
    · refine hd.still (still_folded hr (by rw [hreg, if_neg hne]) hlib hedits
        (by rw [htouched, if_neg hne]) hhome hpend hrun
        (fun _ hmem => known_behind hknown hne hmem) rfl rfl ?_)
      intro row'' hmem
      rw [hfold]
      refine mem_cons_of_mem _ ?_
      have hmem' : row'' ∈ r.adopting.toList ++ rest := hmem
      rw [hadopt] at hmem'
      exact hmem'
    · obtain rfl : d = row.docId := not_not.mp hne
      have hkey : (folded syncs row entry).docId = row.docId := by
        rw [hpatch]
        exact hd.keyed entry hentry
      refine Shown.docSound ?shown hself hkey (by rw [hlib]; exact hd.whole) ?edits
        (by rw [hedits]; exact hd.apart) ?home
      case edits =>
        rw [hedits, hlib, hpatch]
        intro op x hx hxd
        refine ⟨(hd.held op x hx hxd).2, (Edit.holds_iff (huntouched ⟨op, x, hx, hxd, rfl⟩)
          entry).mpr (hd.holds op x entry hx hxd hentry), fun ht => ?_⟩
        rw [htouched, if_pos rfl] at ht
        have := h.begun op x hx
        omega
      case shown =>
        constructor <;> rw [hlib]
        case tombs =>
          intro hsome
          rcases deletedAt_folded hsome with hs | hs
          · exact (hd.tombs entry hentry hs).imp_right hbusy
          · exact .inl ⟨row', hrow', htomb hs⟩
        case intents =>
          intro hsome row'' hrow''
          rw [hrow'] at hrow''
          cases hrow''
          have hor : entry.syncIntent.isSome ∨ row.syncIntent.isSome := by
            rcases syncIntent_folded syncs row entry with hf | hf
            · rw [hf] at hsome
              exact .inl hsome
            · rw [hf, isSome_or, Bool.or_eq_true] at hsome
              exact hsome.symm
          rcases hor with hs | hs
          · exact (hd.intents entry _ hentry hrow' hs).imp_right hbusy
          · exact .inl (hint hs)
        intro row'' hrow'' c
        rw [hrow'] at hrow''
        cases hrow''
        by_cases hb : s.Busy row.docId c
        · exact .inr (.inl (hbusy hb))
        by_cases hsm : SameIn row row' c
        · left
          refine folded_agrees hsm ?_ ?_
          · intro hc hs
            rw [hc] at hb
            obtain ⟨row'', hrow'', ht⟩ := (hd.tombs entry hentry hs).resolve_right hb
            rw [hrow'] at hrow''
            cases hrow''
            exact ht
          · intro hc hs
            rw [hc] at hb
            exact (hd.intents entry row' hentry hrow' hs).resolve_right hb
        · rcases (hsame c).resolve_left hsm with hw | hm
          · -- the row is behind what an edit wrote, and leaves the column alone
            have hun : patch.touches c = false := by
              cases ht : patch.touches c with
              | false => rfl
              | true => exact absurd hw (hclear c ht).2
            rcases hd.agree entry row' hentry hrow' c with ha | hb' | hdu
            · rw [hpatch]
              exact .inl (ha.spread hun)
            · exact absurd hb' hb
            · rcases hdu with hp | ⟨r'', row1, row2, hr'', hmem, hid, hget, hs1⟩
              · exact .inr (.inr (.inl (by rw [hpend]; exact hp)))
              · rw [hr] at hr''
                cases hr''
                rw [hrow'] at hget
                cases hget
                rw [hknown] at hmem
                rcases mem_cons.mp hmem with he | hmem
                · rw [he] at hs1
                  exact absurd hs1 hsm
                · exact absurd hid (hrest row1 hmem)
          · refine .inr (.inr (.inl ?_))
            rw [hpend]
            exact hrs.merged (ne_nil_of_mem hm)
      case home =>
        rw [hhome, hlib]
        intro hin
        obtain ⟨⟨e, he, hlocal⟩, hlisted, hor⟩ := hd.home hin
        rw [hentry] at he
        cases he
        have hat' : s.AtHome row.docId → s'.AtHome row.docId := by
          intro hat
          refine ⟨by rw [hlib]; exact hat.1, fun r' hr' => ?_⟩
          rw [hrun] at hr'
          cases hr'
          refine (hat.2 r hr).imp_right fun hh => ⟨fun row'' hmem => hh.1 row'' ?_, hh.2⟩
          have hmem' : row'' ∈ r.adopting.toList ++ rest := hmem
          rw [hadopt] at hmem'
          rw [hfold]
          exact mem_cons_of_mem _ hmem'
        refine ⟨?_, hlisted, hor.imp (·.of_edits hedits) hat'⟩
        cases ht : patch.touches .syncIntent with
        | false =>
          rw [hpatch, syncIntent_spread ht]
          exact hlocal
        | true =>
          obtain ⟨hidle, hunw⟩ := hclear _ ht
          have hat : s.AtHome row.docId := by
            refine hor.resolve_left ?_
            rintro ⟨op, x, hx, hxd, hxe, -⟩
            exact hidle ⟨op, x, hx, hxd, by rw [hxe]; rfl⟩
          have hrowlocal : row.syncIntent = some .localOnly :=
            ((hat.2 r hr).resolve_left hunw).1 row (by rw [hfold]; exact mem_cons_self) rfl
          rcases syncIntent_folded syncs row entry with hf | hf
          · rw [hf]
            exact hlocal
          · rw [hf, hrowlocal]
            rfl

theorem foldRow_none_ne_change (syncs : Bool) (row : DocLibraryEntry) (patch : Patch) :
    foldRow syncs row none ≠ .change patch := by
  rw [foldRow]
  split <;> exact RowFold.noConfusion

theorem foldRow_adopt {e : Option DocRegistryEntry} (h : foldRow syncs row e = .adopt) :
    e = none ∧ row.tombstone = none := by
  cases e with
  | some entry => exact absurd h (foldRow_some_ne_adopt syncs row entry)
  | none =>
    rw [foldRow] at h
    split at h
    · next ht =>
      exact ⟨rfl, isNone_iff_eq_none.mp (Bool.and_eq_true_iff.mp ht).1⟩
    · cases h

theorem Sound.passed {r r' : Reconcile} {adopting : Option DocLibraryEntry} (h : s.Sound)
    (hr : s.run = some r) (hseeds : r.seeds = []) (hadopt : r.adopting = none)
    (hknown : r.known = row :: rest) (hnone : s.registry.lookup row.docId = none)
    (hr' : r' = { r with known := rest, adopting := adopting })
    (hnew : adopting = none ∨ (adopting = some row ∧ row.tombstone = none))
    (hreg : s'.registry = s.registry) (hlib : s'.library = s.library) (hedits : s'.edits = s.edits)
    (htouched : ∀ d, d ≠ row.docId → s'.touched d = s.touched d) (hhome : s'.home = s.home)
    (hpend : s'.pending = s.pending) (hrun : s'.run = some r') (hclock : s'.clock = s.clock + 1) :
    s'.Sound := by
  have hrs := h.run r hr
  have hfold := (hrs.toFold_cons hadopt hknown).1
  have hsub : (adopting.toList ++ rest).Sublist (row :: rest) := by
    rcases hnew with he | ⟨he, -⟩
    · rw [he]
      exact sublist_cons_self row rest
    · rw [he]
      exact List.Sublist.refl _
  constructor
  case begun =>
    rw [hedits, hclock]
    exact fun op x hx => Nat.lt_succ_of_lt (h.begun op x hx)
  case run =>
    intro r'' hr''
    rw [hrun] at hr''
    cases hr''
    have hf := hrs.fold hseeds hadopt hknown hsub (by
      intro row' hrow'
      rcases hnew with he | ⟨he, hlive⟩
      · rw [he] at hrow'
        cases hrow'
      · rw [he] at hrow'
        cases hrow'
        exact ⟨hnone, hlive⟩)
    subst hr'
    exact ⟨by rw [hpend]; exact hf.merged, hf.nodup, by rw [hlib]; exact hf.current,
      hf.seedsNodup, hf.unseeded, by rw [hreg, hlib, hpend]; exact hf.seeds,
      by rw [hreg]; exact hf.written, by rw [hreg]; exact hf.adopting⟩
  case docs =>
    intro d
    by_cases hne : d ≠ row.docId
    · subst hr'
      refine (h.docs d).still (still_folded hr (by rw [hreg]) hlib hedits (htouched d hne) hhome
        hpend hrun (fun _ hmem => known_behind hknown hne hmem) rfl rfl ?_)
      intro row' hmem
      rw [hfold]
      exact hsub.subset hmem
    · obtain rfl : d = row.docId := not_not.mp hne
      have hd := h.docs row.docId
      obtain ⟨hidle, hout⟩ := hd.idle hnone
      refine DocSound.absent ?_ (by rw [hreg]; exact hnone) (by rw [hedits]; exact hidle)
        (by rw [hhome]; exact hout)
      rw [hlib]
      exact hd.whole

theorem Sound.fold (h : s.Sound) (hok : s.Orderly (.fold syncs)) (hs : s.fold syncs = some s') :
    s'.Sound := by
  rw [CatalogState.fold] at hs
  split at hs
  · next r hr =>
    split at hs
    · next row rest hseeds hadopt hknown =>
      dsimp only at hs
      cases hentry : s.registry.lookup row.docId with
      | none =>
        rw [hentry] at hs
        split at hs
        · cases hs
          exact @Sound.passed _ _ _ _ _ _ r.adopting h hr hseeds hadopt hknown hentry rfl
            (.inl hadopt) rfl rfl rfl (fun d hd => if_neg hd) rfl rfl rfl rfl
        · next hf =>
          cases hs
          exact @Sound.passed _ _ _ _ _ _ (some row) h hr hseeds hadopt hknown hentry rfl
            (.inr ⟨rfl, (foldRow_adopt hf).2⟩) rfl rfl rfl (fun _ _ => rfl) rfl rfl rfl rfl
        · next patch hf => exact absurd hf (foldRow_none_ne_change syncs row patch)
      | some entry =>
        rw [hentry] at hs
        split at hs
        · next hf =>
          cases hs
          refine h.foldedOver hr hseeds hadopt hknown hentry hok ?_ rfl rfl (fun _ => rfl) rfl
            rfl rfl rfl
          intro d
          show s.registry.lookup d = _
          by_cases hd : d = row.docId
          · rw [if_pos hd, hd, hentry, folded, hf]
          · rw [if_neg hd]
        · next hf => exact absurd hf (foldRow_some_ne_adopt syncs row entry)
        · next patch hf =>
          obtain ⟨entry', he, rfl⟩ := map_eq_some_iff.mp hs
          cases he
          refine h.foldedOver hr hseeds hadopt hknown hentry hok ?_ rfl rfl (fun _ => rfl) rfl
            rfl rfl rfl
          intro d
          show (s.registry.insert row.docId (entry.spread patch)).lookup d = _
          rw [lookup_insert, folded, hf]
    · cases hs
  · cases hs

/-! ## A canvas is adopted -/

theorem adopt_eq_some {made : Bool} (hs : s.adopt made = some s') :
    ∃ r row, s.run = some r ∧ r.adopting = some row ∧
      s' = (({ s with
              registry := if made then s.registry.insert row.docId (adoptedEntry row)
                else s.registry
              run := some { r with adopting := none } } : CatalogState).touch row.docId).tick := by
  rw [CatalogState.adopt] at hs
  split at hs
  · next r hr =>
    split at hs
    · next row hrow =>
      cases hs
      exact ⟨r, row, hr, hrow, rfl⟩
    · cases hs
  · cases hs

theorem agrees_adopted {row row' : DocLibraryEntry} {c : Shared} (hlive : row.tombstone = none)
    (h : SameIn row row' c) : Agrees (adoptedEntry row) row' c := by
  cases c with
  | name => exact fun _ => h
  | syncIntent => exact fun _ => h
  | tombstone =>
    have hs : row.tombstone.isSome = row'.tombstone.isSome := h
    rw [hlive] at hs
    exact hs

theorem Sound.adopt {made : Bool} (h : s.Sound) (hs : s.adopt made = some s') : s'.Sound := by
  obtain ⟨r, row, hr, hadopt, hs'⟩ := adopt_eq_some hs
  have hrs := h.run r hr
  have hfold : r.toFold = row :: r.known := by
    rw [Reconcile.toFold, hadopt]
    rfl
  obtain ⟨hnone, hlive⟩ := hrs.adopting row hadopt
  obtain ⟨row', hrow', -, hint, hsame⟩ :=
    hrs.current row (by rw [hfold]; exact mem_cons_self)
  have hreg : ∀ d, s'.registry.lookup d =
      if d = row.docId then (if made then some (adoptedEntry row) else none)
      else s.registry.lookup d := by
    intro d
    rw [hs']
    cases made with
    | true => exact lookup_insert _ _ _ _
    | false =>
      by_cases hd : d = row.docId
      · rw [if_pos hd, hd]
        exact hnone
      · rw [if_neg hd]
        rfl
  have hlib : s'.library = s.library := by rw [hs']; rfl
  have hedits : s'.edits = s.edits := by rw [hs']; rfl
  have htouched : ∀ d, s'.touched d = if d = row.docId then s.clock else s.touched d := by
    intro d
    rw [hs']
    rfl
  have hhome : s'.home = s.home := by rw [hs']; rfl
  have hpend : s'.pending = s.pending := by rw [hs']; rfl
  have hrun : s'.run = some { r with adopting := none } := by rw [hs']; rfl
  have hclock : s'.clock = s.clock + 1 := by rw [hs']; rfl
  clear hs'
  have hknown : ∀ row'' ∈ r.known, row''.docId ≠ row.docId := by
    intro row'' hmem hid
    have hn := hrs.nodup
    rw [hfold, map_cons] at hn
    exact (nodup_cons.mp hn).1 (List.mem_map.mpr ⟨row'', hmem, hid⟩)
  constructor
  case begun =>
    rw [hedits, hclock]
    exact fun op x hx => Nat.lt_succ_of_lt (h.begun op x hx)
  case run =>
    intro r' hr'
    rw [hrun] at hr'
    cases hr'
    have hmem : ∀ row'' ∈ r.known, row'' ∈ r.toFold := by
      intro row'' hmem
      rw [hfold]
      exact mem_cons_of_mem _ hmem
    have hsome : ∀ d, s.registry.lookup d ≠ none →
        s'.registry.lookup d = s.registry.lookup d := by
      intro d hd
      rw [hreg, if_neg (fun he => hd (by rw [he]; exact hnone))]
    constructor
    case merged =>
      rw [hpend]
      exact hrs.merged
    case nodup =>
      have hn := hrs.nodup
      rw [hfold, map_cons] at hn
      exact (nodup_cons.mp hn).2
    case current =>
      rw [hlib]
      exact fun row'' hm => hrs.current row'' (hmem row'' hm)
    case seedsNodup => exact hrs.seedsNodup
    case unseeded => exact fun e he row'' hm => hrs.unseeded e he row'' (hmem row'' hm)
    case seeds =>
      intro e he
      obtain ⟨hl, hin, hs⟩ := hrs.seeds e he
      rw [hsome _ hin, hlib, hpend]
      exact ⟨hl, hin, hs⟩
    case written =>
      intro d c hw
      rw [hsome _ (hrs.written d c hw)]
      exact hrs.written d c hw
    case adopting =>
      intro _ hn
      cases hn
  case docs =>
    intro d
    have hd := h.docs d
    by_cases hne : d ≠ row.docId
    · refine hd.still (still_folded hr (by rw [hreg, if_neg hne]) hlib hedits
        (by rw [htouched, if_neg hne]) hhome hpend hrun (fun _ hmem _ => hmem) rfl rfl ?_)
      intro row1 hm
      rw [hfold]
      exact mem_cons_of_mem _ hm
    · obtain rfl : d = row.docId := not_not.mp hne
      obtain ⟨hidle, hout⟩ := hd.idle hnone
      have hself : s'.registry.lookup row.docId = if made then some (adoptedEntry row) else none :=
        by rw [hreg, if_pos rfl]
      cases made with
      | false =>
        refine DocSound.absent ?_ hself (by rw [hedits]; exact hidle) (by rw [hhome]; exact hout)
        rw [hlib]
        exact hd.whole
      | true =>
        have hself' : s'.registry.lookup row.docId = some (adoptedEntry row) := hself
        refine Shown.docSound ?shown hself' rfl (by rw [hlib]; exact hd.whole)
          (by rw [hedits]; exact fun op x hx hxd => absurd hxd (hidle op x hx))
          (by rw [hedits]; exact fun op _ x _ hx _ hxd => absurd hxd (hidle op x hx))
          (by rw [hhome]; exact fun hin => absurd hin hout)
        constructor <;> rw [hlib]
        case tombs =>
          intro hsome
          cases hsome
        case intents =>
          intro hsome row'' hrow''
          rw [hrow'] at hrow''
          cases hrow''
          exact .inl (hint hsome)
        intro row'' hrow'' c
        rw [hrow'] at hrow''
        cases hrow''
        rcases hsame c with hs | hw | hm
        · exact .inl (agrees_adopted hlive hs)
        · exact absurd hnone (hrs.written _ c hw)
        · refine .inr (.inr (.inl ?_))
          rw [hpend]
          exact hrs.merged (ne_nil_of_mem hm)

/-! ## Every run -/

theorem Sound.next {e : CatalogEvent} (h : s.Sound) (hok : s.Orderly e)
    (hs : s.next self e = some s') : s'.Sound := by
  cases e with
  | edit d e => exact h.edit hok hs
  | persisted op => exact h.persisted hs
  | failed op => exact h.failed hok hs
  | written op => exact h.written hs
  | refused op => exact hok.elim
  | merge d f => exact h.merge hok hs
  | start => exact h.start hs
  | seed reached => exact h.seed hok hs
  | fold syncs => exact h.fold hok hs
  | adopt made => exact h.adopt hs
  | finish => exact h.finish hs

theorem sound_boot (c : Catalog) : (boot c).Sound := by
  have hedits : ∀ op x, (boot c).edits.lookup op ≠ some x := by
    intro op x hx
    rw [boot, lookup_empty] at hx
    cases hx
  constructor
  case begun => exact fun op x hx => absurd hx (hedits op x)
  case run =>
    intro r hr
    cases hr
  case docs =>
    intro d
    constructor
    case whole => exact c.whole d
    case keyed => exact c.keyed d
    case held => exact fun op x hx => absurd hx (hedits op x)
    case apart => exact fun op _ x _ hx => absurd hx (hedits op x)
    case holds => exact fun op x _ hx => absurd hx (hedits op x)
    case tombs => exact fun e he hsome => .inl (c.tombstones d e he hsome)
    case intents => exact fun e row he hrow hsome => .inl (c.intents d e row he hrow hsome)
    case agree => exact fun _ _ _ _ _ => .inr (.inr (.inl Nat.one_pos))
    case found => exact fun op x hx => absurd hx (hedits op x)
    case home =>
      intro hin
      cases hin

/-- While no edit overlaps another of its column and no row is folded over what an edit set
since it was read, registry and library agree once everything has run, and a canvas kept
home stays local. -/
theorem reconcile_keeps_edits {self : Option String} {c : Catalog} {s : CatalogState}
    (h : (catalogMachine self c).Reaches Orderly s) : (s.Quiet → s.Agreed) ∧ s.KeptHome := by
  have hs : s.Sound := h.invariant (sound_boot c) fun _ _ _ hs hok hnext => hs.next hok hnext
  constructor
  · rintro ⟨hedits, hpend, hrun⟩ d e row he hrow col
    rcases (hs.docs d).agree e row he hrow col with ha | ⟨op, x, hx, -⟩ | hp | ⟨r, _, _, hr, -⟩
    · exact ha
    · rw [hedits op] at hx
      cases hx
    · omega
    · rw [hrun] at hr
      cases hr
  · intro d hin e he
    obtain ⟨⟨e', he', hlocal⟩, -⟩ := (hs.docs d).home hin
    rw [he] at he'
    cases he'
    exact hlocal

/-! ## Runs -/

/-- One canvas that syncs, listed in the library. -/
def oneListed : Catalog where
  registry := Dict.insert ∅ "d" { createdEntry "d" "b" 1 with syncIntent := some .sync }
  library := Dict.insert ∅ "d"
    { names := some "b", created := some 1, intents := some .sync, schemas := some none,
      epochs := some 0 }
  keyed := by
    intro d e he
    rw [Dict.lookup_insert] at he
    split at he
    · next hd =>
      cases he
      exact hd.symm
    · cases he
  intents := by
    intro d e row _ hrow _
    obtain ⟨hl, rfl⟩ := Library.get_eq_some hrow
    rw [Library.fields_insert] at hl ⊢
    by_cases hd : d = "d"
    · rw [if_pos hd]
      rfl
    · rw [if_neg hd] at hl
      cases hl
  tombstones := by
    intro d e he hsome
    rw [Dict.lookup_insert] at he
    split at he
    · cases he
      cases hsome
    · cases he
  whole := by
    intro d hl
    rw [Library.fields_insert] at hl ⊢
    by_cases hd : d = "d"
    · rw [if_pos hd] at hl
      cases hl
    · rw [if_neg hd]
      exact ⟨rfl, rfl⟩

def compacted : LibraryFields :=
  { names := some "b", created := some 1, intents := some .sync, schemas := some none,
    epochs := some 1 }

def staleRow : List CatalogEvent :=
  [.start, .fold true, .finish, .edit "d" (.setSyncIntent .localOnly), .persisted 4,
    .merge "d" compacted, .start, .fold true, .finish, .written 4]

def leaks (s : CatalogState) : Bool :=
  s.edits.keys.isEmpty && s.pending == 0 && s.run.isNone && s.home.contains "d" &&
    (s.registry.lookup "d").any (fun e => e.deletedAt.isNone && e.syncIntent == some .sync) &&
    (s.library.get "d").any (fun row => row.syncIntent == some .localOnly)

theorem lookup_of_keys_empty {α : Type} {t : Dict Nat α} (h : t.keys.isEmpty = true) (k : Nat) :
    t.lookup k = none := by
  cases hv : t.lookup k with
  | none => rfl
  | some v =>
    have hmem : k ∈ t.keys := Dict.mem_keys.mpr ⟨v, hv⟩
    rw [List.isEmpty_iff.mp h] at hmem
    cases hmem

/-- A reconcile triggered while the intent is on its way to the library takes it back, and
nothing brings it again. -/
theorem reconcile_reverts_edit : ∃ s, (catalogMachine none oneListed).Reachable s ∧
    (s.Quiet ∧ ¬s.Agreed) ∧ ¬s.KeptHome := by
  obtain ⟨s, hs, hp⟩ := Machine.exists_of_run (M := catalogMachine none oneListed) leaks staleRow
    (by decide)
  rw [leaks] at hp
  simp only [Bool.and_eq_true] at hp
  obtain ⟨⟨⟨⟨⟨hedits, hpend⟩, hrun⟩, hhome⟩, hreg⟩, hlib⟩ := hp
  obtain ⟨e, he, hesync⟩ := (Option.any_eq_true _ _).mp hreg
  obtain ⟨row, hrow, hlocal⟩ := (Option.any_eq_true _ _).mp hlib
  obtain ⟨hlive, hsync⟩ := Bool.and_eq_true_iff.mp hesync
  have hdiff : e.syncIntent ≠ some .localOnly := by
    rw [beq_iff_eq.mp hsync]
    decide
  refine ⟨s, hs, ⟨⟨lookup_of_keys_empty hedits, beq_iff_eq.mp hpend,
    Option.isNone_iff_eq_none.mp hrun⟩, fun h => ?_⟩, fun h => ?_⟩
  · have ha : e.deletedAt = none → e.syncIntent = row.syncIntent := h "d" e row he hrow .syncIntent
    exact hdiff ((ha (Option.isNone_iff_eq_none.mp hlive)).trans (beq_iff_eq.mp hlocal))
  · exact hdiff (h "d" (by simpa using hhome) e he)

def oneAtATime (s : CatalogState) : CatalogEvent → Bool
  | .edit d _ => (s.library.get d).isSome && s.edits.keys.isEmpty
  | .merge d f => f.listed && (s.library.get d).isSome
  | .fold _ => s.edits.keys.isEmpty && s.run.all fun r => r.written.isEmpty
  | .failed _ | .refused _ | .seed _ => false
  | .persisted _ | .written _ | .start | .adopt _ | .finish => true

theorem not_busy_of_keys_empty (h : s.edits.keys.isEmpty = true) (d : DocId) (c : Shared) :
    ¬s.Busy d c := by
  rintro ⟨op, x, hx, -⟩
  rw [lookup_of_keys_empty h op] at hx
  cases hx

theorem orderly_of_oneAtATime (s : CatalogState) (e : CatalogEvent)
    (h : s.oneAtATime e = true) : s.Orderly e := by
  cases e with
  | edit d e =>
    obtain ⟨hl, hk⟩ := Bool.and_eq_true_iff.mp h
    exact ⟨isSome_iff_ne_none.mp hl, not_busy_of_keys_empty hk d _⟩
  | merge d f =>
    obtain ⟨hf, hl⟩ := Bool.and_eq_true_iff.mp h
    refine ⟨fun hn => ?_, fun hn => absurd hn (isSome_iff_ne_none.mp hl)⟩
    rw [hf] at hn
    cases hn
  | fold syncs =>
    obtain ⟨hk, hw⟩ := Bool.and_eq_true_iff.mp h
    intro r row rest patch hr _ _ c _
    rw [hr] at hw
    have hnil : r.written = [] := List.isEmpty_iff.mp hw
    refine ⟨not_busy_of_keys_empty hk _ _, ?_⟩
    rw [hnil]
    exact not_mem_nil
  | failed op => cases h
  | refused op => cases h
  | seed reached => cases h
  | persisted op => trivial
  | written op => trivial
  | start => trivial
  | adopt made => trivial
  | finish => trivial

/-- The same events with the reconcile after the intent has reached the library. -/
theorem reconcile_keeps_edits_apart : ∃ s : CatalogState,
    ((s.Quiet → s.Agreed) ∧ s.KeptHome) ∧ s.edits.keys.isEmpty = true ∧ s.pending = 0 ∧
      s.home = ["d"] := by
  obtain ⟨s, hs, hp⟩ := Machine.exists_of_keeping_run (M := catalogMachine none oneListed)
    orderly_of_oneAtATime
    (fun s => s.edits.keys.isEmpty && s.pending == 0 && s.home == ["d"])
    [.start, .fold true, .finish, .edit "d" (.setSyncIntent .localOnly), .persisted 4,
      .merge "d" compacted, .written 4, .start, .fold true, .finish] (by decide)
  simp only [Bool.and_eq_true, beq_iff_eq] at hp
  exact ⟨s, reconcile_keeps_edits hs, hp.1.1, hp.1.2, hp.2⟩

end CatalogState

end VibeField.Fieldd
