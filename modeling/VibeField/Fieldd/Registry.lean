import VibeField.Base.Dict

/-!
# The registry of canvases

One entry for each canvas this device knows.  Every operation on an entry is a spread:
the entry as it is, and over it the columns the operation states.  The name, the tombstone
and the intent belong to the catalog; the other columns follow from the stored revision,
which is why a document commit writes only those back.
-/

namespace VibeField.Fieldd

abbrev DocId := String

inductive DocSyncIntent where
  | sync
  | localOnly
  deriving DecidableEq, Repr

structure DocRegistryEntry where
  docId : DocId
  name : String
  updatedAt : Int
  baseEpoch : Int
  engineSchema : Option Int
  sizeBytes : Int
  deletedAt : Option Int := none
  system : Option Bool := none
  syncIntent : Option DocSyncIntent := none
  createdAt : Option Int := none
  deriving DecidableEq, Repr

abbrev Registry := Dict DocId DocRegistryEntry

/-! ## Columns -/

inductive Column where
  | name
  | updatedAt
  | baseEpoch
  | engineSchema
  | sizeBytes
  | deletedAt
  | system
  | syncIntent
  | createdAt
  deriving DecidableEq, Repr

def Column.all : List Column :=
  [.name, .updatedAt, .baseEpoch, .engineSchema, .sizeBytes, .deletedAt, .system, .syncIntent,
    .createdAt]

theorem Column.mem_all (c : Column) : c ∈ Column.all := by
  cases c <;> decide

inductive Value where
  | text (s : String)
  | number (n : Option Int)
  | flag (b : Option Bool)
  | intent (i : Option DocSyncIntent)
  deriving DecidableEq, Repr

def DocRegistryEntry.column (e : DocRegistryEntry) : Column → Value
  | .name => .text e.name
  | .updatedAt => .number (some e.updatedAt)
  | .baseEpoch => .number (some e.baseEpoch)
  | .engineSchema => .number e.engineSchema
  | .sizeBytes => .number (some e.sizeBytes)
  | .deletedAt => .number e.deletedAt
  | .system => .flag e.system
  | .syncIntent => .intent e.syncIntent
  | .createdAt => .number e.createdAt

def Registry.cell (r : Registry) (d : DocId) (c : Column) : Option Value :=
  (r.lookup d).map fun e => e.column c

theorem Registry.cell_insert (r : Registry) (d d' : DocId) (e : DocRegistryEntry) (c : Column) :
    Registry.cell (r.insert d e) d' c = if d' = d then some (e.column c) else r.cell d' c := by
  rw [Registry.cell, Dict.lookup_insert]
  by_cases h : d' = d
  · rw [if_pos h, if_pos h]
    rfl
  · rw [if_neg h, if_neg h]
    rfl

theorem Registry.cell_erase (r : Registry) (d d' : DocId) (c : Column) :
    Registry.cell (r.erase d) d' c = if d' = d then none else r.cell d' c := by
  rw [Registry.cell, Dict.lookup_erase]
  by_cases h : d' = d
  · rw [if_pos h, if_pos h]
    rfl
  · rw [if_neg h, if_neg h]
    rfl

/-! ## Spreads -/

/-- The columns an operation states. -/
structure Patch where
  name : Option String := none
  updatedAt : Option Int := none
  baseEpoch : Option Int := none
  engineSchema : Option (Option Int) := none
  sizeBytes : Option Int := none
  deletedAt : Option Int := none
  syncIntent : Option DocSyncIntent := none
  deriving DecidableEq, Repr

def DocRegistryEntry.spread (e : DocRegistryEntry) (p : Patch) : DocRegistryEntry :=
  { e with
    name := p.name.getD e.name
    updatedAt := p.updatedAt.getD e.updatedAt
    baseEpoch := p.baseEpoch.getD e.baseEpoch
    engineSchema := p.engineSchema.getD e.engineSchema
    sizeBytes := p.sizeBytes.getD e.sizeBytes
    deletedAt := p.deletedAt.or e.deletedAt
    syncIntent := p.syncIntent.or e.syncIntent }

def Patch.column (p : Patch) : Column → Option Value
  | .name => p.name.map .text
  | .updatedAt => p.updatedAt.map fun n => .number (some n)
  | .baseEpoch => p.baseEpoch.map fun n => .number (some n)
  | .engineSchema => p.engineSchema.map .number
  | .sizeBytes => p.sizeBytes.map fun n => .number (some n)
  | .deletedAt => p.deletedAt.map fun n => .number (some n)
  | .system => none
  | .syncIntent => p.syncIntent.map fun i => .intent (some i)
  | .createdAt => none

theorem DocRegistryEntry.column_spread (e : DocRegistryEntry) (p : Patch) (c : Column) :
    (e.spread p).column c = (p.column c).getD (e.column c) := by
  cases c with
  | name => cases h : p.name <;> simp [column, spread, Patch.column, h]
  | updatedAt => cases h : p.updatedAt <;> simp [column, spread, Patch.column, h]
  | baseEpoch => cases h : p.baseEpoch <;> simp [column, spread, Patch.column, h]
  | engineSchema => cases h : p.engineSchema <;> simp [column, spread, Patch.column, h]
  | sizeBytes => cases h : p.sizeBytes <;> simp [column, spread, Patch.column, h]
  | deletedAt => cases h : p.deletedAt <;> simp [column, spread, Patch.column, h]
  | system => rfl
  | syncIntent => cases h : p.syncIntent <;> simp [column, spread, Patch.column, h]
  | createdAt => rfl

/-! ## The operations of the catalog -/

def createdEntry (docId : DocId) (name : String) (createdAt : Int) : DocRegistryEntry :=
  { docId := docId, name := name, updatedAt := createdAt, baseEpoch := 0, engineSchema := none,
    sizeBytes := 0, createdAt := some createdAt }

/-- The three edits of an entry. -/
inductive Edit where
  | rename (name : String)
  | delete (deletedAt : Int)
  | setSyncIntent (intent : DocSyncIntent)
  deriving DecidableEq, Repr

def Edit.patch : Edit → Patch
  | .rename name => { name := some name }
  | .delete deletedAt => { deletedAt := some deletedAt }
  | .setSyncIntent intent => { syncIntent := some intent }

def Edit.finds (e : DocRegistryEntry) : Edit → Bool
  | .delete _ => e.deletedAt.isNone
  | _ => true

/-- What a document write states once its revision is committed. -/
inductive Commit where
  | content (updatedAt : Int) (engineSchema : Option Int) (sizeBytes : Int)
  | compaction (baseEpoch sizeBytes : Int)
  | rebootstrap (updatedAt : Int) (engineSchema : Option Int) (sizeBytes baseEpoch : Int)
  deriving DecidableEq, Repr

def Commit.patch : Commit → Patch
  | .content updatedAt engineSchema sizeBytes =>
    { updatedAt := some updatedAt, engineSchema := some engineSchema,
      sizeBytes := some sizeBytes }
  | .compaction baseEpoch sizeBytes =>
    { baseEpoch := some baseEpoch, sizeBytes := some sizeBytes }
  | .rebootstrap updatedAt engineSchema sizeBytes baseEpoch =>
    { updatedAt := some updatedAt, engineSchema := some engineSchema,
      sizeBytes := some sizeBytes, baseEpoch := some baseEpoch }

def Registry.commitRegistryColumns (r : Registry) (d : DocId) (captured : DocRegistryEntry)
    (columns : Patch) : Registry :=
  r.insert d (((r.lookup d).getD captured).spread columns)

/-! ## The library's rows -/

structure DocLibraryEntry where
  docId : DocId
  name : String
  createdAt : Int
  tombstone : Option Int := none
  syncIntent : Option DocSyncIntent := none
  home : Option String := none
  engineSchema : Option Int
  baseEpoch : Int
  deriving DecidableEq, Repr

def adoptedEntry (row : DocLibraryEntry) : DocRegistryEntry :=
  { docId := row.docId, name := row.name, updatedAt := row.createdAt, baseEpoch := row.baseEpoch,
    engineSchema := row.engineSchema, sizeBytes := 0, createdAt := some row.createdAt,
    syncIntent := row.syncIntent }

/-- What a reconcile does with one row of the library. -/
inductive RowFold where
  /-- nothing here differs from the row -/
  | leave
  /-- an entry is missing and the row's canvas is to be held -/
  | adopt
  | change (patch : Patch)
  deriving DecidableEq, Repr

/-- One row against the entry of its canvas; `syncs` is the intent it resolves to.  Of the
name and the intent it restates the ones that differ. -/
def foldRow (syncs : Bool) (row : DocLibraryEntry) : Option DocRegistryEntry → RowFold
  | none => if row.tombstone.isNone && syncs then .adopt else .leave
  | some entry =>
    match row.tombstone with
    | some tombstone =>
      if entry.deletedAt.isNone then .change { deletedAt := some tombstone } else .leave
    | none =>
      if entry.deletedAt.isSome then .leave
      else
        let syncIntent := row.syncIntent.or entry.syncIntent
        if row.name ≠ entry.name ∨ syncIntent ≠ entry.syncIntent then
          .change
            { name := if row.name ≠ entry.name then some row.name else none,
              syncIntent := if syncIntent ≠ entry.syncIntent then syncIntent else none }
        else .leave

end VibeField.Fieldd
