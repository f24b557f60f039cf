import VibeField.Fieldd.Registry

/-!
# The library of canvases

The library is one map for each field, keyed by canvas, so that two desktops' edits merge
field by field.  A canvas has a row once its name or its creation is there.  Nothing ever
takes a name, an intent or a tombstone out again, on this desktop or another.
-/

namespace VibeField.Fieldd

open List

/-- What the maps hold for one canvas. -/
structure LibraryFields where
  names : Option String := none
  created : Option Int := none
  tombstones : Option Int := none
  intents : Option DocSyncIntent := none
  homes : Option String := none
  schemas : Option (Option Int) := none
  epochs : Option Int := none
  deriving DecidableEq, Repr

abbrev Library := Dict DocId LibraryFields

namespace LibraryFields

def listed (f : LibraryFields) : Bool := f.names.isSome || f.created.isSome

def row (f : LibraryFields) (docId : DocId) : DocLibraryEntry :=
  { docId := docId, name := f.names.getD "", createdAt := f.created.getD 0,
    tombstone := f.tombstones, syncIntent := f.intents, home := f.homes,
    engineSchema := f.schemas.getD none, baseEpoch := f.epochs.getD 0 }

def read (f : LibraryFields) (docId : DocId) : Option DocLibraryEntry :=
  if f.listed then some (f.row docId) else none

/-- What a merge may make of the fields: it takes nothing out but a home. -/
def MergesInto (f g : LibraryFields) : Prop :=
  (f.names.isSome → g.names.isSome) ∧ (f.created.isSome → g.created.isSome) ∧
    (f.tombstones.isSome → g.tombstones.isSome) ∧ (f.intents.isSome → g.intents.isSome)

/-- An intent and a tombstone are of a listed canvas. -/
def Whole (f : LibraryFields) : Prop :=
  f.listed = false → f.intents = none ∧ f.tombstones = none

instance (f g : LibraryFields) : Decidable (f.MergesInto g) :=
  inferInstanceAs (Decidable (_ ∧ _ ∧ _ ∧ _))

end LibraryFields

namespace Library

def fields (l : Library) (d : DocId) : LibraryFields := (l.lookup d).getD {}

def get (l : Library) (d : DocId) : Option DocLibraryEntry := (fields l d).read d

def read (e : Sigma fun _ : DocId => LibraryFields) : Option DocLibraryEntry := e.2.read e.1

def entries (l : Library) : List DocLibraryEntry := l.alist.entries.filterMap read

def write (l : Library) (d : DocId) (f : LibraryFields → LibraryFields) : Library :=
  l.insert d (f (fields l d))

end Library

def seedFields (self : Option String) (entry : DocRegistryEntry) (f : LibraryFields) :
    LibraryFields :=
  { f with
    names := some entry.name
    created := some (entry.createdAt.getD entry.updatedAt)
    schemas := some entry.engineSchema
    epochs := some entry.baseEpoch
    intents := entry.syncIntent.or f.intents
    homes := if entry.syncIntent = some .localOnly then self.or f.homes else f.homes }

def Edit.fields (self : Option String) (f : LibraryFields) : Edit → LibraryFields
  | .rename name => { f with names := some name }
  | .delete deletedAt => { f with tombstones := some deletedAt }
  | .setSyncIntent intent =>
    { f with intents := some intent, homes := if intent = .localOnly then self else none }

/-! ## What a write leaves to read -/

namespace Library

theorem fields_insert (l : Library) (d d' : DocId) (f : LibraryFields) :
    fields (l.insert d f) d' = if d' = d then f else fields l d' := by
  rw [fields, Dict.lookup_insert]
  by_cases h : d' = d
  · rw [if_pos h, if_pos h]
    rfl
  · rw [if_neg h, if_neg h]
    rfl

theorem get_insert_self (l : Library) (d : DocId) (f : LibraryFields) :
    get (l.insert d f) d = f.read d := by
  rw [get, fields_insert, if_pos rfl]

theorem get_insert_ne (l : Library) {d d' : DocId} (h : d' ≠ d) (f : LibraryFields) :
    get (l.insert d f) d' = get l d' := by
  rw [get, fields_insert, if_neg h]
  rfl

variable {row : DocLibraryEntry}

theorem get_eq_some {l : Library} {d : DocId} (h : get l d = some row) :
    (fields l d).listed = true ∧ row = (fields l d).row d := by
  rw [get, LibraryFields.read] at h
  by_cases hl : (fields l d).listed = true
  · rw [if_pos hl] at h
    cases h
    exact ⟨hl, rfl⟩
  · rw [if_neg hl] at h
    cases h

theorem docId_of_get {l : Library} {d : DocId} (h : get l d = some row) :
    row.docId = d := by
  rw [(get_eq_some h).2]
  rfl

theorem read_of_listed {f : LibraryFields} (h : f.listed = true) (d : DocId) :
    f.read d = some (f.row d) := by
  rw [LibraryFields.read, if_pos h]

theorem mem_entries {l : Library} :
    row ∈ entries l ↔ get l row.docId = some row := by
  rw [entries, mem_filterMap]
  constructor
  · rintro ⟨⟨d, f⟩, hmem, hread⟩
    have hlook : l.lookup d = some f := Dict.mem_entries_iff.mp hmem
    have hfields : fields l d = f := by
      rw [fields, hlook]
      rfl
    have hget : get l d = some row := by
      rw [get, hfields]
      exact hread
    rw [docId_of_get hget]
    exact hget
  · intro h
    cases hlook : l.lookup row.docId with
    | none =>
      rw [get, fields, hlook] at h
      cases h
    | some f =>
      refine ⟨⟨row.docId, f⟩, Dict.mem_entries_iff.mpr hlook, ?_⟩
      rw [get, fields, hlook] at h
      exact h

theorem nodup_entries (l : Library) : ((entries l).map (·.docId)).Nodup := by
  have hsub : ((entries l).map (·.docId)).Sublist l.alist.keys := by
    show ((l.alist.entries.filterMap read).map (·.docId)).Sublist
      (l.alist.entries.map (·.1))
    generalize l.alist.entries = es
    induction es with
    | nil => exact List.Sublist.slnil
    | cons e rest ih =>
      cases hread : read e with
      | none =>
        rw [filterMap_cons_none (f := read) hread, map_cons]
        exact ih.cons e.1
      | some row =>
        have hid : row.docId = e.1 := by
          rw [read, LibraryFields.read] at hread
          split at hread
          · cases hread
            rfl
          · cases hread
        rw [filterMap_cons_some (f := read) hread, map_cons, map_cons, hid]
        exact ih.cons_cons e.1
  exact l.alist.keys_nodup.sublist hsub

end Library

theorem listed_edit (self : Option String) {f : LibraryFields} (h : f.listed = true) (e : Edit) :
    (e.fields self f).listed = true := by
  cases e with
  | rename name => rfl
  | delete deletedAt => exact h
  | setSyncIntent intent => exact h

theorem listed_merge {f g : LibraryFields} (hm : f.MergesInto g) (h : f.listed = true) :
    g.listed = true := by
  obtain ⟨hn, hc, -, -⟩ := hm
  rw [LibraryFields.listed, Bool.or_eq_true] at h ⊢
  exact h.imp hn hc

end VibeField.Fieldd
