import VibeField.Base.Machine
import VibeField.Base.Shelf
import VibeField.Fieldd.Registry

/-!
# The registry file

Every operation of the document service changes the registry in memory at once and then
waits for a write of the whole registry.  The image it writes is the registry as it was
when the write started, so an image holds what the operations before it set.  Writes of
several operations are under way at once; each ends with a rename, which may come in any
order, and fails before it or after it.

An operation whose write fails takes its change back: it puts the whole entry back as it
found it, or removes the entry it made.  A document commit and a reconcile take nothing
back.

`marks` follows, for every canvas and column, the operation that set it last.
-/

namespace VibeField.Fieldd

open Option Dict

/-- How an operation takes its change back when its write fails. -/
inductive Undo where
  | keep
  | remove (docId : DocId)
  | restore (docId : DocId) (entry : DocRegistryEntry)
  deriving DecidableEq, Repr

/-- An operation that has not returned. -/
structure Running where
  undo : Undo := .keep
  /-- the entry a document write captured before its I/O -/
  captured : Option (DocId × DocRegistryEntry) := none
  /-- the row whose directory a reconcile is making -/
  adopting : Option DocLibraryEntry := none
  /-- the number of its image, once its write has started -/
  ticket : Option Nat := none
  deriving DecidableEq, Repr

inductive Outcome where
  | succeeded (ticket : Nat)
  | failed
  deriving DecidableEq, Repr

/-- The operation that set a column, the value it set and when. -/
structure Mark where
  op : Nat
  value : Option Value
  stamp : Nat
  deriving DecidableEq, Repr

/-- Operations are named by the time they began at. -/
structure RegistryState where
  registry : Registry
  shelf : Shelf Registry
  clock : Nat
  running : Dict Nat Running
  outcomes : Dict Nat Outcome
  marks : DocId → Column → Option Mark

namespace RegistryState

def boot (r : Registry) : RegistryState :=
  { registry := r, shelf := Shelf.start r, clock := 0, running := ∅, outcomes := ∅,
    marks := fun _ _ => none }

def set (s : RegistryState) (op : Nat) (r : Registry) (d : DocId) (columns : List Column) :
    RegistryState :=
  { s with
    registry := r
    marks := fun d' c =>
      if d' = d ∧ c ∈ columns then some { op := op, value := r.cell d c, stamp := s.clock }
      else s.marks d' c }

def persist (s : RegistryState) (op : Nat) (x : Running) : RegistryState :=
  { s with
    shelf := s.shelf.take s.registry
    running := s.running.insert op { x with ticket := some s.shelf.next } }

def begin (s : RegistryState) (x : Running) : RegistryState :=
  { s with running := s.running.insert s.clock x }

def tick (s : RegistryState) : RegistryState := { s with clock := s.clock + 1 }

def finish (s : RegistryState) (op : Nat) (o : Outcome) : RegistryState :=
  { s with running := s.running.erase op, outcomes := s.outcomes.insert op o }

end RegistryState

def Patch.columns (p : Patch) : List Column :=
  Column.all.filter fun c => (p.column c).isSome

open RegistryState in
def RegistryState.edit (s : RegistryState) (d : DocId) (e : Edit) : Option RegistryState :=
  match s.registry.lookup d with
  | none => none
  | some entry =>
    if e.finds entry then
      let next := entry.spread e.patch
      some (((s.set s.clock (s.registry.insert d next) d e.patch.columns).persist s.clock
        { undo := .restore d entry }).tick)
    else none

def RegistryState.create (s : RegistryState) (d : DocId) (name : String) (createdAt : Int) :
    RegistryState :=
  let entry := createdEntry d name createdAt
  ((s.set s.clock (s.registry.insert d entry) d Column.all).persist s.clock
    { undo := .remove d }).tick

def RegistryState.capture (s : RegistryState) (d : DocId) : Option RegistryState :=
  (s.registry.lookup d).map fun entry =>
    (s.begin { captured := some (d, entry) }).tick

def RegistryState.bootstrap (s : RegistryState) (d : DocId) (baseEpoch : Int) :
    Option RegistryState :=
  match s.registry.lookup d with
  | none => none
  | some entry =>
    if entry.baseEpoch < baseEpoch then
      let next := entry.spread { baseEpoch := some baseEpoch }
      some (((s.set s.clock (s.registry.insert d next) d [.baseEpoch]).begin
        { captured := some (d, next) }).tick)
    else none

def RegistryState.commit (s : RegistryState) (op : Nat) (c : Commit) : Option RegistryState :=
  match s.running.lookup op with
  | some { captured := some (d, entry), ticket := none, undo := undo, adopting := adopting } =>
    some (((s.set op (s.registry.commitRegistryColumns d entry c.patch) d
      c.patch.columns).persist op
        { captured := some (d, entry), undo := undo, adopting := adopting }).tick)
  | _ => none

def RegistryState.fold (s : RegistryState) (op : Nat) (syncs : Bool) (row : DocLibraryEntry) :
    Option RegistryState :=
  match s.running.lookup op with
  | some { captured := none, ticket := none, adopting := none, undo := .keep } =>
    match foldRow syncs row (s.registry.lookup row.docId) with
    | .leave => some s.tick
    | .adopt => some ({ s with running := s.running.insert op { adopting := some row } }.tick)
    | .change patch =>
      (s.registry.lookup row.docId).map fun entry =>
        (s.set op (s.registry.insert row.docId (entry.spread patch)) row.docId patch.columns).tick
  | _ => none

def RegistryState.adopt (s : RegistryState) (op : Nat) (made : Bool) : Option RegistryState :=
  match s.running.lookup op with
  | some { captured := none, ticket := none, adopting := some row, undo := .keep } =>
    let s := { s with running := s.running.insert op {} }
    if made then
      some ((s.set op (s.registry.insert row.docId (adoptedEntry row)) row.docId
        Column.all).tick)
    else some s.tick
  | _ => none

def RegistryState.persistFolded (s : RegistryState) (op : Nat) : Option RegistryState :=
  match s.running.lookup op with
  | some { captured := none, ticket := none, adopting := none, undo := .keep } =>
    some ((s.persist op {}).tick)
  | _ => none

def RegistryState.land (s : RegistryState) (op : Nat) : Option RegistryState :=
  ((s.running.lookup op).bind (·.ticket)).bind fun t =>
    (s.shelf.land t).map fun shelf => { s with shelf := shelf }.tick

def RegistryState.succeed (s : RegistryState) (op : Nat) : Option RegistryState :=
  ((s.running.lookup op).bind (·.ticket)).bind fun t =>
    if (s.shelf.flights.lookup t).isNone then some ((s.finish op (.succeeded t)).tick)
    else none

def RegistryState.rollback (s : RegistryState) (op : Nat) : Undo → RegistryState
  | .keep => s
  | .remove d => s.set op (s.registry.erase d) d Column.all
  | .restore d entry =>
    s.set op (s.registry.insert d entry) d
      (Column.all.filter fun c => (s.marks d c).any fun m => m.op = op)

def RegistryState.fail (s : RegistryState) (op : Nat) : Option RegistryState :=
  (s.running.lookup op).bind fun x =>
    x.ticket.map fun t =>
      ((({ s with shelf := s.shelf.drop t } : RegistryState).rollback op x.undo).finish op
        .failed).tick

def RegistryState.abandon (s : RegistryState) (op : Nat) : Option RegistryState :=
  (s.running.lookup op).bind fun x =>
    if x.ticket.isNone then some ((s.finish op .failed).tick) else none

inductive RegistryEvent where
  | create (d : DocId) (name : String) (createdAt : Int)
  | edit (d : DocId) (e : Edit)
  | capture (d : DocId)
  | bootstrap (d : DocId) (baseEpoch : Int)
  | commit (op : Nat) (c : Commit)
  | reconcile
  | fold (op : Nat) (syncs : Bool) (row : DocLibraryEntry)
  | adopt (op : Nat) (made : Bool)
  | persistFolded (op : Nat)
  | land (op : Nat)
  | succeed (op : Nat)
  | fail (op : Nat)
  | abandon (op : Nat)
  deriving DecidableEq, Repr

def RegistryState.next (s : RegistryState) : RegistryEvent → Option RegistryState
  | .create d name createdAt => some (s.create d name createdAt)
  | .edit d e => s.edit d e
  | .capture d => s.capture d
  | .bootstrap d baseEpoch => s.bootstrap d baseEpoch
  | .commit op c => s.commit op c
  | .reconcile => some ((s.begin {}).tick)
  | .fold op syncs row => s.fold op syncs row
  | .adopt op made => s.adopt op made
  | .persistFolded op => s.persistFolded op
  | .land op => s.land op
  | .succeed op => s.succeed op
  | .fail op => s.fail op
  | .abandon op => s.abandon op

def registryMachine (r : Registry) : Machine RegistryState RegistryEvent where
  start := .boot r
  next := RegistryState.next

/-! ## What is wanted of the registry -/

namespace RegistryState

/-- A column whose last setter has succeeded holds in the file what that operation set. -/
def Durable (s : RegistryState) : Prop :=
  ∀ d c m t, s.marks d c = some m → s.outcomes.lookup m.op = some (.succeeded t) →
    s.shelf.file.cell d c = m.value

/-- A column whose last setter has not failed holds in memory what that operation set. -/
def Standing (s : RegistryState) : Prop :=
  ∀ d c m, s.marks d c = some m → s.outcomes.lookup m.op ≠ some .failed →
    s.registry.cell d c = m.value

/-- Nobody else has set a column of `d` since `op` began. -/
def Untouched (s : RegistryState) (op : Nat) (d : DocId) : Prop :=
  ∀ c ∈ Column.all, ∀ m ∈ s.marks d c, m.op = op ∨ m.stamp < op

instance (s : RegistryState) (op : Nat) (d : DocId) : Decidable (s.Untouched op d) :=
  inferInstanceAs (Decidable (∀ c ∈ Column.all, ∀ m ∈ s.marks d c, m.op = op ∨ m.stamp < op))

def AsLeft (s : RegistryState) (op : Nat) : Undo → Prop
  | .keep => True
  | .remove d => s.Untouched op d
  | .restore d _ => s.Untouched op d

instance (s : RegistryState) (op : Nat) : (u : Undo) → Decidable (s.AsLeft op u)
  | .keep => inferInstanceAs (Decidable True)
  | .remove d => inferInstanceAs (Decidable (s.Untouched op d))
  | .restore d _ => inferInstanceAs (Decidable (s.Untouched op d))

def Orderly (s : RegistryState) : RegistryEvent → Prop
  | .land op => ∀ t ∈ (s.running.lookup op).bind (·.ticket), s.shelf.newest < t
  | .fail op => ∀ x ∈ s.running.lookup op, s.AsLeft op x.undo
  | _ => True

instance (s : RegistryState) : (e : RegistryEvent) → Decidable (s.Orderly e)
  | .land op => inferInstanceAs
      (Decidable (∀ t ∈ (s.running.lookup op).bind (·.ticket), s.shelf.newest < t))
  | .fail op => inferInstanceAs
      (Decidable (∀ x ∈ s.running.lookup op, s.AsLeft op x.undo))
  | .create .. | .edit .. | .capture .. | .bootstrap .. | .commit .. | .reconcile | .fold ..
  | .adopt .. | .persistFolded .. | .succeed .. | .abandon .. => inferInstanceAs (Decidable True)

/-- A failing write takes back nothing but columns its own operation set last. -/
def OwnRollback (s : RegistryState) : Prop :=
  ∀ op s', s.Orderly (.fail op) → s.fail op = some s' →
    ∀ d c, (∀ m, s.marks d c = some m → m.op ≠ op) →
      s'.registry.cell d c = s.registry.cell d c

def ticketOf (s : RegistryState) (op : Nat) : Option Nat :=
  ((s.running.lookup op).bind (·.ticket)).or
    ((s.outcomes.lookup op).bind fun
      | .succeeded t => some t
      | .failed => none)

/-- What every run keeps; the operations so far are named below `n`. -/
structure Sound (n : Nat) (s : RegistryState) : Prop where
  numbered : s.shelf.Numbered
  begun : ∀ op x, s.running.lookup op = some x → op < n
  ended : ∀ op o, s.outcomes.lookup op = some o → op < n ∧ s.running.lookup op = none
  marked : ∀ d c m, s.marks d c = some m → m.op < n ∧ m.stamp ≤ s.clock
  standing : s.Standing
  valued : ∀ d c m, s.marks d c = some m → s.outcomes.lookup m.op ≠ some .failed →
    m.value ≠ none
  images : ∀ d c m t, s.marks d c = some m → s.ticketOf m.op = some t →
    s.shelf.Since (fun r => r.cell d c = m.value) t
  landed : ∀ op t, s.ticketOf op = some t → s.shelf.flights.lookup t = none → t ≤ s.shelf.newest
  gone : ∀ op t, s.outcomes.lookup op = some (.succeeded t) → s.shelf.flights.lookup t = none
  below : ∀ op t, s.ticketOf op = some t → t < s.shelf.next
  apart : ∀ op op' t, s.ticketOf op = some t → s.ticketOf op' = some t → op = op'
  restores : ∀ op x d e, s.running.lookup op = some x → x.undo = .restore d e →
    ∀ c, (∀ m, s.marks d c = some m → m.stamp < op) → s.registry.cell d c = some (e.column c)
  removes : ∀ op x d, s.running.lookup op = some x → x.undo = .remove d →
    ∀ c, ∃ m, s.marks d c = some m ∧ op ≤ m.stamp

/-! ## What one change keeps -/

theorem marks_set (s : RegistryState) (op : Nat) (r : Registry) (d d' : DocId)
    (columns : List Column) (c : Column) :
    (s.set op r d columns).marks d' c =
      if d' = d ∧ c ∈ columns then some { op := op, value := r.cell d c, stamp := s.clock }
      else s.marks d' c := rfl

theorem ticketOf_set (s : RegistryState) (op op' : Nat) (r : Registry) (d : DocId)
    (columns : List Column) : (s.set op r d columns).ticketOf op' = s.ticketOf op' := rfl

variable {d : DocId} {n op t : Nat} {r : Registry} {s s' : RegistryState} {x : Running}

theorem ticketOf_of_running (hx : s.running.lookup op = some x) (ht : x.ticket = some t) :
    s.ticketOf op = some t := by
  rw [ticketOf, hx, bind_some, ht]
  rfl

theorem ticketOf_of_failed (hrun : s.running.lookup op = none)
    (hout : s.outcomes.lookup op = some .failed) : s.ticketOf op = none := by
  rw [ticketOf, hrun, hout]
  rfl

theorem Sound.not_failed (h : s.Sound n) (ht : s.ticketOf op = some t) :
    s.outcomes.lookup op ≠ some .failed := by
  intro hf
  rw [ticketOf_of_failed (h.ended op _ hf).2 hf] at ht
  cases ht

theorem Sound.mono {n n' : Nat} (h : s.Sound n) (hle : n ≤ n') :
    s.Sound n' where
  __ := h
  begun := fun op x hx => Nat.lt_of_lt_of_le (h.begun op x hx) hle
  ended := fun op o ho => ⟨Nat.lt_of_lt_of_le (h.ended op o ho).1 hle, (h.ended op o ho).2⟩
  marked := fun d c m hm => ⟨Nat.lt_of_lt_of_le (h.marked d c m hm).1 hle, (h.marked d c m hm).2⟩

theorem Sound.tick (h : s.Sound (s.clock + 1)) :
    s.tick.Sound s.tick.clock where
  __ := h
  marked := fun d c m hm => by
    obtain ⟨hop, hstamp⟩ := h.marked d c m hm
    exact ⟨hop, Nat.le_succ_of_le hstamp⟩

/-- A change of `columns` of `d` by an operation whose image is yet to be taken, or that has
failed. -/
theorem Sound.set {columns : List Column} (h : s.Sound n) (hn : n ≤ s.clock + 1) (hop : op < n)
    (hticket : s.ticketOf op = none)
    (hvalued : s.outcomes.lookup op ≠ some .failed → ∀ c ∈ columns, r.cell d c ≠ none)
    (hrest : ∀ c, c ∉ columns → r.cell d c = s.registry.cell d c ∨ s.registry.cell d c = none)
    (helse : ∀ d', d' ≠ d → ∀ c, r.cell d' c = s.registry.cell d' c) :
    (s.set op r d columns).Sound n where
  __ := h
  marked := by
    intro d' c m hm
    rw [marks_set] at hm
    by_cases hc : d' = d ∧ c ∈ columns
    · rw [if_pos hc] at hm
      cases hm
      exact ⟨hop, Nat.le_refl _⟩
    · rw [if_neg hc] at hm
      exact h.marked d' c m hm
  standing := by
    intro d' c m hm hout
    show r.cell d' c = m.value
    rw [marks_set] at hm
    by_cases hc : d' = d ∧ c ∈ columns
    · rw [if_pos hc] at hm
      cases hm
      rw [hc.1]
    · rw [if_neg hc] at hm
      have hold : s.registry.cell d' c = m.value := h.standing d' c m hm hout
      by_cases hd : d' = d
      · subst hd
        rcases hrest c fun hin => hc ⟨rfl, hin⟩ with hsame | hnone
        · rw [hsame, hold]
        · exact absurd (hold.symm.trans hnone) (h.valued d' c m hm hout)
      · rw [helse d' hd c, hold]
  valued := by
    intro d' c m hm hout
    rw [marks_set] at hm
    by_cases hc : d' = d ∧ c ∈ columns
    · rw [if_pos hc] at hm
      cases hm
      exact hvalued hout c hc.2
    · rw [if_neg hc] at hm
      exact h.valued d' c m hm hout
  images := by
    intro d' c m t hm ht
    rw [ticketOf_set] at ht
    rw [marks_set] at hm
    by_cases hc : d' = d ∧ c ∈ columns
    · rw [if_pos hc] at hm
      cases hm
      rw [hticket] at ht
      cases ht
    · rw [if_neg hc] at hm
      exact h.images d' c m t hm ht
  restores := by
    intro op' x d' e hx hundo c hold
    have hop' : op' < n := h.begun op' x hx
    have hc : ¬(d' = d ∧ c ∈ columns) := by
      intro hc
      have := hold { op := op, value := r.cell d c, stamp := s.clock } (by
        rw [marks_set, if_pos hc])
      have hlt : s.clock < op' := this
      omega
    have hsame : ∀ m, s.marks d' c = some m → m.stamp < op' := by
      intro m hm
      apply hold
      rw [marks_set, if_neg hc]
      exact hm
    have hcell : s.registry.cell d' c = some (e.column c) :=
      h.restores op' x d' e hx hundo c hsame
    show r.cell d' c = some (e.column c)
    by_cases hd : d' = d
    · subst hd
      rcases hrest c fun hin => hc ⟨rfl, hin⟩ with hsame | hnone
      · rw [hsame, hcell]
      · rw [hnone] at hcell
        cases hcell
    · rw [helse d' hd c, hcell]
  removes := by
    intro op' x d' hx hundo c
    have hop' : op' < n := h.begun op' x hx
    obtain ⟨m, hm, hle⟩ := h.removes op' x d' hx hundo c
    rw [marks_set]
    by_cases hc : d' = d ∧ c ∈ columns
    · rw [if_pos hc]
      refine ⟨_, rfl, ?_⟩
      show op' ≤ s.clock
      omega
    · rw [if_neg hc]
      exact ⟨m, hm, hle⟩

/-- What an operation may take back is what it found, and what it made is its own. -/
structure Takes (s : RegistryState) (op : Nat) (u : Undo) : Prop where
  restores : ∀ d e, u = .restore d e → ∀ c, (∀ m, s.marks d c = some m → m.stamp < op) →
    s.registry.cell d c = some (e.column c)
  removes : ∀ d, u = .remove d → ∀ c, ∃ m, s.marks d c = some m ∧ op ≤ m.stamp

theorem takes_keep (s : RegistryState) (op : Nat) : s.Takes op .keep where
  restores := fun _ _ h => by cases h
  removes := fun _ h => by cases h

theorem ticketOf_insert (s : RegistryState) (op op' : Nat) (x : Running)
    (hout : s.outcomes.lookup op = none) :
    ({ s with running := s.running.insert op x } : RegistryState).ticketOf op' =
      if op' = op then x.ticket else s.ticketOf op' := by
  show (((s.running.insert op x).lookup op').bind (·.ticket)).or _ = _
  rw [lookup_insert]
  by_cases h : op' = op
  · rw [if_pos h, if_pos h, h, hout]
    show x.ticket.or none = x.ticket
    rw [or_none]
  · rw [if_neg h, if_neg h]
    rfl

theorem Sound.takes (h : s.Sound n) (hx : s.running.lookup op = some x) : s.Takes op x.undo where
  restores := fun d e hundo => h.restores op x d e hx hundo
  removes := fun d hundo => h.removes op x d hx hundo

/-- An operation that starts to run is one of the operations begun. -/
theorem Sound.running_insert (h : s.Sound n) (hop : op < n) (hout : s.outcomes.lookup op = none)
    (htakes : s.Takes op x.undo) :
    (∀ op' y, (s.running.insert op x).lookup op' = some y → op' < n ∧ s.Takes op' y.undo) ∧
      ∀ op' o, s.outcomes.lookup op' = some o →
        op' < n ∧ (s.running.insert op x).lookup op' = none := by
  constructor
  · intro op' y hy
    rw [lookup_insert] at hy
    by_cases he : op' = op
    · rw [if_pos he] at hy
      cases hy
      exact he ▸ ⟨hop, htakes⟩
    · rw [if_neg he] at hy
      exact ⟨h.begun op' y hy, h.takes hy⟩
  · intro op' o ho
    obtain ⟨hlt, hnone⟩ := h.ended op' o ho
    have he : op' ≠ op := by
      intro he
      subst he
      rw [hout] at ho
      cases ho
    rw [lookup_insert, if_neg he]
    exact ⟨hlt, hnone⟩

theorem Sound.enter (h : s.Sound n) (hop : op < n) (hout : s.outcomes.lookup op = none)
    (hticket : s.ticketOf op = none) (hx : x.ticket = none) (htakes : s.Takes op x.undo) :
    ({ s with running := s.running.insert op x } : RegistryState).Sound n := by
  have hsame : ∀ op', ({ s with running := s.running.insert op x } : RegistryState).ticketOf op' =
      s.ticketOf op' := by
    intro op'
    rw [ticketOf_insert s op op' x hout]
    by_cases he : op' = op
    · rw [if_pos he, he, hx, hticket]
    · rw [if_neg he]
  obtain ⟨hrun, hended⟩ := h.running_insert hop hout htakes
  constructor
  case numbered => exact h.numbered
  case begun => exact fun op' y hy => (hrun op' y hy).1
  case ended => exact hended
  case marked => exact h.marked
  case standing => exact h.standing
  case valued => exact h.valued
  case images =>
    intro d c m t hm ht
    rw [hsame] at ht
    exact h.images d c m t hm ht
  case landed =>
    intro op' t ht hf
    rw [hsame] at ht
    exact h.landed op' t ht hf
  case gone => exact h.gone
  case below =>
    intro op' t ht
    rw [hsame] at ht
    exact h.below op' t ht
  case apart =>
    intro a b t ha hb
    rw [hsame] at ha hb
    exact h.apart a b t ha hb
  case restores => exact fun op' y d e hy => (hrun op' y hy).2.restores d e
  case removes => exact fun op' y d hy => (hrun op' y hy).2.removes d

/-- The image of an operation is taken: it holds every column as it stands. -/
theorem Sound.take (h : s.Sound n) (hop : op < n) (hout : s.outcomes.lookup op = none)
    (htakes : s.Takes op x.undo) : (s.persist op x).Sound n := by
  have hsame : ∀ op', (s.persist op x).ticketOf op' =
      if op' = op then some s.shelf.next else s.ticketOf op' :=
    fun op' => ticketOf_insert s op op' { x with ticket := some s.shelf.next } hout
  obtain ⟨hrun, hended⟩ :=
    h.running_insert (x := { x with ticket := some s.shelf.next }) hop hout htakes
  constructor
  case numbered => exact h.numbered.take s.registry
  case begun => exact fun op' y hy => (hrun op' y hy).1
  case ended => exact hended
  case marked => exact h.marked
  case standing => exact h.standing
  case valued => exact h.valued
  case images =>
    intro d c m t hm ht
    have hfail : s.outcomes.lookup m.op ≠ some .failed := by
      rw [hsame] at ht
      by_cases he : m.op = op
      · rw [he, hout]
        intro hnone
        cases hnone
      · rw [if_neg he] at ht
        exact h.not_failed ht
    have hnow : s.registry.cell d c = m.value := h.standing d c m hm hfail
    refine Shelf.Since.take ?_ hnow
    rw [hsame] at ht
    by_cases he : m.op = op
    · rw [if_pos he] at ht
      cases ht
      exact h.numbered.since_next _
    · rw [if_neg he] at ht
      exact h.images d c m t hm ht
  case landed =>
    intro op' t ht hf
    have hlt : t ≠ s.shelf.next := by
      intro he
      rw [he] at hf
      rw [persist, Shelf.lookup_take_next] at hf
      cases hf
    show t ≤ s.shelf.newest
    rw [hsame] at ht
    by_cases he : op' = op
    · rw [if_pos he] at ht
      cases ht
      exact absurd rfl hlt
    · rw [if_neg he] at ht
      refine h.landed op' t ht ?_
      rw [persist, Shelf.take, lookup_insert, if_neg hlt] at hf
      exact hf
  case gone =>
    intro op' t (ho : s.outcomes.lookup op' = some (.succeeded t))
    have hgone : s.shelf.flights.lookup t = none := h.gone op' t ho
    have ht : s.ticketOf op' = some t := by
      rw [ticketOf, (h.ended op' _ ho).2, ho]
      rfl
    have := h.below op' t ht
    show (s.shelf.flights.insert s.shelf.next s.registry).lookup t = none
    rw [lookup_insert, if_neg (by omega)]
    exact hgone
  case below =>
    intro op' t ht
    show t < s.shelf.next + 1
    rw [hsame] at ht
    by_cases he : op' = op
    · rw [if_pos he] at ht
      cases ht
      omega
    · rw [if_neg he] at ht
      have := h.below op' t ht
      omega
  case apart =>
    intro a b t ha hb
    rw [hsame] at ha hb
    by_cases hea : a = op
    · rw [if_pos hea] at ha
      cases ha
      by_cases heb : b = op
      · rw [hea, heb]
      · rw [if_neg heb] at hb
        have := h.below b _ hb
        omega
    · rw [if_neg hea] at ha
      by_cases heb : b = op
      · rw [if_pos heb] at hb
        cases hb
        have := h.below a _ ha
        omega
      · rw [if_neg heb] at hb
        exact h.apart a b t ha hb
  case restores => exact fun op' y d e hy => (hrun op' y hy).2.restores d e
  case removes => exact fun op' y d hy => (hrun op' y hy).2.removes d

theorem Sound.outcome_of_running (h : s.Sound n) (hx : s.running.lookup op = some x) :
    s.outcomes.lookup op = none := by
  cases ho : s.outcomes.lookup op with
  | none => rfl
  | some o =>
    rw [(h.ended op o ho).2] at hx
    cases hx

theorem Sound.ticketOf_running (h : s.Sound n) (hx : s.running.lookup op = some x) :
    s.ticketOf op = x.ticket := by
  rw [ticketOf, hx, h.outcome_of_running hx]
  exact or_none

theorem Sound.fresh (h : s.Sound n) (hop : n ≤ op) :
    s.running.lookup op = none ∧ s.outcomes.lookup op = none ∧ s.ticketOf op = none := by
  have hrun : s.running.lookup op = none := by
    cases hx : s.running.lookup op with
    | none => rfl
    | some x =>
      have := h.begun op x hx
      omega
  have hout : s.outcomes.lookup op = none := by
    cases ho : s.outcomes.lookup op with
    | none => rfl
    | some o =>
      have := (h.ended op o ho).1
      omega
  refine ⟨hrun, hout, ?_⟩
  rw [ticketOf, hrun, hout]
  rfl

theorem Sound.rename {shelf : Shelf Registry} (h : s.Sound n) (hnew : s.shelf.newest < t)
    (hland : s.shelf.land t = some shelf) :
    ({ s with shelf := shelf } : RegistryState).Sound n := by
  obtain ⟨m, hm, hshelf⟩ := Shelf.land_eq_some hland
  refine { h with
    numbered := ?numbered, images := ?images, landed := ?landed, gone := ?gone, below := ?below }
  case numbered => exact h.numbered.land hland
  case images =>
    intro d c mark u hmark hu
    exact (h.images d c mark u hmark hu).land hland
  case landed =>
    intro op' u hu hf
    subst hshelf
    show u ≤ t
    by_cases he : u = t
    · omega
    · have hold : s.shelf.flights.lookup u = none := by
        rw [← hf]
        show s.shelf.flights.lookup u = (s.shelf.flights.erase t).lookup u
        rw [lookup_erase, if_neg he]
      have := h.landed op' u hu hold
      omega
  case gone =>
    intro op' u hu
    subst hshelf
    show (s.shelf.flights.erase t).lookup u = none
    rw [lookup_erase, h.gone op' u hu, ite_self]
  case below =>
    intro op' u hu
    subst hshelf
    exact h.below op' u hu

/-- An operation ends: with its image landed, or as a failure. -/
theorem Sound.finish {o : Outcome} (h : s.Sound n) (hx : s.running.lookup op = some x)
    (ho : ∀ t, o = .succeeded t → x.ticket = some t ∧ s.shelf.flights.lookup t = none) :
    (s.finish op o).Sound n := by
  have hnone : s.outcomes.lookup op = none := h.outcome_of_running hx
  have hlookup : ∀ op', (s.finish op o).running.lookup op' =
      if op' = op then none else s.running.lookup op' := fun op' => lookup_erase _ _ _
  have hout : ∀ op', (s.finish op o).outcomes.lookup op' =
      if op' = op then some o else s.outcomes.lookup op' := fun op' => lookup_insert _ _ _ _
  have hsub : ∀ op' t, (s.finish op o).ticketOf op' = some t → s.ticketOf op' = some t := by
    intro op' t ht
    rw [ticketOf, hlookup, hout] at ht
    by_cases he : op' = op
    · rw [if_pos he, if_pos he] at ht
      cases o with
      | failed => cases ht
      | succeeded u =>
        cases ht
        rw [he, h.ticketOf_running hx]
        exact (ho _ rfl).1
    · rw [if_neg he, if_neg he] at ht
      exact ht
  have hkept : ∀ op', (s.finish op o).outcomes.lookup op' ≠ some .failed →
      s.outcomes.lookup op' ≠ some .failed := by
    intro op' hne hf
    apply hne
    rw [hout, if_neg (fun he => by rw [he, hnone] at hf; cases hf)]
    exact hf
  have hold : ∀ op' y, (s.finish op o).running.lookup op' = some y →
      s.running.lookup op' = some y := by
    intro op' y hy
    rw [hlookup] at hy
    by_cases he : op' = op
    · rw [if_pos he] at hy
      cases hy
    · rw [if_neg he] at hy
      exact hy
  refine { h with
    begun := fun op' y hy => h.begun op' y (hold op' y hy)
    standing := fun d c m hm hne => h.standing d c m hm (hkept m.op hne)
    valued := fun d c m hm hne => h.valued d c m hm (hkept m.op hne)
    images := fun d c m t hm ht => h.images d c m t hm (hsub m.op t ht)
    landed := fun op' t ht hf => h.landed op' t (hsub op' t ht) hf
    below := fun op' t ht => h.below op' t (hsub op' t ht)
    apart := fun a b t ha hb => h.apart a b t (hsub a t ha) (hsub b t hb)
    restores := fun op' y d e hy => h.restores op' y d e (hold op' y hy)
    removes := fun op' y d hy => h.removes op' y d (hold op' y hy)
    ended := ?ended
    gone := ?gone }
  case ended =>
    intro op' o' ho'
    rw [hout] at ho'
    rw [hlookup]
    by_cases he : op' = op
    · rw [if_pos he, he]
      exact ⟨h.begun op x hx, rfl⟩
    · rw [if_neg he] at ho' ⊢
      exact h.ended op' o' ho'
  case gone =>
    intro op' t ht
    rw [hout] at ht
    by_cases he : op' = op
    · rw [if_pos he] at ht
      cases ht
      exact (ho t rfl).2
    · rw [if_neg he] at ht
      exact h.gone op' t ht

theorem Sound.drop (h : s.Sound n) (ht : ∀ op, s.ticketOf op ≠ some t) :
    ({ s with shelf := s.shelf.drop t } : RegistryState).Sound n where
  __ := h
  numbered := h.numbered.drop t
  images := fun d c m u hm hu => (h.images d c m u hm hu).drop t
  landed := by
    intro op u hu hf
    have hne : u ≠ t := by
      intro he
      rw [he] at hu
      exact ht op hu
    refine h.landed op u hu ?_
    rw [← hf]
    show s.shelf.flights.lookup u = (s.shelf.flights.erase t).lookup u
    rw [lookup_erase, if_neg hne]
  gone := by
    intro op u hu
    show (s.shelf.flights.erase t).lookup u = none
    rw [lookup_erase, h.gone op u hu, ite_self]

/-! ## Spreads and whole entries -/

theorem mem_columns (p : Patch) (c : Column) : c ∈ p.columns ↔ p.column c ≠ none := by
  rw [Patch.columns, List.mem_filter, isSome_iff_ne_none]
  exact ⟨fun h => h.2, fun h => ⟨Column.mem_all c, h⟩⟩

theorem cell_insert_self (r : Registry) (d : DocId) (e : DocRegistryEntry) (c : Column) :
    Registry.cell (r.insert d e) d c = some (e.column c) := by
  rw [Registry.cell_insert, if_pos rfl]

theorem cell_insert_ne (r : Registry) {d d' : DocId} (h : d' ≠ d) (e : DocRegistryEntry)
    (c : Column) : Registry.cell (r.insert d e) d' c = r.cell d' c := by
  rw [Registry.cell_insert, if_neg h]

theorem column_spread_of_not_mem {p : Patch} {c : Column} (h : c ∉ p.columns)
    (e : DocRegistryEntry) : (e.spread p).column c = e.column c := by
  have hnone : p.column c = none := by
    by_contra hc
    exact h ((mem_columns p c).mpr hc)
  rw [DocRegistryEntry.column_spread, hnone]
  rfl

theorem Sound.spread (h : s.Sound n) (hn : n ≤ s.clock + 1) (hop : op < n)
    (hticket : s.ticketOf op = none) (d : DocId) (captured : DocRegistryEntry) (p : Patch) :
    (s.set op (s.registry.commitRegistryColumns d captured p) d p.columns).Sound n := by
  refine h.set hn hop hticket ?_ ?_ ?_
  · intro _ c _ hnone
    rw [Registry.commitRegistryColumns, cell_insert_self] at hnone
    cases hnone
  · intro c hc
    rw [Registry.commitRegistryColumns, cell_insert_self, column_spread_of_not_mem hc,
      Registry.cell]
    cases s.registry.lookup d with
    | none => exact .inr rfl
    | some entry => exact .inl rfl
  · intro d' hd c
    exact cell_insert_ne s.registry hd _ c

theorem Sound.spread_entry {entry : DocRegistryEntry} (h : s.Sound n) (hn : n ≤ s.clock + 1)
    (hop : op < n) (hticket : s.ticketOf op = none) (hentry : s.registry.lookup d = some entry)
    (p : Patch) : (s.set op (s.registry.insert d (entry.spread p)) d p.columns).Sound n := by
  have hsp := h.spread hn hop hticket d entry p
  rw [Registry.commitRegistryColumns, hentry] at hsp
  exact hsp

theorem Sound.whole (h : s.Sound n) (hn : n ≤ s.clock + 1) (hop : op < n)
    (hticket : s.ticketOf op = none) (d : DocId) (entry : DocRegistryEntry) :
    (s.set op (s.registry.insert d entry) d Column.all).Sound n := by
  refine h.set hn hop hticket ?_ ?_ ?_
  · intro _ c _ hnone
    rw [cell_insert_self] at hnone
    cases hnone
  · intro c hc
    exact absurd (Column.mem_all c) hc
  · intro d' hd c
    exact cell_insert_ne s.registry hd _ c

theorem takes_restore (d : DocId) (entry : DocRegistryEntry) (p : Patch) (hop : op = s.clock) :
    (s.set op (s.registry.insert d (entry.spread p)) d p.columns).Takes op
      (.restore d entry) where
  restores := by
    intro d' e he c hold
    cases he
    show Registry.cell (s.registry.insert d (entry.spread p)) d c = _
    have hc : c ∉ p.columns := by
      intro hin
      have := hold _ (by rw [marks_set, if_pos ⟨rfl, hin⟩])
      have hlt : s.clock < op := this
      omega
    rw [cell_insert_self, column_spread_of_not_mem hc]
  removes := fun d' he => by cases he

theorem takes_remove (d : DocId) (r : Registry) (hop : op = s.clock) :
    (s.set op r d Column.all).Takes op (.remove d) where
  restores := fun d' e he => by cases he
  removes := by
    intro d' he c
    cases he
    refine ⟨{ op := op, value := r.cell d c, stamp := s.clock }, ?_, ?_⟩
    · rw [marks_set, if_pos ⟨rfl, Column.mem_all c⟩]
    · show op ≤ s.clock
      omega

/-! ## What each event keeps -/

theorem Sound.create (h : s.Sound s.clock) (d : DocId) (name : String) (createdAt : Int) :
    (s.create d name createdAt).Sound (s.create d name createdAt).clock := by
  obtain ⟨-, hout, hticket⟩ := h.fresh (Nat.le_refl s.clock)
  have hset := (h.mono (Nat.le_succ s.clock)).whole (Nat.le_refl _) (Nat.lt_succ_self _) hticket d
    (createdEntry d name createdAt)
  exact (hset.take (x := { undo := .remove d }) (Nat.lt_succ_self _) hout
    (takes_remove d _ rfl)).tick

theorem Sound.edit {e : Edit} (h : s.Sound s.clock) (hs : s.edit d e = some s') :
    s'.Sound s'.clock := by
  obtain ⟨-, hout, hticket⟩ := h.fresh (Nat.le_refl s.clock)
  cases hentry : s.registry.lookup d with
  | none =>
    rw [RegistryState.edit, hentry] at hs
    cases hs
  | some entry =>
    rw [RegistryState.edit, hentry] at hs
    dsimp only at hs
    split at hs
    · cases hs
      have hset := (h.mono (Nat.le_succ s.clock)).spread_entry (Nat.le_refl _)
        (Nat.lt_succ_self _) hticket hentry e.patch
      exact (hset.take (x := { undo := .restore d entry }) (Nat.lt_succ_self _) hout
        (takes_restore d entry e.patch rfl)).tick
    · cases hs

theorem Sound.begin (h : s.Sound s.clock) (hx : x.ticket = none) (hundo : x.undo = .keep) :
    (s.begin x).tick.Sound (s.begin x).tick.clock := by
  obtain ⟨-, hout, hticket⟩ := h.fresh (Nat.le_refl s.clock)
  refine Sound.tick (s := s.begin x) ?_
  refine (h.mono (Nat.le_succ s.clock)).enter (Nat.lt_succ_self _) hout hticket hx ?_
  rw [hundo]
  exact takes_keep s s.clock

theorem Sound.bootstrap {baseEpoch : Int} (h : s.Sound s.clock)
    (hs : s.bootstrap d baseEpoch = some s') : s'.Sound s'.clock := by
  obtain ⟨-, hout, hticket⟩ := h.fresh (Nat.le_refl s.clock)
  cases hentry : s.registry.lookup d with
  | none =>
    rw [RegistryState.bootstrap, hentry] at hs
    cases hs
  | some entry =>
    rw [RegistryState.bootstrap, hentry] at hs
    dsimp only at hs
    split at hs
    · cases hs
      have hset := (h.mono (Nat.le_succ s.clock)).spread_entry (Nat.le_refl _)
        (Nat.lt_succ_self _) hticket hentry { baseEpoch := some baseEpoch }
      exact (hset.enter (x := { captured := some (d, _) }) (Nat.lt_succ_self _) hout hticket rfl
        (takes_keep _ _)).tick
    · cases hs

theorem commit_eq_some {c : Commit} (hs : s.commit op c = some s') :
    ∃ x d entry, s.running.lookup op = some x ∧ x.ticket = none ∧
      s' = ((s.set op (s.registry.commitRegistryColumns d entry c.patch) d
        c.patch.columns).persist op x).tick := by
  rw [RegistryState.commit] at hs
  split at hs
  · next hx =>
    cases hs
    exact ⟨_, _, _, hx, rfl, rfl⟩
  · cases hs

theorem Sound.commit {c : Commit} (h : s.Sound s.clock) (hs : s.commit op c = some s') :
    s'.Sound s'.clock := by
  obtain ⟨x, d, entry, hx, hticket, rfl⟩ := commit_eq_some hs
  have hop : op < s.clock + 1 := Nat.lt_succ_of_lt (h.begun op x hx)
  have hnone : s.ticketOf op = none := by rw [h.ticketOf_running hx, hticket]
  have hset := (h.mono (Nat.le_succ s.clock)).spread (Nat.le_refl _) hop hnone d entry c.patch
  exact (hset.take hop (hset.outcome_of_running hx) (hset.takes hx)).tick

theorem Sound.folding (h : s.Sound s.clock) (hx : s.running.lookup op = some x)
    (hticket : x.ticket = none) :
    op < s.clock + 1 ∧ s.ticketOf op = none ∧ s.outcomes.lookup op = none := by
  refine ⟨Nat.lt_succ_of_lt (h.begun op x hx), ?_, h.outcome_of_running hx⟩
  rw [h.ticketOf_running hx, hticket]

theorem Sound.fold {syncs : Bool} {row : DocLibraryEntry} (h : s.Sound s.clock)
    (hs : s.fold op syncs row = some s') : s'.Sound s'.clock := by
  have hm := h.mono (Nat.le_succ s.clock)
  rw [RegistryState.fold] at hs
  split at hs
  · next hx =>
    obtain ⟨hop, hnone, hout⟩ := h.folding hx rfl
    split at hs
    · cases hs
      exact hm.tick
    · cases hs
      exact (hm.enter (x := { adopting := some row }) hop hout hnone rfl (takes_keep s op)).tick
    · next patch hfold =>
      obtain ⟨entry, hentry, rfl⟩ := map_eq_some_iff.mp hs
      exact (hm.spread_entry (Nat.le_refl _) hop hnone hentry patch).tick
  · cases hs

theorem Sound.adopt {made : Bool} (h : s.Sound s.clock) (hs : s.adopt op made = some s') :
    s'.Sound s'.clock := by
  have hm := h.mono (Nat.le_succ s.clock)
  rw [RegistryState.adopt] at hs
  split at hs
  · next row hx =>
    obtain ⟨hop, hnone, hout⟩ := h.folding hx rfl
    have hent := hm.enter (x := {}) hop hout hnone rfl (takes_keep s op)
    have hnone' : ({ s with running := s.running.insert op {} } : RegistryState).ticketOf op =
        none := by
      rw [ticketOf_insert s op op {} hout, if_pos rfl]
    dsimp only at hs
    split at hs
    · cases hs
      exact (hent.whole (Nat.le_refl _) hop hnone' row.docId (adoptedEntry row)).tick
    · cases hs
      exact hent.tick
  · cases hs

theorem Sound.persistFolded (h : s.Sound s.clock) (hs : s.persistFolded op = some s') :
    s'.Sound s'.clock := by
  have hm := h.mono (Nat.le_succ s.clock)
  rw [RegistryState.persistFolded] at hs
  split at hs
  · next hx =>
    obtain ⟨hop, -, hout⟩ := h.folding hx rfl
    cases hs
    exact (hm.take (x := {}) hop hout (takes_keep s op)).tick
  · cases hs

theorem Sound.land (h : s.Sound s.clock) (hok : s.Orderly (.land op)) (hs : s.land op = some s') :
    s'.Sound s'.clock := by
  obtain ⟨t, ht, hs⟩ := bind_eq_some_iff.mp hs
  obtain ⟨shelf, hshelf, rfl⟩ := map_eq_some_iff.mp hs
  exact ((h.mono (Nat.le_succ s.clock)).rename (hok t ht) hshelf).tick

theorem Sound.succeed (h : s.Sound s.clock) (hs : s.succeed op = some s') : s'.Sound s'.clock := by
  obtain ⟨t, ht, hs⟩ := bind_eq_some_iff.mp hs
  obtain ⟨x, hx, hxt⟩ := bind_eq_some_iff.mp ht
  split at hs
  · next hgone =>
    cases hs
    refine ((h.mono (Nat.le_succ s.clock)).finish hx ?_).tick
    intro u hu
    cases hu
    exact ⟨hxt, isNone_iff_eq_none.mp hgone⟩
  · cases hs

theorem Sound.abandon (h : s.Sound s.clock) (hs : s.abandon op = some s') : s'.Sound s'.clock := by
  obtain ⟨x, hx, hs⟩ := bind_eq_some_iff.mp hs
  split at hs
  · cases hs
    refine ((h.mono (Nat.le_succ s.clock)).finish hx ?_).tick
    intro u hu
    cases hu
  · cases hs

/-! ## A failing write -/

def ended (s : RegistryState) (op t : Nat) : RegistryState :=
  { s.finish op .failed with shelf := s.shelf.drop t }

theorem fail_eq_some (hs : s.fail op = some s') :
    ∃ x t, s.running.lookup op = some x ∧ x.ticket = some t ∧
      s' = ((s.ended op t).rollback op x.undo).tick := by
  obtain ⟨x, hx, hs⟩ := bind_eq_some_iff.mp hs
  obtain ⟨t, ht, rfl⟩ := map_eq_some_iff.mp hs
  refine ⟨x, t, hx, ht, ?_⟩
  cases hundo : x.undo <;> rfl

theorem Sound.ended_failed (h : s.Sound n) (hx : s.running.lookup op = some x)
    (ht : x.ticket = some t) :
    (s.ended op t).Sound n ∧ (s.ended op t).ticketOf op = none ∧
      (s.ended op t).outcomes.lookup op = some .failed := by
  have hfin : (s.finish op .failed).Sound n := h.finish hx fun u hu => by cases hu
  have hrun : (s.finish op .failed).running.lookup op = none := by
    show (s.running.erase op).lookup op = none
    rw [lookup_erase, if_pos rfl]
  have hout : (s.finish op .failed).outcomes.lookup op = some .failed := by
    show (s.outcomes.insert op .failed).lookup op = some .failed
    rw [lookup_insert, if_pos rfl]
  have hnone : (s.finish op .failed).ticketOf op = none := ticketOf_of_failed hrun hout
  refine ⟨hfin.drop ?_, hnone, hout⟩
  intro op' hop'
  have hold : s.ticketOf op' = some t := by
    rw [← hop', ticketOf, ticketOf]
    show _ = (((s.running.erase op).lookup op').bind (·.ticket)).or
      (((s.outcomes.insert op .failed).lookup op').bind _)
    rw [lookup_erase, lookup_insert]
    by_cases he : op' = op
    · rw [he] at hop'
      rw [hop'] at hnone
      cases hnone
    · rw [if_neg he, if_neg he]
  have he : op' = op := h.apart op' op t hold (ticketOf_of_running hx ht)
  rw [he, hnone] at hop'
  cases hop'

theorem Sound.restored {entry : DocRegistryEntry} (h : s.Sound n)
    (hx : s.running.lookup op = some x) (hundo : x.undo = .restore d entry)
    (hok : s.Orderly (.fail op)) {c : Column} (hc : ∀ m, s.marks d c = some m → m.op ≠ op) :
    s.registry.cell d c = some (entry.column c) := by
  refine h.restores op x d entry hx hundo c fun m hm => ?_
  have hown : s.AsLeft op x.undo := hok x hx
  rw [hundo] at hown
  exact (hown c (Column.mem_all c) m hm).resolve_left (hc m hm)

theorem Sound.removed (h : s.Sound n) (hx : s.running.lookup op = some x)
    (hundo : x.undo = .remove d) (hok : s.Orderly (.fail op)) (c : Column) :
    ∃ m, s.marks d c = some m ∧ m.op = op := by
  obtain ⟨m, hm, hle⟩ := h.removes op x d hx hundo c
  have hown : s.AsLeft op x.undo := hok x hx
  rw [hundo] at hown
  refine ⟨m, hm, (hown c (Column.mem_all c) m hm).resolve_right ?_⟩
  omega

theorem Sound.fail (h : s.Sound s.clock) (hok : s.Orderly (.fail op)) (hs : s.fail op = some s') :
    s'.Sound s'.clock := by
  obtain ⟨x, t, hx, ht, rfl⟩ := fail_eq_some hs
  have hm := h.mono (Nat.le_succ s.clock)
  obtain ⟨hend, hnone, hout⟩ := hm.ended_failed hx ht
  have hop : op < s.clock + 1 := hm.begun op x hx
  have hfailed : (s.ended op t).outcomes.lookup op ≠ some .failed → False :=
    fun hne => hne hout
  cases hundo : x.undo with
  | keep => exact hend.tick
  | remove d =>
    refine (hend.set (Nat.le_refl _) hop hnone (fun hne => (hfailed hne).elim) ?_ ?_).tick
    · intro c hc
      exact absurd (Column.mem_all c) hc
    · intro d' hd c
      rw [Registry.cell_erase, if_neg hd]
  | restore d entry =>
    refine (hend.set (Nat.le_refl _) hop hnone (fun hne => (hfailed hne).elim) ?_ ?_).tick
    · intro c hc
      left
      rw [cell_insert_self]
      refine (h.restored hx hundo hok fun m hm' hmop => hc ?_).symm
      refine List.mem_filter.mpr ⟨Column.mem_all c, ?_⟩
      show (s.marks d c).any _ = true
      rw [hm']
      simp [hmop]
    · intro d' hd c
      exact cell_insert_ne s.registry hd entry c

theorem Sound.next {e : RegistryEvent} (h : s.Sound s.clock) (hok : s.Orderly e)
    (hs : s.next e = some s') : s'.Sound s'.clock := by
  cases e with
  | create d name createdAt =>
    cases hs
    exact h.create d name createdAt
  | edit d e => exact h.edit hs
  | capture d =>
    obtain ⟨entry, -, rfl⟩ := map_eq_some_iff.mp hs
    exact h.begin rfl rfl
  | bootstrap d baseEpoch => exact h.bootstrap hs
  | commit op c => exact h.commit hs
  | reconcile =>
    cases hs
    exact h.begin rfl rfl
  | fold op syncs row => exact h.fold hs
  | adopt op made => exact h.adopt hs
  | persistFolded op => exact h.persistFolded hs
  | land op => exact h.land hok hs
  | succeed op => exact h.succeed hs
  | fail op => exact h.fail hok hs
  | abandon op => exact h.abandon hs

theorem sound_boot (r : Registry) : (boot r).Sound (boot r).clock := by
  have hrun : ∀ op x, (boot r).running.lookup op ≠ some x := by
    intro op x hx
    rw [boot, lookup_empty] at hx
    cases hx
  have hout : ∀ op o, (boot r).outcomes.lookup op ≠ some o := by
    intro op o ho
    rw [boot, lookup_empty] at ho
    cases ho
  have hmarks : ∀ d c m, (boot r).marks d c ≠ some m := by
    intro d c m hm
    cases hm
  have hticket : ∀ op t, (boot r).ticketOf op ≠ some t := by
    intro op t ht
    cases ht
  constructor
  case numbered => exact Shelf.numbered_start r
  case begun => exact fun op x hx => absurd hx (hrun op x)
  case ended => exact fun op o ho => absurd ho (hout op o)
  case marked => exact fun d c m hm => absurd hm (hmarks d c m)
  case standing => exact fun d c m hm => absurd hm (hmarks d c m)
  case valued => exact fun d c m hm => absurd hm (hmarks d c m)
  case images => exact fun d c m _ hm => absurd hm (hmarks d c m)
  case landed => exact fun op t ht => absurd ht (hticket op t)
  case gone => exact fun op t ht => absurd ht (hout op _)
  case below => exact fun op t ht => absurd ht (hticket op t)
  case apart => exact fun op op' t ht => absurd ht (hticket op t)
  case restores => exact fun op x d e hx => absurd hx (hrun op x)
  case removes => exact fun op x d hx => absurd hx (hrun op x)

theorem sound_of_reaches (h : (registryMachine r).Reaches Orderly s) : s.Sound s.clock :=
  h.invariant (P := fun s => s.Sound s.clock) (sound_boot r)
    fun _ _ _ hs hok hnext => hs.next hok hnext

/-! ## What follows -/

theorem Sound.durable (h : s.Sound n) : s.Durable := by
  intro d c m t hm ho
  have ht : s.ticketOf m.op = some t := by
    rw [ticketOf, (h.ended m.op _ ho).2, ho]
    rfl
  exact (h.images d c m t hm ht).file (h.landed m.op t ht (h.gone m.op t ho))

theorem Sound.own_rollback (h : s.Sound s.clock) : s.OwnRollback := by
  intro op s' hok hs d c hc
  obtain ⟨x, t, hx, -, rfl⟩ := fail_eq_some hs
  cases hundo : x.undo with
  | keep => rfl
  | remove d' =>
    show Registry.cell (s.registry.erase d') d c = _
    rw [Registry.cell_erase]
    by_cases hd : d = d'
    · subst hd
      obtain ⟨m, hm, hmop⟩ := h.removed hx hundo hok c
      exact absurd hmop (hc m hm)
    · rw [if_neg hd]
  | restore d' entry =>
    show Registry.cell (s.registry.insert d' entry) d c = _
    by_cases hd : d = d'
    · subst hd
      rw [cell_insert_self]
      exact (h.restored hx hundo hok hc).symm
    · exact cell_insert_ne s.registry hd entry c

/-- While writes land in order and a rollback finds its entry untouched, what an operation
that succeeded set is in the file until another sets the same column, and a failure takes
back its own columns only. -/
theorem registry_file_keeps {r : Registry} {s : RegistryState}
    (h : (registryMachine r).Reaches Orderly s) : s.Durable ∧ s.Standing ∧ s.OwnRollback := by
  have hs := sound_of_reaches h
  exact ⟨hs.durable, hs.standing, hs.own_rollback⟩

/-! ## Runs -/

def oneCanvas : Registry :=
  Dict.insert ∅ "d" { createdEntry "d" "b" 1 with sizeBytes := 9 }

def overlapping : List RegistryEvent :=
  [.edit "d" (.rename "c"), .edit "d" (.setSyncIntent .localOnly), .land 1, .succeed 1]

def intentLost (s : RegistryState) (r : Registry) : Bool :=
  match s.marks "d" .syncIntent with
  | some m =>
    (s.outcomes.lookup m.op).any (fun o => o == .succeeded 2) &&
      r.cell "d" .syncIntent != m.value
  | none => false

theorem of_intentLost (h : intentLost s r = true) :
    ∃ m, s.marks "d" .syncIntent = some m ∧ s.outcomes.lookup m.op = some (.succeeded 2) ∧
      r.cell "d" .syncIntent ≠ m.value := by
  rw [intentLost] at h
  split at h
  · next m hm =>
    obtain ⟨ho, hne⟩ := Bool.and_eq_true_iff.mp h
    obtain ⟨o, ho, hoe⟩ := any_eq_true _ _ |>.mp ho
    refine ⟨m, hm, ?_, bne_iff_ne.mp hne⟩
    rw [ho, beq_iff_eq.mp hoe]
  · cases h

/-- The slow write lands over a younger one, and the intent leaves the file; or it fails,
and taking the rename back takes the intent back too. -/
theorem registry_file_goes_back :
    (∃ s, (registryMachine oneCanvas).Reachable s ∧ ¬s.Durable) ∧
      ∃ s, (registryMachine oneCanvas).Reachable s ∧ ¬s.Standing := by
  constructor
  · obtain ⟨s, hs, hp⟩ := Machine.exists_of_run (M := registryMachine oneCanvas)
      (fun s => intentLost s s.shelf.file) (overlapping ++ [.land 0]) (by decide)
    obtain ⟨m, hm, ho, hne⟩ := of_intentLost hp
    exact ⟨s, hs, fun h => hne (h "d" .syncIntent m 2 hm ho)⟩
  · obtain ⟨s, hs, hp⟩ := Machine.exists_of_run (M := registryMachine oneCanvas)
      (fun s => intentLost s s.registry) (overlapping ++ [.fail 0]) (by decide)
    obtain ⟨m, hm, ho, hne⟩ := of_intentLost hp
    refine ⟨s, hs, fun h => hne (h "d" .syncIntent m hm ?_)⟩
    rw [ho]
    intro hf
    cases hf

/-- The two overlap and land in order, then a save of the canvas is written and fails. -/
theorem registry_file_keeps_overlapping :
    ∃ s : RegistryState, (s.Durable ∧ s.Standing ∧ s.OwnRollback) ∧
      s.shelf.file.cell "d" .name = some (.text "c") ∧
      s.shelf.file.cell "d" .syncIntent = some (.intent (some .localOnly)) := by
  obtain ⟨s, hs, hp⟩ := Machine.exists_of_orderly_run (M := registryMachine oneCanvas) Orderly
    (fun s => s.shelf.file.cell "d" .name == some (.text "c") &&
      s.shelf.file.cell "d" .syncIntent == some (.intent (some .localOnly)))
    [.edit "d" (.rename "c"), .edit "d" (.setSyncIntent .localOnly), .capture "d", .land 0,
      .land 1, .commit 2 (.content 7 none 40), .succeed 1, .succeed 0, .fail 2] (by decide)
  obtain ⟨hname, hintent⟩ := Bool.and_eq_true_iff.mp hp
  exact ⟨s, registry_file_keeps hs, beq_iff_eq.mp hname, beq_iff_eq.mp hintent⟩

end RegistryState

end VibeField.Fieldd
