import Mathlib.Logic.Relation
import VibeField.Fieldd.KeyJournal

/-!
# Where moved keys lead

A history lists the regroups that a journal observed, the last one first.  What the journal
remembers is told by the history alone: the key each place was last seen in, and for each key the
last regroup that held it not and found places last seen under it.
-/

namespace VibeField.Fieldd.KeyJournal

variable {κ π : Type} [LinearOrder κ] [DecidableEq π]

def pairs (g : List (Project κ π)) : List (π × κ) :=
  g.flatMap fun project => project.placeIds.map fun placeId => (placeId, project.key)

/-- No place stands in a regroup twice. -/
def Distinct (g : List (Project κ π)) : Prop := ((pairs g).map Prod.fst).Nodup

instance (g : List (Project κ π)) : Decidable (Distinct g) := List.nodupDecidable _

def keyIn (rows : List (π × κ)) (placeId : π) : Option κ :=
  (rows.find? fun row => row.1 = placeId).map Prod.snd

def keyOf (g : List (Project κ π)) (placeId : π) : Option κ := keyIn (pairs g) placeId

def lastKey : List (List (Project κ π)) → π → Option κ
  | [], _ => none
  | g :: h, placeId => (keyOf g placeId).or (lastKey h placeId)

def foundOf (h : List (List (Project κ π))) (g : List (Project κ π)) (key : κ) : List κ :=
  ((pairs g).filter fun row => lastKey h row.1 = some key).map Prod.snd

/-- The key that a list holds most often, and of equals the smallest. -/
def Took (l : List κ) (key : κ) : Prop :=
  key ∈ l ∧ ∀ key' ∈ l, l.count key' < l.count key ∨ l.count key' = l.count key ∧ key ≤ key'

/-- Where a key went, at the last regroup that held it not and found places last seen under it. -/
inductive Went : List (List (Project κ π)) → κ → κ → Prop
  | here {g : List (Project κ π)} {h : List (List (Project κ π))} {key toKey : κ} :
      isCurrent g key = false → Took (foundOf h g key) toKey → Went (g :: h) key toKey
  | before {g : List (Project κ π)} {h : List (List (Project κ π))} {key toKey : κ} :
      isCurrent g key = true ∨ foundOf h g key = [] → Went h key toKey → Went (g :: h) key toKey

def current : List (List (Project κ π)) → κ → Bool
  | [], _ => false
  | g :: _, key => isCurrent g key

/-- `n` moves lead from a key to one that is current. -/
inductive Chain (h : List (List (Project κ π))) : Nat → κ → κ → Prop
  | last {key toKey : κ} : Went h key toKey → current h toKey = true → Chain h 1 key toKey
  | next {n : Nat} {key via toKey : κ} : Went h key via → current h via = false →
      Chain h n via toKey → Chain h (n + 1) key toKey

/-- Since the key was last current, a place last seen under it has been found. -/
inductive Traced : List (List (Project κ π)) → κ → Prop
  | here {g : List (Project κ π)} {h : List (List (Project κ π))} {key : κ} :
      isCurrent g key = false → foundOf h g key ≠ [] → Traced (g :: h) key
  | later {g : List (Project κ π)} {h : List (List (Project κ π))} {key : κ} :
      isCurrent g key = false → Traced h key → Traced (g :: h) key

/-- The move of one key leads to another that is not current. -/
def Onward (h : List (List (Project κ π))) (key toKey : κ) : Prop :=
  Went h key toKey ∧ current h toKey = false

/-- The same projects with the same places, in any order. -/
def Same (g g' : List (Project κ π)) : Prop :=
  ∃ m, g.Perm m ∧ List.Forall₂ (fun a b => a.key = b.key ∧ a.placeIds.Perm b.placeIds) m g'

/-- The histories of a journal and its file whose bounds drop nothing. -/
inductive Observed (o : Options) : List (List (Project κ π)) → State κ π → Prop
  | start : Observed o [] .start
  | observe {h : List (List (Project κ π))} {s : State κ π} {g : List (Project κ π)} {now : Nat} :
      Observed o h s → Distinct g → (s.journal.record now g).places.len ≤ o.placesMax →
        (s.journal.record now g).moves.len ≤ o.movesMax → Observed o (g :: h) (s.observe o now g)
  | restart {h : List (List (Project κ π))} {s : State κ π} :
      Observed o h s → Observed o h s.restart

structure Leads (h : List (List (Project κ π))) (s : State κ π) : Prop where
  chain : ∀ key toKey, s.journal.movedTo key (current h) = some toKey →
    current h toKey = true ∧ ∃ n, n ≤ MOVE_HOPS_MAX ∧ Chain h n key toKey
  answers : ∀ key, (∀ via, Relation.ReflTransGen (Onward h) key via → Traced h via) →
    ∃ n toKey, current h toKey = true ∧ Chain h n key toKey ∧
      (n ≤ MOVE_HOPS_MAX → s.journal.movedTo key (current h) = some toKey)
  order : ∀ (o : Options) (h' : List (List (Project κ π))) (s' : State κ π), Observed o h' s' →
    List.Forall₂ Same h h' →
      ∀ key current, s.journal.movedTo key current = s'.journal.movedTo key current

/-! ## By place -/

/-- A place last seen under `key`, since it was last current, was found under `toKey`. -/
def Reached (h : List (List (Project κ π))) (key : κ) (placeId : π) (toKey : κ) : Prop :=
  ∃ later g earlier, h = later ++ g :: earlier ∧ isCurrent g key = true ∧
    (∀ g' ∈ later, isCurrent g' key = false) ∧ lastKey (g :: earlier) placeId = some key ∧
    ∃ g' ∈ later, keyOf g' placeId = some toKey

def ReachedByPlace (h : List (List (Project κ π))) (s : State κ π) : Prop :=
  ∀ key toKey, current h key = false → s.journal.movedTo key (current h) = some toKey →
    current h toKey = true ∧ ∃ placeId, Reached h key placeId toKey

/-- A key all of whose places are held leads somewhere. -/
def AnswersByPlace (h : List (List (Project κ π))) (s : State κ π) : Prop :=
  ∀ key later g earlier, h = later ++ g :: earlier → later ≠ [] → isCurrent g key = true →
    (∀ g' ∈ later, isCurrent g' key = false) →
    (∃ placeId, lastKey (g :: earlier) placeId = some key) →
    (∀ placeId, lastKey (g :: earlier) placeId = some key →
      (keyOf (h.headD []) placeId).isSome = true) →
    s.journal.moves.len < MOVE_HOPS_MAX → ∃ toKey, s.journal.movedTo key (current h) = some toKey

end VibeField.Fieldd.KeyJournal
