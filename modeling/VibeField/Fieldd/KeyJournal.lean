import VibeField.Base.Comparison
import VibeField.Base.Ordered

/-!
# The projects' key memory

A journal remembers the key each place was last seen in.  A regroup that finds a place under a new
key, while no project holds its old one, records where the old key went: to the key that took the
most of its places, and of equals to the smaller.  A key that is gone is followed through the moves
until one lands on a current key.

The journal is written to its file when a regroup changed anything, and a restart reads it back.
-/

namespace VibeField.Fieldd.KeyJournal

variable {κ π : Type}

structure Project (κ π : Type) where
  key : κ
  placeIds : List π

structure Held (κ : Type) where
  key : κ
  seenAt : Nat

structure Moved (κ : Type) where
  toKey : κ
  movedAt : Nat

structure KeyMove (κ : Type) where
  fromKey : κ
  toKey : κ
  movedAt : Nat

structure Options where
  placesMax : Nat
  movesMax : Nat

def JOURNAL_PLACES_MAX : Nat := 4096

def JOURNAL_MOVES_MAX : Nat := 1024

def MOVE_HOPS_MAX : Nat := 16

def Options.default : Options where
  placesMax := JOURNAL_PLACES_MAX
  movesMax := JOURNAL_MOVES_MAX

structure Journal (κ π : Type) where
  /-- The key each place was last seen in, by recency. -/
  places : Dict π (Held κ)
  /-- Where a key went, by age. -/
  moves : Dict κ (Moved κ)

def Journal.empty : Journal κ π where
  places := ∅
  moves := ∅

structure File (κ π : Type) where
  places : List (π × Held κ)
  moves : List (κ × Moved κ)

structure Found (κ : Type) where
  scattered : Dict κ (Dict κ Nat)
  changed : Bool

def Found.nothing : Found κ where
  scattered := ∅
  changed := false

variable [LinearOrder κ] [DecidableEq π]

def isCurrent (projects : List (Project κ π)) (key : κ) : Bool :=
  projects.any fun project => project.key = key

def Found.look (places : Dict π (Held κ)) (current : κ → Bool) (key : κ) (found : Found κ)
    (placeId : π) : Found κ :=
  match places.lookup placeId with
  | none => { found with changed := true }
  | some held =>
    let found := if held.key = key then found else { found with changed := true }
    if held.key = key || current held.key then found
    else
      let tally := (found.scattered.lookup held.key).getD ∅
      { found with
        scattered :=
          found.scattered.put held.key (tally.put key ((tally.lookup key).getD 0 + 1)) }

def Journal.found (journal : Journal κ π) (projects : List (Project κ π)) : Found κ :=
  projects.foldl (fun found project =>
    project.placeIds.foldl (Found.look journal.places (isCurrent projects) project.key) found)
    .nothing

def byTally : Comparison (κ × Nat) :=
  (Comparison.order.on fun row => OrderDual.toDual row.2).thenBy
    (Comparison.order.on fun row => row.1)

def winner (tally : Dict κ Nat) : Option κ :=
  ((byTally.sort tally.rows).head?).map fun row => row.1

def move (found : Found κ) (now : Nat) (sofar : Dict κ (Moved κ) × List (KeyMove κ))
    (fromKey : κ) : Dict κ (Moved κ) × List (KeyMove κ) :=
  match winner ((found.scattered.lookup fromKey).getD ∅) with
  | none => sofar
  | some toKey =>
    ((sofar.1.erase fromKey).put fromKey ⟨toKey, now⟩, sofar.2 ++ [⟨fromKey, toKey, now⟩])

def Journal.moved (journal : Journal κ π) (now : Nat) (projects : List (Project κ π)) :
    Dict κ (Moved κ) × List (KeyMove κ) :=
  (Comparison.order.sort (journal.found projects).scattered.keys).foldl
    (move (journal.found projects) now) (journal.moves, [])

def Journal.seen (journal : Journal κ π) (now : Nat) (projects : List (Project κ π)) :
    Dict π (Held κ) :=
  projects.foldl (fun places project =>
    project.placeIds.foldl (fun places placeId =>
      (places.erase placeId).put placeId ⟨project.key, now⟩) places) journal.places

def Journal.record (journal : Journal κ π) (now : Nat) (projects : List (Project κ π)) :
    Journal κ π where
  places := journal.seen now projects
  moves := (journal.moved now projects).1

def Journal.observe (o : Options) (journal : Journal κ π) (now : Nat)
    (projects : List (Project κ π)) : Journal κ π :=
  let recorded := journal.record now projects
  { places := .dropOldest o.placesMax recorded.places
    moves := .dropOldest o.movesMax recorded.moves }

def Journal.persists (journal : Journal κ π) (now : Nat) (projects : List (Project κ π)) : Bool :=
  (journal.found projects).changed || !(journal.moved now projects).2.isEmpty

def Journal.persist (journal : Journal κ π) : File κ π where
  places := journal.places.rows
  moves := journal.moves.rows

def load : Option (File κ π) → Journal κ π
  | none => .empty
  | some file => { places := .ofRows file.places, moves := .ofRows file.moves }

def follow (moves : Dict κ (Moved κ)) (current : κ → Bool) : Nat → κ → Option κ
  | 0, _ => none
  | hops + 1, key =>
    match moves.lookup key with
    | none => none
    | some move =>
      if current move.toKey then some move.toKey else follow moves current hops move.toKey

def Journal.movedTo (journal : Journal κ π) (key : κ) (current : κ → Bool) : Option κ :=
  follow journal.moves current MOVE_HOPS_MAX key

/-! ## A journal and its file -/

structure State (κ π : Type) where
  journal : Journal κ π
  file : Option (File κ π)

namespace State

def start : State κ π where
  journal := .empty
  file := none

def observe (o : Options) (s : State κ π) (now : Nat) (projects : List (Project κ π)) :
    State κ π :=
  let journal := s.journal.observe o now projects
  { journal
    file := if s.journal.persists now projects then some journal.persist else s.file }

def restart (s : State κ π) : State κ π := { s with journal := load s.file }

end State

end VibeField.Fieldd.KeyJournal
