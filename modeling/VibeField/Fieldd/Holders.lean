import VibeField.Base.Dict
import VibeField.Base.Machine

/-!
# The holders and their ledger

Each desktop publishes in a store what it holds, and the store drops its slice when the
transport drops the desktop.  The ledger remembers every holder heard beyond that, with the time
it was last heard; it is kept on disk, a holder that is present stamped at the moment of the
write, and one unheard for twice the horizon forgotten.  The compaction watermark stops waiting
for a holder unheard for the horizon.
-/

namespace VibeField.Fieldd

open List Option Dict

structure DocHolding where
  docId : String
  ackVersion : Option String
  headVersion : Option String
  deriving DecidableEq, Repr

abbrev Slice := Option (List DocHolding)

structure LedgerEntry where
  seenAt : Nat
  docs : List DocHolding
  deriving DecidableEq, Repr

structure LedgerFile where
  heard : Bool
  holders : Dict String LedgerEntry

structure StoreSnapshot where
  slices : List (String × Slice)
  nodup : (slices.map Prod.fst).Nodup

structure HolderAck (V : Type) where
  device : String
  ack : Option V
  seenAt : Nat
  deriving DecidableEq, Repr

/-- `store` is what the store has while this desktop is subscribed, `left` when a slice was last
there, `latest` the last slice of a device that parsed. -/
structure DocHolders where
  clock : Nat := 0
  running : Bool := false
  peers : Dict String (List DocHolding) := ∅
  ledger : Dict String LedgerEntry := ∅
  ledgerTimer : Bool := false
  heard : Bool := false
  file : Option LedgerFile := none
  store : String → Option Slice := fun _ => none
  left : String → Option Nat := fun _ => none
  latest : String → Option (List DocHolding) := fun _ => none

namespace DocHolders

/-! ## What the store says -/

def adopt (s : DocHolders) (device : String) : Slice → DocHolders
  | none => { s with peers := s.peers.erase device }
  | some docs =>
    { s with
      peers := s.peers.insert device docs
      ledger := s.ledger.insert device { seenAt := s.clock, docs := docs }
      ledgerTimer := true }

def lastHeard (s : DocHolders) (device : String) : DocHolders :=
  match s.ledger.lookup device with
  | none => s
  | some e =>
    { s with
      ledger := s.ledger.insert device { e with seenAt := s.clock }
      ledgerTimer := true }

def adoptAll (s : DocHolders) (slices : List (String × Slice)) : DocHolders :=
  slices.foldl (fun s p => s.adopt p.1 p.2) s

def lastHeardAll (s : DocHolders) (before : List String) : DocHolders :=
  before.foldl (fun s d => if (s.peers.lookup d).isSome then s else s.lastHeard d) s

def observe (s : DocHolders) (now : String → Option Slice) : DocHolders :=
  { s with
    store := now
    left := fun d => if (s.store d).isSome ∧ (now d).isNone then some s.clock else s.left d
    latest := fun d =>
      match now d with
      | some (some docs) => some docs
      | _ => s.latest d }

def adoptSnapshot (s : DocHolders) (snap : StoreSnapshot) : DocHolders :=
  let adopted := { s with peers := ∅ }.adoptAll snap.slices
  { adopted with
    heard := true
    ledgerTimer := adopted.ledgerTimer || !adopted.heard }

def onSnapshot (s : DocHolders) : Option StoreSnapshot → DocHolders
  | none => ({ s with peers := ∅ }.lastHeardAll s.peers.keys).observe fun _ => none
  | some snap =>
    ((s.adoptSnapshot snap).lastHeardAll s.peers.keys).observe fun d => snap.slices.lookup d

def onDelta (s : DocHolders) (device : String) (slice : Slice) : DocHolders :=
  (s.adopt device slice).observe fun d => if d = device then some slice else s.store d

def onRemoved (s : DocHolders) (device : String) : DocHolders :=
  ({ s with peers := s.peers.erase device }.lastHeard device).observe fun d =>
    if d = device then none else s.store d

/-! ## The ledger on disk -/

def ledgerJson (s : DocHolders) (retirementMs : Nat) : LedgerFile where
  heard := s.heard
  holders :=
    (s.ledger.retain fun d e =>
      (s.peers.lookup d).isSome || decide (s.clock - e.seenAt ≤ 2 * retirementMs)).mapVals
      fun d e =>
        match s.peers.lookup d with
        | some docs => { seenAt := s.clock, docs := docs }
        | none => e

def write (s : DocHolders) (retirementMs : Nat) : Option DocHolders :=
  if s.running ∧ s.ledgerTimer then
    some { s with file := some (s.ledgerJson retirementMs), ledgerTimer := false }
  else none

def close (s : DocHolders) : DocHolders :=
  { s.observe fun _ => none with running := false, ledgerTimer := false, peers := ∅ }

def stop (s : DocHolders) (retirementMs : Nat) : Option DocHolders :=
  if s.running then
    if s.ledgerTimer then
      some { s.close with
        file := some ({ s with peers := ∅ }.ledgerJson retirementMs) }
    else some s.close
  else none

def crash (s : DocHolders) : Option DocHolders :=
  if s.running then some s.close else none

def start (s : DocHolders) (retirementMs : Nat) : Option DocHolders :=
  if s.running then none
  else
    some { s with
      running := true
      heard := (s.file.map LedgerFile.heard).getD false
      ledger := ((s.file.map LedgerFile.holders).getD ∅).retain fun _ e =>
        decide (s.clock - e.seenAt ≤ 2 * retirementMs) }

/-! ## Who is reckoned with -/

section Acknowledgements

variable {V : Type} (self : String) (versionFromBase64 : String → Option V)

def acknowledgement (s : DocHolders) (docId device : String) : Option (HolderAck V) :=
  if device = self then none
  else
    (s.ledger.lookup device).bind fun entry =>
      (((s.peers.lookup device).getD entry.docs).find? fun doc => doc.docId = docId).map fun held =>
        { device := device
          ack := (held.ackVersion.or held.headVersion).bind versionFromBase64
          seenAt := if (s.peers.lookup device).isSome then s.clock else entry.seenAt }

def acknowledgements (s : DocHolders) (docId : String) : Option (List (HolderAck V)) :=
  if s.heard then
    some (s.ledger.keys.filterMap (s.acknowledgement self versionFromBase64 docId))
  else none

end Acknowledgements

def lastPresent (s : DocHolders) (device : String) : Option Nat :=
  if (s.store device).isSome then some s.clock else s.left device

end DocHolders

inductive HoldersEvent where
  | tick (ms : Nat)
  | snapshot (snapshot : Option StoreSnapshot)
  | delta (device : String) (slice : Slice)
  | peerRemoved (device : String)
  | write
  | stop
  | crash
  | start

section Runs

variable (retirementMs : Nat)

def DocHolders.next (s : DocHolders) : HoldersEvent → Option DocHolders
  | .tick ms => some { s with clock := s.clock + ms }
  | .snapshot snapshot => if s.running then some (s.onSnapshot snapshot) else none
  | .delta device slice => if s.running then some (s.onDelta device slice) else none
  | .peerRemoved device => if s.running then some (s.onRemoved device) else none
  | .write => s.write retirementMs
  | .stop => s.stop retirementMs
  | .crash => s.crash
  | .start => s.start retirementMs

def holdersMachine : Machine DocHolders HoldersEvent :=
  { start := {}, next := DocHolders.next retirementMs }

end Runs

namespace DocHolders

section Properties

variable {V : Type} (self : String) (versionFromBase64 : String → Option V) (retirementMs : Nat)

/-- A holder reported as unheard for longer than the horizon was not present within it. -/
def RetiresUnseen (s : DocHolders) : Prop :=
  s.running = true → ∀ docId acks, s.acknowledgements self versionFromBase64 docId = some acks →
    ∀ a ∈ acks, retirementMs < s.clock - a.seenAt →
      ∀ t, s.lastPresent a.device = some t → retirementMs < s.clock - t

/-- A holder heard to hold a canvas, whose latest slice names it, is reported until it has been
gone for twice the horizon. -/
def Remembers (s : DocHolders) : Prop :=
  s.running = true → ∀ docId acks, s.acknowledgements self versionFromBase64 docId = some acks →
    ∀ device docs, device ≠ self → s.latest device = some docs →
      (∃ doc ∈ docs, doc.docId = docId) →
        (∀ t, s.lastPresent device = some t → s.clock - t ≤ 2 * retirementMs) →
          ∃ a ∈ acks, a.device = device

end Properties

/-- What a stop or a crash leaves on disk of those present was stamped at that moment. -/
def Stamped (s : DocHolders) (holders : Dict String LedgerEntry) : Prop :=
  ∀ d ∈ s.peers.keys, ∀ e ∈ (holders.lookup d).toList, e.seenAt = s.clock

instance (s : DocHolders) (holders : Dict String LedgerEntry) : Decidable (s.Stamped holders) :=
  inferInstanceAs (Decidable (∀ d ∈ s.peers.keys, ∀ e ∈ (holders.lookup d).toList, _))

def fileHolders (s : DocHolders) : Dict String LedgerEntry :=
  (s.file.map LedgerFile.holders).getD ∅

def Orderly (s : DocHolders) : HoldersEvent → Prop
  | .snapshot snapshot => ∀ snap ∈ snapshot.toList, ∀ p ∈ snap.slices, p.2 = none →
      s.latest p.1 = none
  | .delta device slice => slice = none → s.latest device = none
  | .stop => s.Stamped (if s.ledgerTimer then s.ledger else s.fileHolders)
  | .crash => s.ledgerTimer = false ∧ s.Stamped s.fileHolders
  | _ => True

instance (s : DocHolders) : (e : HoldersEvent) → Decidable (s.Orderly e)
  | .snapshot snapshot => inferInstanceAs
      (Decidable (∀ snap ∈ snapshot.toList, ∀ p ∈ snap.slices, p.2 = none → s.latest p.1 = none))
  | .delta device slice => inferInstanceAs (Decidable (slice = none → s.latest device = none))
  | .stop => inferInstanceAs
      (Decidable (s.Stamped (if s.ledgerTimer then s.ledger else s.fileHolders)))
  | .crash => inferInstanceAs (Decidable (s.ledgerTimer = false ∧ s.Stamped s.fileHolders))
  | .tick _ => .isTrue trivial
  | .peerRemoved _ => .isTrue trivial
  | .write => .isTrue trivial
  | .start => .isTrue trivial

/-! ## What the store's events do to each device -/

/-- The slice of a device is as it was; or is heard; or does not parse; or is gone, and then the
device was stamped if it was present. -/
inductive Moves (s s' : DocHolders) (d : String) : Prop
  | still : s'.peers.lookup d = s.peers.lookup d → s'.ledger.lookup d = s.ledger.lookup d →
      s'.store d = s.store d → s'.left d = s.left d → s'.latest d = s.latest d → Moves s s' d
  | heard (docs : List DocHolding) : s'.peers.lookup d = some docs →
      s'.ledger.lookup d = some { seenAt := s.clock, docs := docs } →
      s'.store d = some (some docs) → s'.left d = s.left d → s'.latest d = some docs →
      s'.ledgerTimer = true → Moves s s' d
  | unparsed : s'.peers.lookup d = none → s'.ledger.lookup d = s.ledger.lookup d →
      s'.store d = some none → s'.left d = s.left d → s'.latest d = s.latest d →
      s.latest d = none → Moves s s' d
  | gone : s'.peers.lookup d = none → s'.store d = none →
      s'.left d = (if (s.store d).isSome then some s.clock else s.left d) →
      s'.latest d = s.latest d →
      ((s'.ledger.lookup d = s.ledger.lookup d ∧ s.peers.lookup d = none) ∨
        ∃ e, s.ledger.lookup d = some e ∧
          s'.ledger.lookup d = some { e with seenAt := s.clock } ∧ s'.ledgerTimer = true) →
      Moves s s' d

/-- What an event of the store leaves alone. -/
structure Heeds (s s' : DocHolders) : Prop where
  clock : s'.clock = s.clock
  running : s'.running = s.running
  file : s'.file = s.file
  timer : s'.ledgerTimer = false → s.ledgerTimer = false

theorem Heeds.trans {s t u : DocHolders} (h : Heeds s t) (h' : Heeds t u) : Heeds s u where
  clock := h'.clock.trans h.clock
  running := h'.running.trans h.running
  file := h'.file.trans h.file
  timer := fun ht => h.timer (h'.timer ht)

theorem Heeds.scheduled {s s' : DocHolders} (h : Heeds s s') (ht : s.ledgerTimer = true) :
    s'.ledgerTimer = true := by
  cases ht' : s'.ledgerTimer with
  | true => rfl
  | false => exact absurd ((h.timer ht').symm.trans ht) Bool.false_ne_true

/-- What the peers and the ledger are told, before the store is observed. -/
structure Tells (s s' : DocHolders) : Prop extends Heeds s s' where
  store : s'.store = s.store
  left : s'.left = s.left
  latest : s'.latest = s.latest

theorem Tells.refl (s : DocHolders) : Tells s s := ⟨⟨rfl, rfl, rfl, id⟩, rfl, rfl, rfl⟩

theorem Tells.trans {s t u : DocHolders} (h : Tells s t) (h' : Tells t u) : Tells s u where
  toHeeds := h.toHeeds.trans h'.toHeeds
  store := h'.store.trans h.store
  left := h'.left.trans h.left
  latest := h'.latest.trans h.latest

theorem heeds_observe (s : DocHolders) (now : String → Option Slice) : Heeds s (s.observe now) :=
  ⟨rfl, rfl, rfl, id⟩

section Effects

variable {s : DocHolders} {d device : String}

theorem tells_adopt (s : DocHolders) (device : String) (slice : Slice) :
    Tells s (s.adopt device slice) := by
  cases slice with
  | none => exact ⟨⟨rfl, rfl, rfl, id⟩, rfl, rfl, rfl⟩
  | some docs =>
    have ht : (s.adopt device (some docs)).ledgerTimer = false → s.ledgerTimer = false := by
      intro ht
      cases ht
    exact ⟨⟨rfl, rfl, rfl, ht⟩, rfl, rfl, rfl⟩

theorem peers_adopt (s : DocHolders) (device : String) (slice : Slice) (d : String) :
    (s.adopt device slice).peers.lookup d = if d = device then slice else s.peers.lookup d := by
  cases slice with
  | none => exact lookup_erase _ _ _
  | some docs => exact lookup_insert _ _ _ _

theorem ledger_adopt_ne (slice : Slice) (h : d ≠ device) :
    (s.adopt device slice).ledger.lookup d = s.ledger.lookup d := by
  cases slice with
  | none => rfl
  | some docs =>
    show (s.ledger.insert device _).lookup d = _
    rw [lookup_insert, if_neg h]

theorem ledger_adopt_self (docs : List DocHolding) :
    (s.adopt device (some docs)).ledger.lookup device =
      some { seenAt := s.clock, docs := docs } := by
  show (s.ledger.insert device _).lookup device = _
  rw [lookup_insert, if_pos rfl]

theorem tells_lastHeard (s : DocHolders) (device : String) : Tells s (s.lastHeard device) := by
  rw [lastHeard]
  split
  · exact Tells.refl s
  · refine ⟨⟨rfl, rfl, rfl, ?_⟩, rfl, rfl, rfl⟩
    intro ht
    cases ht

theorem peers_lastHeard (s : DocHolders) (device : String) :
    (s.lastHeard device).peers = s.peers := by
  rw [lastHeard]
  split <;> rfl

theorem ledger_lastHeard_ne (h : d ≠ device) :
    (s.lastHeard device).ledger.lookup d = s.ledger.lookup d := by
  rw [lastHeard]
  split
  · rfl
  · show (s.ledger.insert device _).lookup d = _
    rw [lookup_insert, if_neg h]

theorem lastHeard_of_none (h : s.ledger.lookup device = none) : s.lastHeard device = s := by
  rw [lastHeard, h]

theorem ledger_lastHeard_self {e : LedgerEntry} (h : s.ledger.lookup device = some e) :
    (s.lastHeard device).ledger.lookup device = some { e with seenAt := s.clock } ∧
      (s.lastHeard device).ledgerTimer = true := by
  rw [lastHeard, h]
  refine ⟨?_, rfl⟩
  show (s.ledger.insert device _).lookup device = _
  rw [lookup_insert, if_pos rfl]

theorem lastHeard_stamps (s : DocHolders) (device : String) :
    (s.ledger.lookup device = none ∧ (s.lastHeard device).ledger.lookup device = none) ∨
      ∃ e, s.ledger.lookup device = some e ∧
        (s.lastHeard device).ledger.lookup device = some { e with seenAt := s.clock } ∧
          (s.lastHeard device).ledgerTimer = true := by
  cases he : s.ledger.lookup device with
  | none =>
    left
    rw [lastHeard_of_none he]
    exact ⟨rfl, he⟩
  | some e => exact .inr ⟨e, rfl, ledger_lastHeard_self he⟩

theorem tells_adoptAll (slices : List (String × Slice)) :
    ∀ s : DocHolders, Tells s (s.adoptAll slices) := by
  induction slices with
  | nil => exact Tells.refl
  | cons p rest ih => exact fun s => (tells_adopt s p.1 p.2).trans (ih _)

variable {now : String → Option Slice} {slice : Slice} {slices : List (String × Slice)}

theorem lookup_of_notMem (h : d ∉ slices.map Prod.fst) : slices.lookup d = none := by
  rw [lookup_eq_none_iff]
  intro p hp
  have hne : d ≠ p.1 := by
    rintro rfl
    exact h (List.mem_map_of_mem hp)
  simpa using hne

theorem lookup_cons_self (p : String × Slice) (rest : List (String × Slice)) :
    (p :: rest).lookup p.1 = some p.2 := by
  rw [lookup_cons, beq_self_eq_true]

theorem lookup_cons_ne {p : String × Slice} (rest : List (String × Slice)) (h : d ≠ p.1) :
    (p :: rest).lookup d = rest.lookup d := by
  rw [lookup_cons, beq_false_of_ne h]

theorem peers_adoptAll (hn : (slices.map Prod.fst).Nodup) (s : DocHolders) :
    (s.adoptAll slices).peers.lookup d = (slices.lookup d).getD (s.peers.lookup d) := by
  induction slices generalizing s with
  | nil => rfl
  | cons p rest ih =>
    obtain ⟨hp, hrest⟩ := nodup_cons.mp hn
    show ((s.adopt p.1 p.2).adoptAll rest).peers.lookup d = _
    rw [ih hrest, peers_adopt]
    by_cases hd : d = p.1
    · subst hd
      rw [lookup_of_notMem hp, lookup_cons_self, if_pos rfl]
      rfl
    · rw [lookup_cons_ne rest hd, if_neg hd]

theorem ledger_adoptAll_else (hn : (slices.map Prod.fst).Nodup)
    (hd : ∀ docs, slices.lookup d ≠ some (some docs)) (s : DocHolders) :
    (s.adoptAll slices).ledger.lookup d = s.ledger.lookup d := by
  induction slices generalizing s with
  | nil => rfl
  | cons p rest ih =>
    obtain ⟨hp, hrest⟩ := nodup_cons.mp hn
    show ((s.adopt p.1 p.2).adoptAll rest).ledger.lookup d = _
    by_cases hdp : d = p.1
    · subst hdp
      have hrest' : ∀ docs, rest.lookup p.1 ≠ some (some docs) := by
        intro docs
        rw [lookup_of_notMem hp]
        exact some_ne_none _ |>.symm
      rw [ih hrest hrest']
      obtain ⟨device, _ | docs⟩ := p
      · rfl
      · exact absurd (lookup_cons_self _ _) (hd docs)
    · have hrest' : ∀ docs, rest.lookup d ≠ some (some docs) := by
        intro docs
        rw [← lookup_cons_ne rest hdp]
        exact hd docs
      rw [ih hrest hrest', ledger_adopt_ne _ hdp]

theorem ledger_adoptAll_heard {docs : List DocHolding} (hn : (slices.map Prod.fst).Nodup)
    (hd : slices.lookup d = some (some docs)) (s : DocHolders) :
    (s.adoptAll slices).ledger.lookup d = some { seenAt := s.clock, docs := docs } ∧
      ((s.adoptAll slices).ledgerTimer = true) := by
  induction slices generalizing s with
  | nil => cases hd
  | cons p rest ih =>
    obtain ⟨hp, hrest⟩ := nodup_cons.mp hn
    show ((s.adopt p.1 p.2).adoptAll rest).ledger.lookup d = _ ∧ _
    by_cases hdp : d = p.1
    · subst hdp
      rw [lookup_cons_self] at hd
      have hslice : p.2 = some docs := some.inj hd
      have hrest' : ∀ docs, rest.lookup p.1 ≠ some (some docs) := by
        intro docs
        rw [lookup_of_notMem hp]
        exact some_ne_none _ |>.symm
      have htells := tells_adoptAll rest (s.adopt p.1 (some docs))
      rw [hslice, ledger_adoptAll_else hrest hrest']
      refine ⟨ledger_adopt_self docs, ?_⟩
      show ((s.adopt p.1 p.2).adoptAll rest).ledgerTimer = true
      rw [hslice]
      exact htells.scheduled rfl
    · rw [lookup_cons_ne rest hdp] at hd
      obtain ⟨hledger, htimer⟩ := ih hrest hd (s.adopt p.1 p.2)
      rw [(tells_adopt s p.1 p.2).clock] at hledger
      exact ⟨hledger, htimer⟩

theorem peers_lastHeardAll (before : List String) :
    ∀ s : DocHolders, (s.lastHeardAll before).peers = s.peers := by
  induction before with
  | nil => exact fun _ => rfl
  | cons b rest ih =>
    intro s
    show (DocHolders.lastHeardAll (if _ then s else s.lastHeard b) rest).peers = _
    rw [ih]
    split
    · rfl
    · exact peers_lastHeard s b

theorem tells_lastHeardAll (before : List String) :
    ∀ s : DocHolders, Tells s (s.lastHeardAll before) := by
  induction before with
  | nil => exact Tells.refl
  | cons b rest ih =>
    intro s
    show Tells s (DocHolders.lastHeardAll (if _ then s else s.lastHeard b) rest)
    split
    · exact ih s
    · exact (tells_lastHeard s b).trans (ih _)

theorem ledger_lastHeardAll_else {before : List String} (s : DocHolders)
    (h : (s.peers.lookup d).isSome ∨ d ∉ before) :
    (s.lastHeardAll before).ledger.lookup d = s.ledger.lookup d := by
  induction before generalizing s with
  | nil => rfl
  | cons b rest ih =>
    show (DocHolders.lastHeardAll (if _ then s else s.lastHeard b) rest).ledger.lookup d = _
    by_cases hb : (s.peers.lookup b).isSome
    · rw [if_pos hb]
      exact ih s (h.imp_right fun hn hm => hn (mem_cons_of_mem b hm))
    · have hne : d ≠ b := by
        rintro rfl
        exact h.elim hb fun hn => hn mem_cons_self
      have h' : ((s.lastHeard b).peers.lookup d).isSome ∨ d ∉ rest := by
        rw [peers_lastHeard]
        exact h.imp_right fun hn hm => hn (mem_cons_of_mem b hm)
      rw [if_neg hb, ih _ h', ledger_lastHeard_ne hne]

theorem lastHeardAll_stamps {before : List String} (s : DocHolders) {e : LedgerEntry}
    (hd : d ∈ before) (hp : s.peers.lookup d = none) (he : s.ledger.lookup d = some e) :
    (s.lastHeardAll before).ledger.lookup d = some { e with seenAt := s.clock } ∧
      (s.lastHeardAll before).ledgerTimer = true := by
  induction before generalizing s e with
  | nil => cases hd
  | cons b rest ih =>
    show (DocHolders.lastHeardAll (if _ then s else s.lastHeard b) rest).ledger.lookup d = _ ∧
      (DocHolders.lastHeardAll (if _ then s else s.lastHeard b) rest).ledgerTimer = true
    by_cases hb : (s.peers.lookup b).isSome
    · have hne : d ≠ b := by
        rintro rfl
        rw [hp] at hb
        cases hb
      rw [if_pos hb]
      exact ih s ((mem_cons.mp hd).resolve_left hne) hp he
    · rw [if_neg hb]
      have hclock := (tells_lastHeard s b).clock
      have hp' : (s.lastHeard b).peers.lookup d = none := by rw [peers_lastHeard, hp]
      by_cases hne : d = b
      · subst hne
        obtain ⟨hself, htimer⟩ := ledger_lastHeard_self he
        by_cases hrest : d ∈ rest
        · obtain ⟨hl, ht⟩ := ih _ hrest hp' hself
          rw [hclock] at hl
          exact ⟨hl, ht⟩
        · rw [ledger_lastHeardAll_else _ (.inr hrest)]
          exact ⟨hself, (tells_lastHeardAll rest _).scheduled htimer⟩
      · obtain ⟨hl, ht⟩ := ih _ ((mem_cons.mp hd).resolve_left hne) hp'
          ((ledger_lastHeard_ne hne).trans he)
        rw [hclock] at hl
        exact ⟨hl, ht⟩

/-! ## Each event of the store -/

theorem left_observe_some (s : DocHolders) (h : now d = some slice) :
    (s.observe now).left d = s.left d := by
  show (if (s.store d).isSome ∧ (now d).isNone then some s.clock else s.left d) = _
  rw [h, if_neg]
  rintro ⟨-, hnone⟩
  cases hnone

theorem left_observe_none (s : DocHolders) (h : now d = none) :
    (s.observe now).left d = if (s.store d).isSome then some s.clock else s.left d := by
  show (if (s.store d).isSome ∧ (now d).isNone then some s.clock else s.left d) = _
  rw [h]
  simp

theorem latest_observe_some {docs : List DocHolding} (s : DocHolders)
    (h : now d = some (some docs)) : (s.observe now).latest d = some docs := by
  show (match now d with | some (some docs) => some docs | _ => s.latest d) = _
  rw [h]

theorem latest_observe_else (s : DocHolders) (h : ∀ docs, now d ≠ some (some docs)) :
    (s.observe now).latest d = s.latest d := by
  show (match now d with | some (some docs) => some docs | _ => s.latest d) = _
  split
  · next docs hdocs => exact absurd hdocs (h docs)
  · rfl

theorem observe_still {s s' : DocHolders} (htells : Tells s s')
    (htold : ∀ docs, s.store d = some (some docs) → s.latest d = some docs)
    (h : now d = s.store d) :
    (s'.observe now).left d = s.left d ∧ (s'.observe now).latest d = s.latest d := by
  constructor
  · cases hs : s.store d with
    | none => rw [left_observe_none s' (h.trans hs), htells.store, htells.left, hs]; rfl
    | some slice => rw [left_observe_some s' (h.trans hs), htells.left]
  · by_cases hheard : ∃ docs, now d = some (some docs)
    · obtain ⟨docs, hdocs⟩ := hheard
      rw [latest_observe_some s' hdocs, htold docs (h.symm.trans hdocs)]
    · rw [latest_observe_else s' fun docs hdocs => hheard ⟨docs, hdocs⟩, htells.latest]

theorem moves_onDelta (hun : slice = none → s.latest device = none)
    (htold : ∀ docs, s.store d = some (some docs) → s.latest d = some docs) :
    Moves s (s.onDelta device slice) d := by
  have htells := tells_adopt s device slice
  have hpeers := peers_adopt s device slice d
  by_cases hd : d = device
  · subst hd
    rw [if_pos rfl] at hpeers
    have hstore : (s.onDelta d slice).store d = some slice := if_pos rfl
    have hleft : (s.onDelta d slice).left d = s.left d :=
      (left_observe_some _ hstore).trans (by rw [htells.left])
    cases slice with
    | none =>
      have hlatest : (s.onDelta d none).latest d = s.latest d := by
        refine (latest_observe_else _ ?_).trans (by rw [htells.latest])
        intro docs h
        rw [if_pos rfl] at h
        cases h
      exact .unparsed hpeers rfl hstore hleft hlatest (hun rfl)
    | some docs =>
      exact .heard docs hpeers (ledger_adopt_self docs) hstore hleft
        (latest_observe_some _ hstore) rfl
  · rw [if_neg hd] at hpeers
    have hnow : (s.onDelta device slice).store d = s.store d := if_neg hd
    obtain ⟨hleft, hlatest⟩ := observe_still htells htold hnow
    exact .still hpeers (ledger_adopt_ne slice hd) hnow hleft hlatest

theorem heeds_onDelta (s : DocHolders) (device : String) (slice : Slice) :
    Heeds s (s.onDelta device slice) :=
  (tells_adopt s device slice).toHeeds.trans (heeds_observe _ _)

theorem heeds_onRemoved (s : DocHolders) (device : String) : Heeds s (s.onRemoved device) := by
  have hgone : Heeds s { s with peers := s.peers.erase device } := ⟨rfl, rfl, rfl, id⟩
  exact (hgone.trans (tells_lastHeard _ device).toHeeds).trans (heeds_observe _ _)

theorem moves_onRemoved (hrec : s.peers.lookup device ≠ none → s.ledger.lookup device ≠ none)
    (htold : ∀ docs, s.store d = some (some docs) → s.latest d = some docs) :
    Moves s (s.onRemoved device) d := by
  have hdrop : Tells s { s with peers := s.peers.erase device } :=
    ⟨⟨rfl, rfl, rfl, id⟩, rfl, rfl, rfl⟩
  have htells := hdrop.trans (tells_lastHeard _ device)
  have hpeers : (s.onRemoved device).peers.lookup d =
      if d = device then none else s.peers.lookup d := by
    show (DocHolders.lastHeard _ device).peers.lookup d = _
    rw [peers_lastHeard, lookup_erase]
  by_cases hd : d = device
  · subst hd
    rw [if_pos rfl] at hpeers
    have hstore : (s.onRemoved d).store d = none := if_pos rfl
    have hleft : (s.onRemoved d).left d = if (s.store d).isSome then some s.clock else s.left d := by
      refine (left_observe_none _ hstore).trans ?_
      rw [htells.store, htells.left, htells.clock]
    have hlatest : (s.onRemoved d).latest d = s.latest d := by
      refine (latest_observe_else _ ?_).trans (by rw [htells.latest])
      intro docs h
      rw [if_pos rfl] at h
      cases h
    refine .gone hpeers hstore hleft hlatest ?_
    obtain ⟨hnone, hsame⟩ | hstamped := lastHeard_stamps { s with peers := s.peers.erase d } d
    · left
      refine ⟨hsame.trans hnone.symm, ?_⟩
      by_contra h
      exact hrec h hnone
    · exact .inr hstamped
  · rw [if_neg hd] at hpeers
    have hnow : (s.onRemoved device).store d = s.store d := if_neg hd
    obtain ⟨hleft, hlatest⟩ := observe_still htells htold hnow
    exact .still hpeers (ledger_lastHeard_ne hd) hnow hleft hlatest

theorem gone_lastHeardAll {s s' : DocHolders}
    (hrec : s.peers.lookup d ≠ none → s.ledger.lookup d ≠ none) (htells : Tells s s')
    (hledger : s'.ledger.lookup d = s.ledger.lookup d) (hpeers : s'.peers.lookup d = none)
    (hnow : now d = none) : Moves s ((s'.lastHeardAll s.peers.keys).observe now) d := by
  have htells' := htells.trans (tells_lastHeardAll s.peers.keys s')
  have hgone : ((s'.lastHeardAll s.peers.keys).observe now).peers.lookup d = none := by
    show (s'.lastHeardAll s.peers.keys).peers.lookup d = none
    rw [peers_lastHeardAll, hpeers]
  have hleft : ((s'.lastHeardAll s.peers.keys).observe now).left d =
      if (s.store d).isSome then some s.clock else s.left d := by
    rw [left_observe_none _ hnow, htells'.store, htells'.left, htells'.clock]
  have hlatest : ((s'.lastHeardAll s.peers.keys).observe now).latest d = s.latest d := by
    rw [latest_observe_else _ ?_, htells'.latest]
    intro docs h
    rw [hnow] at h
    cases h
  refine .gone hgone hnow hleft hlatest ?_
  cases hp : s.peers.lookup d with
  | none =>
    left
    refine ⟨?_, rfl⟩
    have hd : d ∉ s.peers.keys := by
      intro h
      obtain ⟨docs, hdocs⟩ := Dict.mem_keys.mp h
      rw [hp] at hdocs
      cases hdocs
    exact (ledger_lastHeardAll_else s' (.inr hd)).trans hledger
  | some docs =>
    right
    obtain ⟨e, he⟩ := ne_none_iff_exists'.mp (hrec (by rw [hp]; exact some_ne_none _))
    have hd : d ∈ s.peers.keys := Dict.mem_keys.mpr ⟨docs, hp⟩
    obtain ⟨hl, ht⟩ := lastHeardAll_stamps s' hd hpeers (hledger.trans he)
    rw [htells.clock] at hl
    exact ⟨e, he, hl, ht⟩

theorem tells_adoptSnapshot (s : DocHolders) (snap : StoreSnapshot) :
    Tells s (s.adoptSnapshot snap) := by
  have hclear : Tells s { s with peers := ∅ } := ⟨⟨rfl, rfl, rfl, id⟩, rfl, rfl, rfl⟩
  have h := hclear.trans (tells_adoptAll snap.slices _)
  refine ⟨⟨h.clock, h.running, h.file, ?_⟩, h.store, h.left, h.latest⟩
  intro ht
  exact h.timer (Bool.or_eq_false_iff.mp ht).1

theorem peers_adoptSnapshot (s : DocHolders) (snap : StoreSnapshot) (d : String) :
    (s.adoptSnapshot snap).peers.lookup d = (snap.slices.lookup d).getD none :=
  peers_adoptAll snap.nodup _

theorem mem_of_lookup (h : slices.lookup d = some slice) : (d, slice) ∈ slices := by
  obtain ⟨l₁, l₂, rfl, -⟩ := lookup_eq_some_iff.mp h
  exact mem_append_right l₁ mem_cons_self

theorem heeds_onSnapshot (s : DocHolders) (snapshot : Option StoreSnapshot) :
    Heeds s (s.onSnapshot snapshot) := by
  cases snapshot with
  | none =>
    have hclear : Heeds s { s with peers := ∅ } := ⟨rfl, rfl, rfl, id⟩
    exact (hclear.trans (tells_lastHeardAll _ _).toHeeds).trans (heeds_observe _ _)
  | some snap =>
    have h := (tells_adoptSnapshot s snap).trans (tells_lastHeardAll s.peers.keys _)
    exact h.toHeeds.trans (heeds_observe _ _)

theorem moves_onSnapshot {snapshot : Option StoreSnapshot}
    (hrec : s.peers.lookup d ≠ none → s.ledger.lookup d ≠ none)
    (hlive : s.latest d = none → s.peers.lookup d = none)
    (hun : ∀ snap ∈ snapshot.toList, ∀ p ∈ snap.slices, p.2 = none → s.latest p.1 = none) :
    Moves s (s.onSnapshot snapshot) d := by
  cases snapshot with
  | none =>
    have hclear : Tells s { s with peers := ∅ } := ⟨⟨rfl, rfl, rfl, id⟩, rfl, rfl, rfl⟩
    exact gone_lastHeardAll hrec hclear rfl rfl rfl
  | some snap =>
    have htells := tells_adoptSnapshot s snap
    have htells' := htells.trans (tells_lastHeardAll s.peers.keys _)
    have hpeers := peers_adoptSnapshot s snap d
    have hpeers' : (s.onSnapshot (some snap)).peers.lookup d =
        (snap.slices.lookup d).getD none := by
      show ((s.adoptSnapshot snap).lastHeardAll s.peers.keys).peers.lookup d = _
      rw [peers_lastHeardAll, hpeers]
    cases hs : snap.slices.lookup d with
    | none =>
      have hledger : (s.adoptSnapshot snap).ledger.lookup d = s.ledger.lookup d :=
        ledger_adoptAll_else snap.nodup (fun docs h => by rw [hs] at h; cases h) _
      exact gone_lastHeardAll hrec htells hledger (by rw [hpeers, hs]; rfl) hs
    | some slice =>
      have hleft : (s.onSnapshot (some snap)).left d = s.left d :=
        (left_observe_some _ hs).trans (by rw [htells'.left])
      rw [hs] at hpeers hpeers'
      cases slice with
      | none =>
        have hlatest : s.latest d = none :=
          hun snap (mem_toList.mpr rfl) _ (mem_of_lookup hs) rfl
        have hsame : (s.onSnapshot (some snap)).latest d = s.latest d := by
          refine (latest_observe_else _ ?_).trans (by rw [htells'.latest])
          intro docs h
          rw [hs] at h
          cases h
        have hd : d ∉ s.peers.keys := by
          intro h
          obtain ⟨docs, hdocs⟩ := Dict.mem_keys.mp h
          rw [hlive hlatest] at hdocs
          cases hdocs
        have hledger : (s.onSnapshot (some snap)).ledger.lookup d = s.ledger.lookup d := by
          refine (ledger_lastHeardAll_else _ (.inr hd)).trans ?_
          exact ledger_adoptAll_else snap.nodup (fun docs h => by rw [hs] at h; cases h) _
        exact .unparsed hpeers' hledger hs hleft hsame hlatest
      | some docs =>
        obtain ⟨hledger, htimer⟩ := ledger_adoptAll_heard snap.nodup hs { s with peers := ∅ }
        have htimer' : (s.adoptSnapshot snap).ledgerTimer = true := by
          show (_ || _) = true
          rw [htimer, Bool.true_or]
        have hpresent : ((s.adoptSnapshot snap).peers.lookup d).isSome := by
          rw [hpeers]
          rfl
        have hkept := ledger_lastHeardAll_else (s.adoptSnapshot snap)
          (.inl hpresent : _ ∨ d ∉ s.peers.keys)
        exact .heard docs hpeers' (hkept.trans hledger) hs hleft (latest_observe_some _ hs)
          ((tells_lastHeardAll s.peers.keys _).scheduled htimer')

end Effects

/-! ## What a run keeps of each device -/

section Sound

variable (retirementMs : Nat)

/-- Gone for longer than a ledger remembers. -/
def Forgotten (s : DocHolders) (d : String) : Prop :=
  s.store d = none ∧ ∃ t, s.left d = some t ∧ 2 * retirementMs < s.clock - t

/-- A ledger that has `e` for the device has its latest slice, stamped no earlier than its
absence; one that has nothing for a device heard once may have forgotten it. -/
structure Kept (s : DocHolders) (d : String) (e : Option LedgerEntry) : Prop where
  latest : ∀ entry, e = some entry → s.latest d = some entry.docs
  stamped : ∀ entry, e = some entry → s.peers.lookup d = none →
    ∀ t, s.left d = some t → t ≤ entry.seenAt
  forgotten : e = none → s.latest d ≠ none → s.Forgotten retirementMs d

structure SoundAt (s : DocHolders) (d : String) : Prop where
  live : ∀ docs, s.peers.lookup d = some docs ↔ s.store d = some (some docs)
  told : ∀ docs, s.store d = some (some docs) → s.latest d = some docs
  unparsed : s.store d = some none → s.latest d = none
  parted : s.store d = none → s.latest d ≠ none → ∃ t, s.left d = some t
  past : ∀ t, s.left d = some t → t ≤ s.clock
  ledger : s.running = true → s.Kept retirementMs d (s.ledger.lookup d)
  saved : s.ledgerTimer = false → s.Kept retirementMs d (s.fileHolders.lookup d)
  asleep : s.running = false → s.ledgerTimer = false ∧ s.store d = none

def Sound (s : DocHolders) : Prop := ∀ d, s.SoundAt retirementMs d

variable {retirementMs} {s s' : DocHolders} {d : String} {e : Option LedgerEntry}

theorem Forgotten.later (h : s.Forgotten retirementMs d) (hstore : s'.store d = s.store d)
    (hleft : s'.left d = s.left d) (hclock : s.clock ≤ s'.clock) :
    s'.Forgotten retirementMs d := by
  obtain ⟨hnone, t, ht, hlong⟩ := h
  exact ⟨hstore.trans hnone, t, hleft.trans ht, by omega⟩

theorem Kept.later (h : s.Kept retirementMs d e) (hpeers : s'.peers.lookup d = s.peers.lookup d)
    (hstore : s'.store d = s.store d) (hleft : s'.left d = s.left d)
    (hlatest : s'.latest d = s.latest d) (hclock : s.clock ≤ s'.clock) :
    s'.Kept retirementMs d e where
  latest := fun entry he => hlatest.trans (h.latest entry he)
  stamped := by
    intro entry he hp t ht
    exact h.stamped entry he (hpeers.symm.trans hp) t (hleft.symm.trans ht)
  forgotten := by
    intro he hl
    exact (h.forgotten he (by rwa [hlatest] at hl)).later hstore hleft hclock

theorem Kept.of_unparsed (h : s.Kept retirementMs d e) (hnone : s.latest d = none)
    (hlatest : s'.latest d = s.latest d) : s'.Kept retirementMs d e where
  latest := by
    intro entry he
    rw [h.latest entry he] at hnone
    cases hnone
  stamped := by
    intro entry he
    rw [h.latest entry he] at hnone
    cases hnone
  forgotten := fun _ hl => absurd (hlatest.trans hnone) hl

theorem SoundAt.store_of_absent (h : s.SoundAt retirementMs d) (hp : s.peers.lookup d = none)
    (hl : s.latest d ≠ none) : s.store d = none := by
  rcases hs : s.store d with _ | _ | docs
  · rfl
  · exact absurd (h.unparsed hs) hl
  · rw [(h.live docs).mpr hs] at hp
    cases hp

theorem Kept.of_absent (h : s.Kept retirementMs d e) (hs : s.SoundAt retirementMs d)
    (hp : s.peers.lookup d = none) (hstore : s'.store d = none)
    (hleft : s'.left d = if (s.store d).isSome then some s.clock else s.left d)
    (hlatest : s'.latest d = s.latest d) (hclock : s.clock ≤ s'.clock) :
    s'.Kept retirementMs d e := by
  by_cases hl : s.latest d = none
  · exact h.of_unparsed hl hlatest
  · have hgone := hs.store_of_absent hp hl
    rw [hgone] at hleft
    refine ⟨fun entry he => hlatest.trans (h.latest entry he), ?_, ?_⟩
    · intro entry he _ t ht
      exact h.stamped entry he hp t (hleft.symm.trans ht)
    · intro he _
      exact (h.forgotten he hl).later (hstore.trans hgone.symm) hleft hclock

theorem SoundAt.moves (h : s.SoundAt retirementMs d) (hr : s.running = true) (hh : Heeds s s')
    (hm : Moves s s' d) : s'.SoundAt retirementMs d := by
  have hfile : s'.fileHolders = s.fileHolders := by rw [fileHolders, fileHolders, hh.file]
  have hclock : s.clock ≤ s'.clock := Nat.le_of_eq hh.clock.symm
  have hawake : s'.running = false → s'.ledgerTimer = false ∧ s'.store d = none := by
    intro hr'
    rw [hh.running, hr] at hr'
    cases hr'
  have hsaved : s'.ledgerTimer = false → s.Kept retirementMs d (s'.fileHolders.lookup d) := by
    intro ht
    rw [hfile]
    exact h.saved (hh.timer ht)
  cases hm with
  | still hpeers hledger hstore hleft hlatest =>
    refine ⟨?_, ?_, ?_, ?_, ?_, ?_, ?_, hawake⟩
    · rw [hpeers, hstore]; exact h.live
    · rw [hstore, hlatest]; exact h.told
    · rw [hstore, hlatest]; exact h.unparsed
    · rw [hstore, hlatest, hleft]; exact h.parted
    · rw [hleft, hh.clock]; exact h.past
    · intro _
      rw [hledger]
      exact (h.ledger hr).later hpeers hstore hleft hlatest hclock
    · exact fun ht => (hsaved ht).later hpeers hstore hleft hlatest hclock
  | heard docs hpeers hledger hstore hleft hlatest htimer =>
    have hfresh : s'.Kept retirementMs d (s'.ledger.lookup d) := by
      rw [hledger]
      refine ⟨?_, ?_, fun h => by cases h⟩
      · intro entry he
        cases he
        exact hlatest
      · intro entry _ hp
        rw [hpeers] at hp
        cases hp
    refine ⟨?_, ?_, ?_, ?_, ?_, fun _ => hfresh, ?_, hawake⟩
    · intro docs'
      rw [hpeers, hstore]
      simp
    · intro docs' h'
      rw [hstore] at h'
      cases h'
      exact hlatest
    · intro h'
      rw [hstore] at h'
      cases h'
    · intro h'
      rw [hstore] at h'
      cases h'
    · rw [hleft, hh.clock]; exact h.past
    · intro ht
      rw [htimer] at ht
      cases ht
  | unparsed hpeers hledger hstore hleft hlatest hnone =>
    have hnone' := hlatest.trans hnone
    refine ⟨?_, ?_, fun _ => hnone', fun _ hl => absurd hnone' hl, ?_, ?_, ?_, hawake⟩
    · intro docs
      rw [hpeers, hstore]
      simp
    · intro docs h'
      rw [hstore] at h'
      cases h'
    · rw [hleft, hh.clock]; exact h.past
    · intro _
      rw [hledger]
      exact (h.ledger hr).of_unparsed hnone hlatest
    · exact fun ht => (hsaved ht).of_unparsed hnone hlatest
  | gone hpeers hstore hleft hlatest hledger =>
    have hpast : ∀ t, s'.left d = some t → t ≤ s.clock := by
      intro t ht
      rw [hleft] at ht
      split at ht
      · cases ht
        exact Nat.le_refl _
      · exact h.past t ht
    refine ⟨?_, ?_, ?_, ?_, ?_, ?_, ?_, hawake⟩
    · intro docs
      rw [hpeers, hstore]
      simp
    · intro docs h'
      rw [hstore] at h'
      cases h'
    · intro h'
      rw [hstore] at h'
      cases h'
    · intro _ hl
      rw [hleft]
      split
      · exact ⟨_, rfl⟩
      · next hs => exact h.parted (not_isSome_iff_eq_none.mp hs) (by rwa [hlatest] at hl)
    · rw [hh.clock]; exact hpast
    · intro _
      obtain ⟨hsame, hp⟩ | ⟨entry, he, hstamp, -⟩ := hledger
      · rw [hsame]
        exact (h.ledger hr).of_absent h hp hstore hleft hlatest hclock
      · rw [hstamp]
        refine ⟨?_, ?_, fun h => by cases h⟩
        · intro entry' he'
          cases he'
          exact hlatest.trans ((h.ledger hr).latest entry he)
        · intro entry' he' _
          cases he'
          exact hpast
    · intro ht
      obtain ⟨-, hp⟩ | ⟨_, _, _, htimer⟩ := hledger
      · exact (hsaved ht).of_absent h hp hstore hleft hlatest hclock
      · rw [htimer] at ht
        cases ht

theorem SoundAt.recorded (h : s.SoundAt retirementMs d) (hr : s.running = true)
    (hp : s.peers.lookup d ≠ none) : s.ledger.lookup d ≠ none := by
  intro hl
  obtain ⟨docs, hdocs⟩ := ne_none_iff_exists'.mp hp
  have hstore := (h.live docs).mp hdocs
  have hlatest : s.latest d ≠ none := by
    rw [h.told docs hstore]
    exact some_ne_none _
  obtain ⟨hnone, -⟩ := (h.ledger hr).forgotten hl hlatest
  rw [hstore] at hnone
  cases hnone

theorem SoundAt.unheard (h : s.SoundAt retirementMs d) (hl : s.latest d = none) :
    s.peers.lookup d = none := by
  cases hp : s.peers.lookup d with
  | none => rfl
  | some docs =>
    rw [h.told docs ((h.live docs).mp hp)] at hl
    cases hl

/-! ## The ledger's file -/

theorem lookup_ledgerJson (s : DocHolders) (d : String) :
    (s.ledgerJson retirementMs).holders.lookup d =
      ((s.ledger.lookup d).filter fun e =>
        (s.peers.lookup d).isSome || decide (s.clock - e.seenAt ≤ 2 * retirementMs)).map fun e =>
          match s.peers.lookup d with
          | some docs => { seenAt := s.clock, docs := docs }
          | none => e := by
  rw [ledgerJson, lookup_mapVals, lookup_retain]

theorem Kept.filter (h : s.Kept retirementMs d e) (hp : s.peers.lookup d = none)
    (hgone : s.latest d ≠ none → s.store d = none ∧ ∃ t, s.left d = some t) :
    s.Kept retirementMs d (e.filter fun e => decide (s.clock - e.seenAt ≤ 2 * retirementMs)) := by
  cases e with
  | none => exact h
  | some entry =>
    by_cases hold : s.clock - entry.seenAt ≤ 2 * retirementMs
    · rw [filter_some_pos (by simpa using hold)]
      exact h
    · rw [filter_some_neg (by simpa using hold)]
      refine ⟨?_, ?_, ?_⟩
      · intro _ h
        cases h
      · intro _ h
        cases h
      · intro _ hl
        obtain ⟨hstore, t, ht⟩ := hgone hl
        have hle := h.stamped entry rfl hp t ht
        exact ⟨hstore, t, ht, by omega⟩

theorem SoundAt.gone (h : s.SoundAt retirementMs d) (hp : s.peers.lookup d = none)
    (hl : s.latest d ≠ none) : s.store d = none ∧ ∃ t, s.left d = some t :=
  ⟨h.store_of_absent hp hl, h.parted (h.store_of_absent hp hl) hl⟩

theorem SoundAt.write (h : s.SoundAt retirementMs d) (hr : s.running = true) :
    SoundAt retirementMs
      { s with file := some (s.ledgerJson retirementMs), ledgerTimer := false } d := by
  have hkept := h.ledger hr
  refine { h with ledger := ?_, saved := ?_, asleep := ?_ }
  · intro _
    exact hkept.later rfl rfl rfl rfl (Nat.le_refl _)
  · intro _
    show Kept retirementMs _ d ((s.ledgerJson retirementMs).holders.lookup d)
    rw [lookup_ledgerJson]
    cases hp : s.peers.lookup d with
    | none =>
      simp only [isSome_none, Bool.false_or, Option.map_id']
      exact (hkept.filter hp (h.gone hp)).later rfl rfl rfl rfl (Nat.le_refl _)
    | some docs =>
      obtain ⟨e, he⟩ := ne_none_iff_exists'.mp
        (h.recorded hr (by rw [hp]; exact some_ne_none _))
      rw [he, filter_some_pos rfl, map_some]
      refine ⟨?_, ?_, ?_⟩
      · intro entry hentry
        cases hentry
        exact h.told docs ((h.live docs).mp hp)
      · intro _ _ hnone
        exact absurd (hp.symm.trans hnone) (some_ne_none _)
      · intro hnone
        cases hnone
  · intro hr'
    rw [show s.running = false from hr'] at hr
    cases hr

/-! ## The end of a process and the next -/

theorem Stamped.seenAt {holders : Dict String LedgerEntry} (h : s.Stamped holders)
    (hp : s.peers.lookup d ≠ none) : ∀ entry, holders.lookup d = some entry →
      entry.seenAt = s.clock := by
  intro entry he
  obtain ⟨docs, hdocs⟩ := ne_none_iff_exists'.mp hp
  exact h d (Dict.mem_keys.mpr ⟨docs, hdocs⟩) entry (mem_toList.mpr he)

theorem left_close (s : DocHolders) (d : String) :
    s.close.left d = if (s.store d).isSome then some s.clock else s.left d := by
  show (s.observe fun _ => none).left d = _
  exact left_observe_none s rfl

theorem latest_close (s : DocHolders) (d : String) : s.close.latest d = s.latest d := by
  show (s.observe fun _ => none).latest d = _
  refine latest_observe_else s ?_
  intro docs h
  cases h

theorem SoundAt.past_close (h : s.SoundAt retirementMs d) :
    ∀ t, s.close.left d = some t → t ≤ s.clock := by
  intro t ht
  rw [left_close] at ht
  split at ht
  · cases ht
    exact Nat.le_refl _
  · exact h.past t ht

theorem SoundAt.gone_close (h : s.SoundAt retirementMs d) (hl : s.close.latest d ≠ none) :
    s.close.store d = none ∧ ∃ t, s.close.left d = some t := by
  refine ⟨rfl, ?_⟩
  rw [left_close]
  split
  · exact ⟨_, rfl⟩
  · next hs => exact h.parted (not_isSome_iff_eq_none.mp hs) (by rwa [latest_close] at hl)

theorem Kept.closed (h : s.Kept retirementMs d e) (hs : s.SoundAt retirementMs d)
    (hstamp : s.peers.lookup d ≠ none → ∀ entry, e = some entry → entry.seenAt = s.clock) :
    s.close.Kept retirementMs d e := by
  by_cases hp : s.peers.lookup d = none
  · exact h.of_absent hs hp rfl (left_close s d) (latest_close s d) (Nat.le_refl _)
  · refine ⟨?_, ?_, ?_⟩
    · intro entry he
      exact (latest_close s d).trans (h.latest entry he)
    · intro entry he _ t ht
      rw [hstamp hp entry he]
      exact hs.past_close t ht
    · intro he hl
      rw [latest_close] at hl
      obtain ⟨docs, hdocs⟩ := ne_none_iff_exists'.mp hp
      have hstore := (hs.live docs).mp hdocs
      rw [(h.forgotten he hl).1] at hstore
      cases hstore

theorem SoundAt.closed (h : s.SoundAt retirementMs d) {file : Option LedgerFile}
    (hk : s.close.Kept retirementMs d (((file.map LedgerFile.holders).getD ∅).lookup d)) :
    SoundAt retirementMs { s.close with file := file } d := by
  refine ⟨?_, ?_, ?_, ?_, h.past_close, ?_, ?_, fun _ => ⟨rfl, rfl⟩⟩
  · intro docs
    constructor <;>
    · intro h
      cases h
  · intro docs hdocs
    cases hdocs
  · intro hnone
    cases hnone
  · exact fun _ hl => (h.gone_close hl).2
  · intro hr
    cases hr
  · exact fun _ => hk.later rfl rfl rfl rfl (Nat.le_refl _)

theorem SoundAt.stop (h : s.SoundAt retirementMs d) (hr : s.running = true)
    (hstamp : s.Stamped (if s.ledgerTimer then s.ledger else s.fileHolders))
    (hs : s.stop retirementMs = some s') : s'.SoundAt retirementMs d := by
  rw [DocHolders.stop, if_pos hr] at hs
  cases ht : s.ledgerTimer with
  | true =>
    rw [ht, if_pos rfl] at hs hstamp
    cases hs
    have hk := (h.ledger hr).closed h hstamp.seenAt
    have hk' := hk.filter rfl h.gone_close
    refine h.closed ?_
    show Kept retirementMs _ d ((DocHolders.ledgerJson _ retirementMs).holders.lookup d)
    rw [lookup_ledgerJson]
    simp only [lookup_empty, isSome_none, Bool.false_or, Option.map_id']
    exact hk'
  | false =>
    rw [ht, if_neg Bool.false_ne_true] at hs hstamp
    cases hs
    exact h.closed ((h.saved ht).closed h hstamp.seenAt)

theorem SoundAt.crash (h : s.SoundAt retirementMs d) (ht : s.ledgerTimer = false)
    (hstamp : s.Stamped s.fileHolders) : s.close.SoundAt retirementMs d :=
  h.closed ((h.saved ht).closed h hstamp.seenAt)

theorem SoundAt.start (h : s.SoundAt retirementMs d) (hs : s.start retirementMs = some s') :
    s'.SoundAt retirementMs d := by
  rw [DocHolders.start] at hs
  split at hs
  · cases hs
  · next hr =>
    cases hs
    obtain ⟨htimer, hstore⟩ := h.asleep (Bool.eq_false_iff.mpr hr)
    have hp : s.peers.lookup d = none := by
      cases hp : s.peers.lookup d with
      | none => rfl
      | some docs =>
        rw [(h.live docs).mp hp] at hstore
        cases hstore
    refine { h with ledger := ?_, saved := ?_, asleep := ?_ }
    · intro _
      show Kept retirementMs _ d ((s.fileHolders.retain _).lookup d)
      rw [lookup_retain]
      exact ((h.saved htimer).filter hp (h.gone hp)).later rfl rfl rfl rfl (Nat.le_refl _)
    · exact fun ht => (h.saved ht).later rfl rfl rfl rfl (Nat.le_refl _)
    · intro hr'
      cases hr'

theorem SoundAt.tick (h : s.SoundAt retirementMs d) (ms : Nat) :
    SoundAt retirementMs { s with clock := s.clock + ms } d := by
  have hle : s.clock ≤ s.clock + ms := Nat.le_add_right _ _
  refine ⟨h.live, h.told, h.unparsed, h.parted, ?_, ?_, ?_, h.asleep⟩
  · exact fun t ht => Nat.le_trans (h.past t ht) hle
  · exact fun hr => (h.ledger hr).later rfl rfl rfl rfl hle
  · exact fun ht => (h.saved ht).later rfl rfl rfl rfl hle

variable (retirementMs)

theorem sound_start : Sound retirementMs {} := by
  intro d
  have hkept : Kept retirementMs {} d none := by
    refine ⟨?_, ?_, ?_⟩
    · intro _ h
      cases h
    · intro _ h
      cases h
    · exact fun _ h => absurd rfl h
  refine ⟨?_, ?_, ?_, ?_, ?_, ?_, ?_, ?_⟩
  · intro docs
    constructor <;>
    · intro h
      cases h
  · intro _ h
    cases h
  · intro h
    cases h
  · exact fun _ h => absurd rfl h
  · intro _ h
    cases h
  · intro h
    cases h
  · exact fun _ => hkept
  · exact fun _ => ⟨rfl, rfl⟩

variable {retirementMs}

theorem Sound.next {event : HoldersEvent} (h : s.Sound retirementMs) (hok : s.Orderly event)
    (hs : s.next retirementMs event = some s') : s'.Sound retirementMs := by
  intro d
  cases event with
  | tick ms =>
    cases hs
    exact (h d).tick ms
  | snapshot snapshot =>
    obtain ⟨hr, hs⟩ := ite_none_right_eq_some.mp hs
    cases hs
    exact (h d).moves hr (heeds_onSnapshot s snapshot)
      (moves_onSnapshot ((h d).recorded hr) (h d).unheard hok)
  | delta device slice =>
    obtain ⟨hr, hs⟩ := ite_none_right_eq_some.mp hs
    cases hs
    exact (h d).moves hr (heeds_onDelta s device slice) (moves_onDelta hok (h d).told)
  | peerRemoved device =>
    obtain ⟨hr, hs⟩ := ite_none_right_eq_some.mp hs
    cases hs
    exact (h d).moves hr (heeds_onRemoved s device)
      (moves_onRemoved ((h device).recorded hr) (h d).told)
  | write =>
    obtain ⟨⟨hr, -⟩, hs⟩ := ite_none_right_eq_some.mp hs
    cases hs
    exact (h d).write hr
  | stop =>
    obtain ⟨hr, -⟩ := ite_none_right_eq_some.mp hs
    exact (h d).stop hr hok hs
  | crash =>
    obtain ⟨-, hs⟩ := ite_none_right_eq_some.mp hs
    cases hs
    exact (h d).crash hok.1 hok.2
  | start => exact (h d).start hs

end Sound

/-! ## Who is reckoned with in a run -/

section Runs

variable {V : Type} {self : String} {versionFromBase64 : String → Option V} {retirementMs : Nat}
variable {s : DocHolders}

theorem acknowledgements_eq_some {docId : String} {acks : List (HolderAck V)}
    (h : s.acknowledgements self versionFromBase64 docId = some acks) :
    acks = s.ledger.keys.filterMap (s.acknowledgement self versionFromBase64 docId) := by
  rw [acknowledgements] at h
  split at h
  · exact (some.inj h).symm
  · cases h

theorem acknowledgement_eq_some {docId device : String} {a : HolderAck V}
    (h : s.acknowledgement self versionFromBase64 docId device = some a) :
    ∃ entry, s.ledger.lookup device = some entry ∧ a.device = device ∧
      a.seenAt = if (s.peers.lookup device).isSome then s.clock else entry.seenAt := by
  rw [acknowledgement] at h
  split at h
  · cases h
  · obtain ⟨entry, hentry, h⟩ := bind_eq_some_iff.mp h
    obtain ⟨held, -, rfl⟩ := map_eq_some_iff.mp h
    exact ⟨entry, hentry, rfl, rfl⟩

theorem Sound.retiresUnseen (h : s.Sound retirementMs) :
    s.RetiresUnseen self versionFromBase64 retirementMs := by
  intro hr docId acks hacks a ha hlong t ht
  rw [acknowledgements_eq_some hacks] at ha
  obtain ⟨device, -, ha⟩ := mem_filterMap.mp ha
  obtain ⟨entry, hentry, rfl, hseen⟩ := acknowledgement_eq_some ha
  have hd := h a.device
  cases hp : s.peers.lookup a.device with
  | some docs =>
    rw [hp, isSome_some, if_pos rfl] at hseen
    omega
  | none =>
    rw [hp, isSome_none, if_neg Bool.false_ne_true] at hseen
    have hkept := hd.ledger hr
    have hheard : s.latest a.device ≠ none := by
      rw [hkept.latest entry hentry]
      exact some_ne_none _
    rw [lastPresent, hd.store_of_absent hp hheard] at ht
    have hle := hkept.stamped entry hentry hp t ht
    omega

theorem Sound.remembers (h : s.Sound retirementMs) :
    s.Remembers self versionFromBase64 retirementMs := by
  intro hr docId acks hacks device docs hself hlatest hnames hrecent
  have hd := h device
  have hkept := hd.ledger hr
  have hheard : s.latest device ≠ none := by
    rw [hlatest]
    exact some_ne_none _
  cases hl : s.ledger.lookup device with
  | none =>
    obtain ⟨hgone, t, ht, hlong⟩ := hkept.forgotten hl hheard
    have hle := hrecent t (by rw [lastPresent, hgone]; exact ht)
    omega
  | some entry =>
    have hentry : entry.docs = docs :=
      some.inj ((hkept.latest entry hl).symm.trans hlatest)
    have hread : (s.peers.lookup device).getD entry.docs = docs := by
      cases hp : s.peers.lookup device with
      | none => exact hentry
      | some live =>
        have htold := hd.told live ((hd.live live).mp hp)
        exact some.inj (htold.symm.trans hlatest)
    obtain ⟨held, hheld⟩ : ∃ held, docs.find? (fun doc => doc.docId = docId) = some held := by
      obtain ⟨doc, hdoc, hid⟩ := hnames
      exact isSome_iff_exists.mp (List.find?_isSome.mpr ⟨doc, hdoc, by simpa using hid⟩)
    have hack : (s.acknowledgement self versionFromBase64 docId device).isSome := by
      rw [acknowledgement, if_neg hself, hl, bind_some, hread, hheld]
      rfl
    obtain ⟨a, ha⟩ := isSome_iff_exists.mp hack
    obtain ⟨_, _, hdev, -⟩ := acknowledgement_eq_some ha
    refine ⟨a, ?_, hdev⟩
    rw [acknowledgements_eq_some hacks]
    exact mem_filterMap.mpr ⟨device, Dict.mem_keys.mpr ⟨entry, hl⟩, ha⟩

theorem sound_reaches (h : (holdersMachine retirementMs).Reaches Orderly s) :
    s.Sound retirementMs :=
  h.invariant (sound_start retirementMs) fun _ _ _ hs hok hnext => hs.next hok hnext

/-- Where no slice of a holder stops parsing, and every holder present at a stop or at a crash
was stamped on disk at that moment, a holder is retired only after the horizon and remembered
until twice the horizon. -/
theorem holders_retired_after (self : String) (versionFromBase64 : String → Option V)
    (retirementMs : Nat) (h : (holdersMachine retirementMs).Reaches Orderly s) :
    s.RetiresUnseen self versionFromBase64 retirementMs ∧
      s.Remembers self versionFromBase64 retirementMs :=
  ⟨(sound_reaches h).retiresUnseen, (sound_reaches h).remembers⟩

end Runs

/-! ## Runs -/

def board : List DocHolding := [{ docId := "board", ackVersion := some "v1", headVersion := none }]

def deskPresent : HoldersEvent :=
  .snapshot (some { slices := [("desk", some board)], nodup := List.nodup_singleton _ })

def retirement : Nat := 30 * 24 * 60 * 60 * 1000

def retiredEarly (s : DocHolders) : Bool :=
  s.running && s.acknowledgements "here" some "board" ==
    some [{ device := "desk", ack := some "v1", seenAt := 0 }] &&
    s.lastPresent "desk" == some s.clock && decide (retirement < s.clock)

theorem not_retiresUnseen {s : DocHolders} (h : s.retiredEarly = true) :
    ¬s.RetiresUnseen "here" some retirement := by
  intro hret
  simp only [retiredEarly, Bool.and_eq_true, beq_iff_eq, decide_eq_true_eq] at h
  obtain ⟨⟨⟨hr, hacks⟩, hpresent⟩, hlong⟩ := h
  have hlate := hret hr "board" _ hacks _ mem_cons_self (by simpa using hlong) _ hpresent
  omega

theorem retired_early_in (events : List HoldersEvent)
    (h : ((holdersMachine retirement).run (fun _ _ => true) {} events).map retiredEarly =
      some true) :
    ∃ s, (holdersMachine retirement).run (fun _ _ => true) {} events = some s ∧
      (holdersMachine retirement).Reachable s ∧
        ¬s.RetiresUnseen "here" (some : String → Option String) retirement := by
  obtain ⟨s, hs, hearly⟩ := map_eq_some_iff.mp h
  have hreach : (holdersMachine retirement).Reachable s :=
    Machine.reaches_run (fun _ _ _ => trivial) .start hs
  exact ⟨s, hs, hreach, not_retiresUnseen hearly⟩

def unparsedRun : List HoldersEvent :=
  [.start, deskPresent, .tick (retirement + 1), .delta "desk" none]

def restartRun : List HoldersEvent :=
  [.start, deskPresent, .write, .tick (retirement + 1), .stop, .start]

theorem holders_retired_early :
    (∃ s, (holdersMachine retirement).run (fun _ _ => true) {} unparsedRun = some s ∧
      (holdersMachine retirement).Reachable s ∧
        ¬s.RetiresUnseen "here" (some : String → Option String) retirement) ∧
    ∃ s, (holdersMachine retirement).run (fun _ _ => true) {} restartRun = some s ∧
      (holdersMachine retirement).Reachable s ∧
        ¬s.RetiresUnseen "here" (some : String → Option String) retirement :=
  ⟨retired_early_in unparsedRun (by decide), retired_early_in restartRun (by decide)⟩

def removedRun : List HoldersEvent :=
  [.start, deskPresent, .tick (retirement + 1), .peerRemoved "desk", .tick 5, .write, .stop,
    .start]

theorem holders_retired_after_removal :
    ∃ s, (holdersMachine retirement).Reaches Orderly s ∧
      s.acknowledgements "here" (some : String → Option String) "board" =
        some [{ device := "desk", ack := some "v1", seenAt := retirement + 1 }] ∧
      s.RetiresUnseen "here" (some : String → Option String) retirement ∧
        s.Remembers "here" (some : String → Option String) retirement := by
  obtain ⟨s, hs, hacks⟩ := Machine.exists_of_orderly_run (M := holdersMachine retirement) Orderly
    (fun s => s.acknowledgements "here" (some : String → Option String) "board" ==
      some [{ device := "desk", ack := some "v1", seenAt := retirement + 1 }]) removedRun
    (by decide)
  exact ⟨s, hs, beq_iff_eq.mp hacks, holders_retired_after "here" some retirement hs⟩

end DocHolders

end VibeField.Fieldd
