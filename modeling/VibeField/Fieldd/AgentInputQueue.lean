import Mathlib.Data.List.Nodup
import Mathlib.Logic.Function.Basic
import VibeField.Base.Machine

/-!
# The input queue of an agent's run

Inputs for a run wait in one queue, kept in one file.  The head is pasted when the run is idle: it
is stamped and kept before it is handed to the terminal, so that a restart which finds a stamped
head never hands it over again.  Its receipt says what became of it; a run that ends drops what
waited, except a head in flight, which is its receipt's to tell.
-/

namespace VibeField.Fieldd

open List Option

inductive InputSender where
  | spark (spark name : String)
  | fieldd
  | you
  | flow (flow name : String)
  deriving DecidableEq, Repr

/-- `sending`: when its delivery began, the head's only. -/
structure QueuedInput where
  id : Nat
  text : String
  sender : InputSender
  queuedAt : Nat
  requestId : Option String := none
  sending : Option Nat := none
  items : Option (List String) := none
  deriving DecidableEq, Repr

def markedText (input : QueuedInput) : String :=
  match input.sender with
  | .spark _ name => name ++ " (your spark) on your behalf:\n" ++ input.text
  | .you => input.text
  | _ => "VibeField: " ++ input.text

inductive ReceiptStatus where
  | confirmed
  | rejected
  | uncertain
  deriving DecidableEq, Repr

/-- The outcomes that are final; an input that waits for the next idle is told so as well. -/
inductive FinalOutcome where
  | delivered
  | uncertain
  | dropped
  deriving DecidableEq, Repr

structure Told where
  id : Nat
  outcome : FinalOutcome
  deriving DecidableEq, Repr

/-- An input handed to the terminal, and its receipt once there is one. -/
structure Handing where
  id : Nat
  text : String
  receipt : Option ReceiptStatus
  deriving DecidableEq, Repr

/-- `serial` tells a run's queue from a later one of the run. -/
structure InputQueue where
  serial : Nat
  inputs : List QueuedInput
  deriving DecidableEq, Repr

/-- A delivery in flight: the queue it began on, and its head before the stamp. -/
structure Flight where
  serial : Nat
  head : QueuedInput
  handing : Nat
  deriving DecidableEq, Repr

/-- What a run's queue is.  `handed` is every delivery there was; `taken` and `told` are of this
life of fieldd: the inputs that were queued or read back, and the outcomes told. -/
structure RunInputs where
  queue : Option InputQueue := none
  busy : Bool := false
  flights : List Flight := []
  disk : Option (List QueuedInput) := none
  born : Nat := 0
  serials : Nat := 0
  handed : List Handing := []
  taken : List Nat := []
  told : List Told := []
  deriving DecidableEq, Repr

/-- What a turn meets: the time, whether the run is idle, and whether the disk takes the queue and
then the stamp. -/
structure Turn where
  now : Nat
  idle : Bool
  kept : Bool
  stamped : Bool
  deriving DecidableEq, Repr

def neededItemsMax : Nat := 16

def safeId (runtimeRunId : String) : Bool :=
  match runtimeRunId.toList with
  | [] => false
  | c :: rest =>
    let alnum (c : Char) := c.isAlphanum && c.toNat < 128
    alnum c && decide (rest.length ≤ 127) &&
      rest.all fun c => alnum c || c = '.' || c = '_' || c = '-'

def joined (items : Option (List String)) : Option String → Option (List String)
  | none => items
  | some item =>
    if (items.getD []).contains item then items else some (items.getD [] ++ [item])

namespace RunInputs

variable (safe : Bool)

def inputs (s : RunInputs) : List QueuedInput := (s.queue.map InputQueue.inputs).getD []

def setInputs (s : RunInputs) (inputs : List QueuedInput) : RunInputs :=
  { s with
    queue := some
      { serial := (s.queue.map InputQueue.serial).getD s.serials
        inputs := inputs }
    serials := if s.queue.isNone then s.serials + 1 else s.serials }

def write (s : RunInputs) (took : Bool) : Option RunInputs :=
  if safe && took then
    some { s with disk := if s.inputs = [] then none else some s.inputs }
  else none

def keep (s : RunInputs) (took : Bool) : RunInputs := (s.write safe took).getD s

def tell (s : RunInputs) (id : Nat) (outcome : FinalOutcome) : RunInputs :=
  { s with told := s.told ++ [{ id := id, outcome := outcome }] }

def handOver (s : RunInputs) (serial : Nat) (head : QueuedInput) : RunInputs :=
  { s with
    busy := true
    flights := s.flights ++ [{ serial := serial, head := head, handing := s.handed.length }]
    handed := s.handed ++ [{ id := head.id, text := markedText head, receipt := none }] }

def deliver (s : RunInputs) (turn : Turn) : RunInputs :=
  match s.queue with
  | none => s
  | some q =>
    match q.inputs with
    | [] => s
    | head :: rest =>
      if s.busy || head.sending.isSome || !turn.idle then s
      else
        match (s.setInputs ({ head with sending := some turn.now } :: rest)).write safe
            turn.stamped with
        | none => s
        | some s => s.handOver q.serial head

def push (s : RunInputs) (text : String) (sender : InputSender) (requestId : Option String)
    (items : Option (List String)) (turn : Turn) : RunInputs :=
  let input : QueuedInput :=
    { id := s.born
      text := text
      sender := sender
      queuedAt := turn.now
      requestId := requestId
      items := items }
  { s.setInputs (s.inputs ++ [input]) with
    born := s.born + 1
    taken := s.taken ++ [s.born] }.keep safe turn.kept

def enqueue (s : RunInputs) (text : String) (sender : InputSender) (requestId : Option String)
    (turn : Turn) : RunInputs :=
  (s.push safe text sender requestId none turn).deliver safe turn

def joins (s : RunInputs) (last : QueuedInput) (item : Option String) : Bool :=
  last.sender = .fieldd && last.sending.isNone && !s.busy &&
    decide (((joined last.items item).getD []).length ≤ neededItemsMax)

def wake (s : RunInputs) (fact : String) (item : Option String) (turn : Turn) : RunInputs :=
  let s :=
    match s.inputs.getLast? with
    | some last =>
      if s.joins last item then
        (s.setInputs (s.inputs.dropLast ++
          [{ last with
              text := last.text ++ " · " ++ fact
              items := joined last.items item }])).keep safe turn.kept
      else s.push safe fact .fieldd none (item.map ([·])) turn
    | none => s.push safe fact .fieldd none (item.map ([·])) turn
  s.deliver safe turn

def sayRestarted (s : RunInputs) (turn : Turn) : RunInputs :=
  match s.inputs with
  | [] => s
  | head :: rest =>
    if head.sending.isSome && !s.busy then
      ((s.setInputs rest).keep safe turn.kept).tell head.id .uncertain
    else s

def poke (s : RunInputs) (turn : Turn) : RunInputs := (s.sayRestarted safe turn).deliver safe turn

def forgotten (s : RunInputs) (flight : Flight) : Bool :=
  match s.queue with
  | none => true
  | some q => q.serial ≠ flight.serial

def landed (s : RunInputs) (flight : Flight) (status : ReceiptStatus) : RunInputs :=
  { s with
    busy := false
    flights := s.flights.erase flight
    handed := s.handed.set flight.handing
      { id := flight.head.id, text := markedText flight.head, receipt := some status } }

def outcomeOf : ReceiptStatus → FinalOutcome
  | .confirmed => .delivered
  | .rejected => .dropped
  | .uncertain => .uncertain

def receive (s : RunInputs) (flight : Flight) (status : ReceiptStatus) (kept : Bool) : RunInputs :=
  let s := s.landed flight status
  if s.forgotten flight then s.tell flight.head.id (outcomeOf status)
  else if status = .rejected then
    (s.setInputs (flight.head :: s.inputs.tail)).keep safe kept
  else
    ((s.setInputs s.inputs.tail).keep safe kept).tell flight.head.id (outcomeOf status)

def endedAs (input : QueuedInput) : Told :=
  { id := input.id, outcome := if input.sending.isSome then .uncertain else .dropped }

def forget (s : RunInputs) (kept : Bool) : RunInputs :=
  let left := if s.busy then s.inputs.tail else s.inputs
  let s := { s with queue := none }.keep safe kept
  { s with told := s.told ++ left.map endedAs }

def reconcile (s : RunInputs) (holds kept : Bool) : RunInputs :=
  if s.inputs = [] || holds then s else s.forget safe kept

def restart (s : RunInputs) : RunInputs :=
  { s with
    queue := s.disk.map fun inputs => { serial := s.serials, inputs := inputs }
    busy := false
    flights := []
    serials := s.serials + 1
    taken := (s.disk.getD []).map QueuedInput.id
    told := [] }

def stopAtStamp (s : RunInputs) (turn : Turn) : RunInputs :=
  { s.deliver safe turn with handed := s.handed }.restart

/-! ## What is to hold -/

/-- An input is handed over again only where every earlier receipt rejected it. -/
def HandedOnce (s : RunInputs) : Prop :=
  s.handed.Pairwise fun h k => h.id = k.id → h.receipt = some .rejected

/-- Inputs are pasted in the order they were queued. -/
def InOrder (s : RunInputs) : Prop := s.handed.Pairwise fun h k => h.id ≤ k.id

def OneInFlight (s : RunInputs) : Prop := s.flights.length ≤ 1

def Waits (s : RunInputs) (id : Nat) : Prop := ∃ x ∈ s.inputs, x.id = id

def Flies (s : RunInputs) (id : Nat) : Prop := ∃ f ∈ s.flights, f.head.id = id

def IsTold (s : RunInputs) (id : Nat) : Prop := ∃ t ∈ s.told, t.id = id

/-- An input has one final outcome in a life of fieldd, and none while it waits or flies. -/
def ToldOnce (s : RunInputs) : Prop :=
  (s.told.map Told.id).Nodup ∧ ∀ id, s.IsTold id → ¬s.Waits id ∧ ¬s.Flies id

/-- No input is lost without its outcome. -/
def NoneLost (s : RunInputs) : Prop := ∀ id ∈ s.taken, s.IsTold id ∨ s.Waits id ∨ s.Flies id

/-- Nothing waits that came while a delivery of an ended queue is in flight. -/
def EndsClean (s : RunInputs) : Prop := ∀ f ∈ s.flights, s.forgotten f = true → s.inputs = []

/-! ## What a queue keeps, in memory and on disk -/

/-- Every delivery of an input was rejected. -/
def Fresh (handed : List Handing) (id : Nat) : Prop :=
  ∀ h ∈ handed, h.id = id → h.receipt = some .rejected

/-- Inputs in the order they were queued, none handed over before a later one, the head alone
stamped; one that is not stamped was never taken. -/
structure Ordered (handed : List Handing) (born : Nat) (l : List QueuedInput) : Prop where
  born : ∀ x ∈ l, x.id < born
  sorted : l.Pairwise fun x y => x.id < y.id
  unstamped : ∀ x ∈ l.tail, x.sending = none
  fresh : ∀ x ∈ l, x.sending = none → Fresh handed x.id
  after : ∀ h ∈ handed, ∀ x ∈ l, h.id ≤ x.id

section Lists

variable {handed : List Handing} {born : Nat} {l rest : List QueuedInput} {head : QueuedInput}

theorem Ordered.nil : Ordered handed born [] where
  born := by
    intro _ h
    cases h
  sorted := List.Pairwise.nil
  unstamped := by
    intro _ h
    cases h
  fresh := by
    intro _ h
    cases h
  after := by
    intro _ _ _ h
    cases h

theorem Ordered.sublist (h : Ordered handed born l) {l' : List QueuedInput} (hsub : l'.Sublist l)
    (htail : ∀ x ∈ l'.tail, x ∈ l.tail) : Ordered handed born l' where
  born x hx := h.born x (hsub.mem hx)
  sorted := h.sorted.sublist hsub
  unstamped x hx := h.unstamped x (htail x hx)
  fresh x hx := h.fresh x (hsub.mem hx)
  after k hk x hx := h.after k hk x (hsub.mem hx)

theorem Ordered.tail (h : Ordered handed born l) : Ordered handed born l.tail :=
  h.sublist (tail_sublist l) fun _ hx => mem_of_mem_tail hx

theorem Ordered.head_lt (h : Ordered handed born (head :: rest)) {x : QueuedInput}
    (hx : x ∈ rest) : head.id < x.id :=
  (pairwise_cons.mp h.sorted).1 x hx

theorem Ordered.restamp (h : Ordered handed born (head :: rest)) {head' : QueuedInput}
    (hid : head'.id = head.id) (hfresh : head'.sending = none → Fresh handed head.id) :
    Ordered handed born (head' :: rest) where
  born := by
    intro x hx
    rcases mem_cons.mp hx with rfl | hrest
    · rw [hid]
      exact h.born head mem_cons_self
    · exact h.born x (mem_cons_of_mem _ hrest)
  sorted := by
    refine pairwise_cons.mpr ⟨?_, (pairwise_cons.mp h.sorted).2⟩
    intro x hx
    rw [hid]
    exact h.head_lt hx
  unstamped := h.unstamped
  fresh := by
    intro x hx hsending
    rcases mem_cons.mp hx with rfl | hrest
    · rw [hid]
      exact hfresh hsending
    · exact h.fresh x (mem_cons_of_mem _ hrest) hsending
  after := by
    intro k hk x hx
    rcases mem_cons.mp hx with rfl | hrest
    · rw [hid]
      exact h.after k hk head mem_cons_self
    · exact h.after k hk x (mem_cons_of_mem _ hrest)

theorem Ordered.snoc (h : Ordered handed born l) (hhanded : ∀ k ∈ handed, k.id < born)
    {x : QueuedInput} (hid : x.id = born) (hsending : x.sending = none) :
    Ordered handed (born + 1) (l ++ [x]) where
  born := by
    intro y hy
    rcases mem_snoc.mp hy with hold | rfl
    · exact Nat.lt_succ_of_lt (h.born y hold)
    · omega
  sorted := by
    refine pairwise_append.mpr ⟨h.sorted, pairwise_singleton _ _, ?_⟩
    intro y hy z hz
    obtain rfl := mem_singleton.mp hz
    rw [hid]
    exact h.born y hy
  unstamped := by
    intro y hy
    cases l with
    | nil => cases hy
    | cons head rest =>
      rcases mem_snoc.mp hy with hold | rfl
      · exact h.unstamped y hold
      · exact hsending
  fresh := by
    intro y hy hs
    rcases mem_snoc.mp hy with hold | rfl
    · exact h.fresh y hold hs
    · intro k hk hkid
      exact absurd (hhanded k hk) (by omega)
  after := by
    intro k hk y hy
    rcases mem_snoc.mp hy with hold | rfl
    · exact h.after k hk y hold
    · rw [hid]
      exact Nat.le_of_lt (hhanded k hk)

theorem Ordered.join (h : Ordered handed born (l ++ [head])) {last : QueuedInput}
    (hid : last.id = head.id) (hsending : last.sending = none) (hunsent : head.sending = none) :
    Ordered handed born (l ++ [last]) where
  born := by
    intro y hy
    rcases mem_snoc.mp hy with hold | rfl
    · exact h.born y (mem_append_left _ hold)
    · rw [hid]
      exact h.born head (mem_append_right _ mem_cons_self)
  sorted := by
    obtain ⟨hl, -, hlast⟩ := pairwise_append.mp h.sorted
    refine pairwise_append.mpr ⟨hl, pairwise_singleton _ _, ?_⟩
    intro y hy z hz
    obtain rfl := mem_singleton.mp hz
    rw [hid]
    exact hlast y hy head mem_cons_self
  unstamped := by
    intro y hy
    cases l with
    | nil => cases hy
    | cons first rest =>
      rcases mem_snoc.mp hy with hold | rfl
      · exact h.unstamped y (mem_append_left _ hold)
      · exact hsending
  fresh := by
    intro y hy hs
    rcases mem_snoc.mp hy with hold | rfl
    · exact h.fresh y (mem_append_left _ hold) hs
    · rw [hid]
      exact h.fresh head (mem_append_right _ mem_cons_self) hunsent
  after := by
    intro k hk y hy
    rcases mem_snoc.mp hy with hold | rfl
    · exact h.after k hk y (mem_append_left _ hold)
    · rw [hid]
      exact h.after k hk head (mem_append_right _ mem_cons_self)

theorem Ordered.hand (h : Ordered handed born (head :: rest)) (hstamped : head.sending ≠ none)
    {k : Handing} (hid : k.id = head.id) : Ordered (handed ++ [k]) born (head :: rest) where
  __ := h
  fresh := by
    intro x hx hs j hj hjid
    rcases mem_snoc.mp hj with hold | rfl
    · exact h.fresh x hx hs j hold hjid
    · rcases mem_cons.mp hx with rfl | hrest
      · exact absurd hs hstamped
      · have hlt := h.head_lt hrest
        omega
  after := by
    intro j hj x hx
    rcases mem_snoc.mp hj with hold | rfl
    · exact h.after j hold x hx
    · rcases mem_cons.mp hx with rfl | hrest
      · exact Nat.le_of_eq hid
      · exact Nat.le_of_lt (by rw [hid]; exact h.head_lt hrest)

theorem Ordered.settle {pre : List Handing} {id : Nat} {text : String}
    {receipt : Option ReceiptStatus}
    (h : Ordered (pre ++ [{ id := id, text := text, receipt := none }]) born l) :
    Ordered (pre ++ [{ id := id, text := text, receipt := receipt }]) born l where
  __ := h
  fresh := by
    intro x hx hs k hk hkid
    have hold := h.fresh x hx hs
    rcases mem_snoc.mp hk with hpre | rfl
    · exact hold k (mem_append_left _ hpre) hkid
    · have hnone := hold _ (mem_append_right _ mem_cons_self) hkid
      cases hnone
  after := by
    intro k hk x hx
    rcases mem_snoc.mp hk with hpre | rfl
    · exact h.after k (mem_append_left _ hpre) x hx
    · exact h.after _ (mem_append_right _ mem_cons_self) x hx

end Lists

/-! ## What holds in every state -/

/-- The delivery in flight is the last there was, of an input none of whose earlier ones was taken;
while its queue stands it is the stamped head there, and once the run ended all that waits came
after it. -/
structure Flying (s : RunInputs) (f : Flight) : Prop where
  serial : f.serial < s.serials
  born : f.head.id < s.born
  unsent : f.head.sending = none
  last : ∃ pre, s.handed =
      pre ++ [{ id := f.head.id, text := markedText f.head, receipt := none }] ∧
    f.handing = pre.length ∧ Fresh pre f.head.id
  own : s.forgotten f = false →
    ∃ t rest, s.inputs = { f.head with sending := some t } :: rest
  other : s.forgotten f = true → ∀ x ∈ s.inputs, f.head.id < x.id ∧ x.sending = none
  untold : ¬s.IsTold f.head.id

structure Sound (s : RunInputs) : Prop where
  queue : ∀ q, s.queue = some q → q.serial < s.serials
  handedBorn : ∀ k ∈ s.handed, k.id < s.born
  toldBorn : ∀ t ∈ s.told, t.id < s.born
  memory : Ordered s.handed s.born s.inputs
  kept : Ordered s.handed s.born (s.disk.getD [])
  flying : (s.busy = false ∧ s.flights = []) ∨ (s.busy = true ∧ ∃ f, s.flights = [f] ∧ s.Flying f)
  once : s.HandedOnce
  order : s.InOrder
  tells : (s.told.map Told.id).Nodup
  untold : ∀ id, s.IsTold id → ¬s.Waits id
  noneLost : s.NoneLost

section Keeps

variable {safe} {s : RunInputs}

theorem sound_start : Sound {} where
  queue := by
    intro _ h
    cases h
  handedBorn := by
    intro _ h
    cases h
  toldBorn := by
    intro _ h
    cases h
  memory := Ordered.nil
  kept := Ordered.nil
  flying := Or.inl ⟨rfl, rfl⟩
  once := List.Pairwise.nil
  order := List.Pairwise.nil
  tells := nodup_nil
  untold := by
    rintro _ ⟨_, h, -⟩
    cases h
  noneLost := by
    intro _ h
    cases h

theorem setInputs_of_some {q : InputQueue} (hq : s.queue = some q) (l : List QueuedInput) :
    s.setInputs l = { s with queue := some { q with inputs := l } } := by
  rw [setInputs, hq]
  rfl

theorem inputs_of_some {q : InputQueue} (hq : s.queue = some q) : s.inputs = q.inputs := by
  rw [inputs, hq]
  rfl

theorem write_eq_some {took : Bool} {s' : RunInputs} (h : s.write safe took = some s') :
    s' = { s with disk := if s.inputs = [] then none else some s.inputs } := by
  rw [write] at h
  split at h
  · exact (some.inj h).symm
  · cases h

theorem getD_disk (l : List QueuedInput) : (if l = [] then none else some l).getD [] = l := by
  split
  · next h =>
    rw [h]
    rfl
  · rfl

theorem Sound.written (h : s.Sound) :
    Sound { s with disk := if s.inputs = [] then none else some s.inputs } where
  __ := h
  kept := by
    show Ordered s.handed s.born ((if s.inputs = [] then none else some s.inputs).getD [])
    rw [getD_disk]
    exact h.memory
  flying := by
    rcases h.flying with hidle | ⟨hbusy, f, hf, hflying⟩
    · exact Or.inl hidle
    · exact Or.inr ⟨hbusy, f, hf, { hflying with }⟩

theorem Sound.keep (h : s.Sound) (took : Bool) : (s.keep safe took).Sound := by
  rw [RunInputs.keep]
  cases hw : s.write safe took with
  | none => exact h
  | some s' =>
    rw [write_eq_some hw]
    exact h.written

variable {f : Flight}

theorem forgotten_setInputs (l : List QueuedInput) (hserial : f.serial < s.serials) :
    (s.setInputs l).forgotten f = s.forgotten f := by
  rw [forgotten, forgotten, setInputs]
  cases s.queue with
  | some q => rfl
  | none => exact decide_eq_true (Nat.ne_of_gt hserial)

theorem Sound.setInputs_queue (h : s.Sound) (l : List QueuedInput) :
    ∀ q, (s.setInputs l).queue = some q → q.serial < (s.setInputs l).serials := by
  intro q hq
  obtain rfl := some.inj hq
  rw [setInputs]
  cases hqueue : s.queue with
  | some q' => exact h.queue q' hqueue
  | none => exact Nat.lt_succ_self _

theorem serials_setInputs (l : List QueuedInput) : s.serials ≤ (s.setInputs l).serials := by
  rw [setInputs]
  dsimp only
  split
  · exact Nat.le_succ _
  · exact Nat.le_refl _

theorem Sound.queued (h : s.Sound) {x : QueuedInput} (hid : x.id = s.born)
    (hsending : x.sending = none) :
    Sound { s.setInputs (s.inputs ++ [x]) with
      born := s.born + 1
      taken := s.taken ++ [s.born] } where
  __ := h
  queue := h.setInputs_queue _
  handedBorn k hk := Nat.lt_succ_of_lt (h.handedBorn k hk)
  toldBorn t ht := Nat.lt_succ_of_lt (h.toldBorn t ht)
  memory := h.memory.snoc h.handedBorn hid hsending
  kept := ⟨fun y hy => Nat.lt_succ_of_lt (h.kept.born y hy), h.kept.sorted, h.kept.unstamped,
    h.kept.fresh, h.kept.after⟩
  flying := by
    rcases h.flying with hidle | ⟨hbusy, f, hf, hfly⟩
    · exact Or.inl hidle
    · refine Or.inr ⟨hbusy, f, hf, ?_⟩
      have hsame := forgotten_setInputs (s.inputs ++ [x]) hfly.serial
      refine ⟨Nat.lt_of_lt_of_le hfly.serial (serials_setInputs (s.inputs ++ [x])),
        Nat.lt_succ_of_lt hfly.born, hfly.unsent, hfly.last, ?_, ?_, hfly.untold⟩
      · intro hown
        obtain ⟨t, rest, hinputs⟩ := hfly.own (hsame ▸ hown)
        refine ⟨t, rest ++ [x], ?_⟩
        show s.inputs ++ [x] = _
        rw [hinputs, cons_append]
      · intro hother y hy
        rcases mem_snoc.mp hy with hold | rfl
        · exact hfly.other (hsame ▸ hother) y hold
        · exact ⟨hid ▸ hfly.born, hsending⟩
  untold := by
    intro id htold hwaits
    obtain ⟨y, hy, rfl⟩ := hwaits
    rcases mem_snoc.mp hy with hold | rfl
    · exact h.untold y.id htold ⟨y, hold, rfl⟩
    · obtain ⟨t, ht, hte⟩ := htold
      have hlt := h.toldBorn t ht
      omega
  noneLost := by
    intro id hmem
    rcases mem_snoc.mp hmem with hold | hnew
    · rcases h.noneLost id hold with ht | ⟨y, hy, hye⟩ | hf
      · exact Or.inl ht
      · exact Or.inr (Or.inl ⟨y, mem_append_left _ hy, hye⟩)
      · exact Or.inr (Or.inr hf)
    · rw [hnew]
      exact Or.inr (Or.inl ⟨x, mem_append_right _ mem_cons_self, hid⟩)

theorem Sound.push (h : s.Sound) (text : String) (sender : InputSender)
    (requestId : Option String) (items : Option (List String)) (turn : Turn) :
    (s.push safe text sender requestId items turn).Sound :=
  Sound.keep (h.queued rfl rfl) turn.kept

theorem Sound.reset (h : s.Sound) (hbusy : s.busy = false) {l : List QueuedInput}
    (hl : Ordered s.handed s.born l) (huntold : ∀ x ∈ l, ¬s.IsTold x.id)
    (hnone : ∀ id ∈ s.taken, s.IsTold id ∨ ∃ x ∈ l, x.id = id) : (s.setInputs l).Sound where
  __ := h
  queue := h.setInputs_queue _
  memory := hl
  flying := by
    rcases h.flying with hidle | ⟨hb, -⟩
    · exact Or.inl hidle
    · rw [hbusy] at hb
      cases hb
  untold := by
    rintro id htold ⟨x, hx, rfl⟩
    exact huntold x hx htold
  noneLost := by
    intro id hid
    rcases hnone id hid with ht | hw
    · exact Or.inl ht
    · exact Or.inr (Or.inl hw)

theorem Sound.idle_taken (h : s.Sound) (hbusy : s.busy = false) :
    ∀ id ∈ s.taken, s.IsTold id ∨ ∃ x ∈ s.inputs, x.id = id := by
  intro id hid
  rcases h.noneLost id hid with ht | hw | ⟨f, hf, -⟩
  · exact Or.inl ht
  · exact Or.inr hw
  · rcases h.flying with ⟨-, hnil⟩ | ⟨hb, -⟩
    · rw [hnil] at hf
      cases hf
    · rw [hbusy] at hb
      cases hb

variable {rest : List QueuedInput}

theorem Sound.restamp (h : s.Sound) (hbusy : s.busy = false) {head head' : QueuedInput}
    (hinputs : s.inputs = head :: rest) (hid : head'.id = head.id)
    (hfresh : head'.sending = none → Fresh s.handed head.id) :
    (s.setInputs (head' :: rest)).Sound := by
  have hmemory := h.memory
  rw [hinputs] at hmemory
  have huntold : ∀ x ∈ s.inputs, ¬s.IsTold x.id := fun x hx ht => h.untold x.id ht ⟨x, hx, rfl⟩
  rw [hinputs] at huntold
  refine h.reset hbusy (hmemory.restamp hid hfresh) ?_ ?_
  · intro x hx
    rcases mem_cons.mp hx with rfl | hrest
    · rw [hid]
      exact huntold head mem_cons_self
    · exact huntold x (mem_cons_of_mem _ hrest)
  · intro id hmem
    rcases h.idle_taken hbusy id hmem with ht | ⟨x, hx, rfl⟩
    · exact Or.inl ht
    · rw [hinputs] at hx
      rcases mem_cons.mp hx with rfl | hrest
      · exact Or.inr ⟨head', mem_cons_self, hid⟩
      · exact Or.inr ⟨x, mem_cons_of_mem _ hrest, rfl⟩

theorem Sound.flights_idle (h : s.Sound) (hbusy : s.busy = false) : s.flights = [] := by
  rcases h.flying with ⟨-, hnil⟩ | ⟨hb, -⟩
  · exact hnil
  · rw [hbusy] at hb
    cases hb

theorem Sound.hand (h : s.Sound) (hbusy : s.busy = false) {q : InputQueue}
    (hq : s.queue = some q) {head : QueuedInput} {t : Nat}
    (hinputs : q.inputs = { head with sending := some t } :: rest) (hunsent : head.sending = none)
    (hfresh : Fresh s.handed head.id) (hdisk : s.disk.getD [] = q.inputs) :
    (s.handOver q.serial head).Sound := by
  have hsame : s.inputs = { head with sending := some t } :: rest := by
    rw [inputs_of_some hq, hinputs]
  have hmemory := h.memory
  have hkept := h.kept
  rw [hsame] at hmemory
  rw [hdisk, hinputs] at hkept
  have hborn : head.id < s.born :=
    hmemory.born { head with sending := some t } mem_cons_self
  have hafter : ∀ k ∈ s.handed, k.id ≤ head.id := fun k hk =>
    hmemory.after k hk { head with sending := some t } mem_cons_self
  have huntold : ¬s.IsTold head.id := fun ht =>
    h.untold head.id ht
      ⟨{ head with sending := some t }, by rw [hsame]; exact mem_cons_self, rfl⟩
  refine ⟨h.queue, ?_, h.toldBorn, ?_, ?_, ?_, ?_, ?_, h.tells, h.untold, ?_⟩
  · exact forall_mem_append.mpr ⟨h.handedBorn, forall_mem_singleton.mpr hborn⟩
  · show Ordered (s.handed ++ _) s.born s.inputs
    rw [hsame]
    exact hmemory.hand (some_ne_none t) rfl
  · show Ordered (s.handed ++ _) s.born (s.disk.getD [])
    rw [hdisk, hinputs]
    exact hkept.hand (some_ne_none t) rfl
  · refine Or.inr ⟨rfl, { serial := q.serial, head := head, handing := s.handed.length }, ?_,
      h.queue q hq, hborn, hunsent, ⟨s.handed, rfl, rfl, hfresh⟩, ?_, ?_, huntold⟩
    · show s.flights ++ _ = _
      rw [h.flights_idle hbusy]
      rfl
    · intro _
      exact ⟨t, rest, hsame⟩
    · have hown : (s.handOver q.serial head).forgotten
          { serial := q.serial, head := head, handing := s.handed.length } = false := by
        rw [forgotten, handOver, hq]
        simp
      rw [hown]
      intro hother
      cases hother
  · refine pairwise_append.mpr ⟨h.once, pairwise_singleton _ _, ?_⟩
    intro k hk j hj hid
    obtain rfl := mem_singleton.mp hj
    exact hfresh k hk hid
  · refine pairwise_append.mpr ⟨h.order, pairwise_singleton _ _, ?_⟩
    intro k hk j hj
    obtain rfl := mem_singleton.mp hj
    exact hafter k hk
  · intro id hid
    rcases h.idle_taken hbusy id hid with ht | hw
    · exact Or.inl ht
    · exact Or.inr (Or.inl hw)

theorem Sound.deliver_cases (h : s.Sound) (safe : Bool) (turn : Turn) :
    s.deliver safe turn = s ∨
      ∃ (s' : RunInputs) (serial : Nat) (head : QueuedInput),
        s.deliver safe turn = s'.handOver serial head ∧ s'.Sound ∧
          (s'.handOver serial head).Sound ∧ s'.handed = s.handed := by
  unfold RunInputs.deliver
  cases hq : s.queue with
  | none => exact Or.inl rfl
  | some q =>
    dsimp only
    cases hinputs : q.inputs with
    | nil => exact Or.inl rfl
    | cons head rest =>
      dsimp only
      split
      · exact Or.inl rfl
      next hready =>
      rw [Bool.or_eq_true, Bool.or_eq_true, not_or, not_or] at hready
      obtain ⟨⟨hbusy, hsent⟩, -⟩ := hready
      have hidle : s.busy = false := Bool.eq_false_iff.mpr hbusy
      have hunsent : head.sending = none := by simpa using hsent
      have hsame : s.inputs = head :: rest := by rw [inputs_of_some hq, hinputs]
      have hfresh : Fresh s.handed head.id :=
        h.memory.fresh head (by rw [hsame]; exact mem_cons_self) hunsent
      have hstamped : (s.setInputs ({ head with sending := some turn.now } :: rest)).Sound :=
        h.restamp hidle hsame rfl fun hnone => by cases hnone
      cases hw : (s.setInputs ({ head with sending := some turn.now } :: rest)).write safe
          turn.stamped with
      | none => exact Or.inl rfl
      | some s' =>
        have hwritten := hstamped.written
        rw [← write_eq_some hw] at hwritten
        have hs' := write_eq_some hw
        have hqueue : s'.queue = some { q with
            inputs := { head with sending := some turn.now } :: rest } := by
          rw [hs', setInputs_of_some hq]
        have hhanded : s'.handed = s.handed := by rw [hs', RunInputs.setInputs]
        refine Or.inr ⟨s', q.serial, head, rfl, hwritten, ?_, hhanded⟩
        refine hwritten.hand ?_ hqueue rfl hunsent ?_ ?_
        · rw [hs']
          exact hidle
        · rw [hhanded]
          exact hfresh
        · rw [hs']
          rfl

theorem Sound.deliver (h : s.Sound) (turn : Turn) : (s.deliver safe turn).Sound := by
  obtain hsame | ⟨s', serial, head, heq, -, hhanded, -⟩ := h.deliver_cases safe turn
  · rw [hsame]
    exact h
  · rw [heq]
    exact hhanded

theorem Sound.enqueue (h : s.Sound) (text : String) (sender : InputSender)
    (requestId : Option String) (turn : Turn) :
    (s.enqueue safe text sender requestId turn).Sound :=
  Sound.deliver (h.push text sender requestId none turn) turn

theorem Sound.join (h : s.Sound) (last' : QueuedInput) {last : QueuedInput}
    {item : Option String} (hlast : s.inputs.getLast? = some last)
    (hjoins : s.joins last item = true)
    (hid : last'.id = last.id) (hsending : last'.sending = last.sending) :
    (s.setInputs (s.inputs.dropLast ++ [last'])).Sound := by
  rw [joins, Bool.and_eq_true, Bool.and_eq_true, Bool.and_eq_true] at hjoins
  obtain ⟨⟨⟨-, hunsent⟩, hidle⟩, -⟩ := hjoins
  have hnone : last.sending = none := by simpa using hunsent
  have hbusy : s.busy = false := by simpa using hidle
  have hinputs : s.inputs.dropLast ++ [last] = s.inputs :=
    dropLast_append_getLast? last hlast
  have hmemory := h.memory
  rw [← hinputs] at hmemory
  refine h.reset hbusy (hmemory.join hid (hsending.trans hnone) hnone) ?_ ?_
  · intro x hx ht
    rcases mem_snoc.mp hx with hold | rfl
    · exact h.untold x.id ht ⟨x, hinputs ▸ mem_append_left _ hold, rfl⟩
    · rw [hid] at ht
      exact h.untold last.id ht ⟨last, List.mem_of_getLast? hlast, rfl⟩
  · intro id hmem
    rcases h.idle_taken hbusy id hmem with ht | ⟨x, hx, rfl⟩
    · exact Or.inl ht
    · rw [← hinputs] at hx
      rcases mem_snoc.mp hx with hold | rfl
      · exact Or.inr ⟨x, mem_append_left _ hold, rfl⟩
      · exact Or.inr ⟨last', mem_append_right _ mem_cons_self, hid⟩

theorem Sound.wake (h : s.Sound) (fact : String) (item : Option String) (turn : Turn) :
    (s.wake safe fact item turn).Sound := by
  rw [RunInputs.wake]
  refine Sound.deliver ?_ turn
  cases hlast : s.inputs.getLast? with
  | none => exact h.push fact .fieldd none _ turn
  | some last =>
    dsimp only
    split
    · next hjoins =>
      refine Sound.keep ?_ turn.kept
      exact h.join
        { last with text := last.text ++ " · " ++ fact, items := joined last.items item }
        hlast hjoins rfl rfl
    · exact h.push fact .fieldd none _ turn

theorem keep_tell (took : Bool) (id : Nat) (outcome : FinalOutcome) :
    (s.keep safe took).tell id outcome = (s.tell id outcome).keep safe took := by
  rw [RunInputs.keep, RunInputs.keep, write, write]
  split <;> rfl

variable {outcome : FinalOutcome}

theorem isTold_tell {id : Nat} {i : Nat} :
    (s.tell id outcome).IsTold i ↔ s.IsTold i ∨ i = id := by
  constructor
  · rintro ⟨t, ht, rfl⟩
    rcases mem_snoc.mp ht with hold | hnew
    · exact Or.inl ⟨t, hold, rfl⟩
    · rw [hnew]
      exact Or.inr rfl
  · rintro (⟨t, ht, rfl⟩ | rfl)
    · exact ⟨t, mem_append_left _ ht, rfl⟩
    · exact ⟨⟨i, outcome⟩, mem_append_right _ mem_cons_self, rfl⟩

theorem nodup_tell (h : s.Sound) {id : Nat} (hid : ¬s.IsTold id) :
    ((s.tell id outcome).told.map Told.id).Nodup := by
  show ((s.told ++ [(⟨id, outcome⟩ : Told)]).map Told.id).Nodup
  rw [map_append, map_singleton, nodup_append]
  refine ⟨h.tells, nodup_singleton _, ?_⟩
  intro i hi j hj heq
  obtain ⟨t, ht, rfl⟩ := List.mem_map.mp hi
  rw [mem_singleton.mp hj] at heq
  exact hid ⟨t, ht, heq⟩

theorem Sound.toldBorn_tell (h : s.Sound) {id : Nat} (hid : id < s.born) :
    ∀ t ∈ (s.tell id outcome).told, t.id < s.born :=
  forall_mem_append.mpr ⟨h.toldBorn, forall_mem_singleton.mpr hid⟩

theorem Sound.tellHead (h : s.Sound) (hbusy : s.busy = false) {head : QueuedInput}
    (hinputs : s.inputs = head :: rest) (outcome : FinalOutcome) :
    ((s.setInputs rest).tell head.id outcome).Sound := by
  have hmemory := h.memory
  rw [hinputs] at hmemory
  have huntold : ¬s.IsTold head.id := fun ht =>
    h.untold head.id ht ⟨head, by rw [hinputs]; exact mem_cons_self, rfl⟩
  refine ⟨h.setInputs_queue rest, h.handedBorn,
    h.toldBorn_tell (hmemory.born head mem_cons_self), hmemory.tail, h.kept,
    Or.inl ⟨hbusy, h.flights_idle hbusy⟩, h.once, h.order, nodup_tell h huntold, ?_, ?_⟩
  · rintro id htold ⟨x, hx, rfl⟩
    rcases isTold_tell.mp htold with hold | hnew
    · exact h.untold x.id hold ⟨x, by rw [hinputs]; exact mem_cons_of_mem _ hx, rfl⟩
    · have hlt := hmemory.head_lt hx
      omega
  · intro id hid
    rcases h.idle_taken hbusy id hid with ht | ⟨x, hx, rfl⟩
    · exact Or.inl (isTold_tell.mpr (Or.inl ht))
    · rw [hinputs] at hx
      rcases mem_cons.mp hx with rfl | hrest
      · exact Or.inl (isTold_tell.mpr (Or.inr rfl))
      · exact Or.inr (Or.inl ⟨x, hrest, rfl⟩)

theorem Sound.sayRestarted (h : s.Sound) (turn : Turn) : (s.sayRestarted safe turn).Sound := by
  unfold RunInputs.sayRestarted
  cases hinputs : s.inputs with
  | nil => exact h
  | cons head rest =>
    dsimp only
    split
    · next hready =>
      rw [Bool.and_eq_true] at hready
      have hbusy : s.busy = false := by simpa using hready.2
      rw [keep_tell]
      exact Sound.keep (h.tellHead hbusy hinputs .uncertain) turn.kept
    · exact h

theorem Sound.poke (h : s.Sound) (turn : Turn) : (s.poke safe turn).Sound :=
  Sound.deliver (h.sayRestarted turn) turn

/-! A receipt comes. -/

variable {pre : List Handing}

theorem set_last {k k' : Handing} {n : Nat} (hn : n = pre.length) :
    (pre ++ [k]).set n k' = pre ++ [k'] := by
  rw [hn, set_append, if_neg (Nat.lt_irrefl _), Nat.sub_self]
  rfl

theorem landed_handed {k : Handing}
    (hhanded : s.handed = pre ++ [k]) (hn : f.handing = pre.length) (status : ReceiptStatus) :
    (s.landed f status).handed =
      pre ++ [{ id := f.head.id, text := markedText f.head, receipt := some status }] := by
  rw [landed]
  dsimp only
  rw [hhanded, set_last hn]

theorem landed_flights (hf : s.flights = [f]) (status : ReceiptStatus) :
    (s.landed f status).flights = [] := by
  rw [landed]
  dsimp only
  rw [hf]
  exact erase_cons_head f []

theorem pairwise_settled {R : Handing → Handing → Prop} {k k' : Handing}
    (hR : ∀ j, R j k → R j k') (h : (pre ++ [k]).Pairwise R) : (pre ++ [k']).Pairwise R := by
  obtain ⟨hpre, -, hlast⟩ := pairwise_append.mp h
  refine pairwise_append.mpr ⟨hpre, pairwise_singleton _ _, ?_⟩
  intro j hj i hi
  obtain rfl := mem_singleton.mp hi
  exact hR j (hlast j hj k mem_cons_self)

theorem Sound.landed_facts (h : s.Sound) (hfly : s.Flying f)
    (status : ReceiptStatus) :
    (∀ k ∈ (s.landed f status).handed, k.id < s.born) ∧
      Ordered (s.landed f status).handed s.born s.inputs ∧
      Ordered (s.landed f status).handed s.born (s.disk.getD []) ∧
      (s.landed f status).HandedOnce ∧ (s.landed f status).InOrder := by
  obtain ⟨pre, hhanded, hn, -⟩ := hfly.last
  have hset := landed_handed hhanded hn status
  have hmemory := h.memory
  have hkept := h.kept
  have honce := h.once
  have horder := h.order
  have hborn := h.handedBorn
  rw [HandedOnce, hhanded] at honce
  rw [InOrder, hhanded] at horder
  rw [hhanded] at hmemory hkept hborn
  rw [HandedOnce, InOrder, hset]
  refine ⟨?_, hmemory.settle, hkept.settle, ?_, ?_⟩
  · intro k hk
    rcases mem_snoc.mp hk with hpre | rfl
    · exact hborn k (mem_append_left _ hpre)
    · exact hfly.born
  · refine pairwise_settled ?_ honce
    intro j hjk hid
    exact hjk hid
  · refine pairwise_settled ?_ horder
    intro j hjk
    exact hjk

theorem Sound.landed (h : s.Sound) (hf : s.flights = [f]) (hfly : s.Flying f)
    (hown : s.forgotten f = false) (status : ReceiptStatus) : (s.landed f status).Sound := by
  obtain ⟨hborn, hmemory, hkept, honce, horder⟩ := h.landed_facts hfly status
  obtain ⟨t, rest, hinputs⟩ := hfly.own hown
  refine ⟨h.queue, hborn, h.toldBorn, hmemory, hkept, Or.inl ⟨rfl, landed_flights hf status⟩, honce,
    horder, h.tells, h.untold, ?_⟩
  intro id hid
  rcases h.noneLost id hid with ht | hw | ⟨g, hg, rfl⟩
  · exact Or.inl ht
  · exact Or.inr (Or.inl hw)
  · rw [hf] at hg
    obtain rfl := mem_singleton.mp hg
    refine Or.inr (Or.inl ⟨{ g.head with sending := some t }, ?_, rfl⟩)
    show _ ∈ s.inputs
    rw [hinputs]
    exact mem_cons_self

theorem Sound.landed_told (h : s.Sound) (hf : s.flights = [f]) (hfly : s.Flying f)
    (hother : s.forgotten f = true) (status : ReceiptStatus) :
    ((s.landed f status).tell f.head.id (outcomeOf status)).Sound := by
  obtain ⟨hborn, hmemory, hkept, honce, horder⟩ := h.landed_facts hfly status
  refine ⟨h.queue, hborn, h.toldBorn_tell hfly.born, hmemory, hkept,
    Or.inl ⟨rfl, landed_flights hf status⟩, honce, horder, nodup_tell h hfly.untold, ?_, ?_⟩
  · rintro id htold ⟨x, hx, rfl⟩
    rcases isTold_tell.mp htold with hold | hnew
    · exact h.untold x.id hold ⟨x, hx, rfl⟩
    · have hlt := (hfly.other hother x hx).1
      omega
  · intro id hid
    rcases h.noneLost id hid with ht | hw | ⟨g, hg, rfl⟩
    · exact Or.inl (isTold_tell.mpr (Or.inl ht))
    · exact Or.inr (Or.inl hw)
    · rw [hf] at hg
      obtain rfl := mem_singleton.mp hg
      exact Or.inl (isTold_tell.mpr (Or.inr rfl))

theorem Sound.receive (h : s.Sound) (hmem : f ∈ s.flights) (status : ReceiptStatus)
    (kept : Bool) : (s.receive safe f status kept).Sound := by
  rcases h.flying with ⟨-, hnil⟩ | ⟨-, g, hg, hfly⟩
  · rw [hnil] at hmem
    cases hmem
  rw [hg] at hmem
  obtain rfl := mem_singleton.mp hmem
  rw [RunInputs.receive]
  have hsame : (s.landed f status).forgotten f = s.forgotten f := rfl
  rw [hsame]
  cases hforgotten : s.forgotten f with
  | true => exact h.landed_told hg hfly hforgotten status
  | false =>
    rw [if_neg Bool.false_ne_true]
    have hlanded := h.landed hg hfly hforgotten status
    obtain ⟨t, rest, hinputs⟩ := hfly.own hforgotten
    have hinputs' : (s.landed f status).inputs = { f.head with sending := some t } :: rest :=
      hinputs
    rw [hinputs', tail_cons]
    split
    · next hrejected =>
      refine Sound.keep ?_ kept
      refine hlanded.restamp rfl hinputs' rfl ?_
      intro _
      obtain ⟨pre, hhanded, hn, hfresh⟩ := hfly.last
      rw [landed_handed hhanded hn status, hrejected]
      intro k hk hid
      rcases mem_snoc.mp hk with hpre | rfl
      · exact hfresh k hpre hid
      · rfl
    · rw [keep_tell]
      exact Sound.keep (hlanded.tellHead rfl hinputs' (outcomeOf status)) kept

theorem Sound.dropped (h : s.Sound) {left : List QueuedInput} (hsub : left.Sublist s.inputs)
    (hcover : ∀ x ∈ s.inputs, x ∈ left ∨ s.Flies x.id)
    (hflies : ∀ f ∈ s.flights, ∀ x ∈ left, x.id ≠ f.head.id) :
    Sound { s with queue := none, told := s.told ++ left.map endedAs } := by
  have htold : ∀ id, IsTold { s with queue := none, told := s.told ++ left.map endedAs } id ↔
      s.IsTold id ∨ ∃ x ∈ left, x.id = id := by
    intro id
    constructor
    · rintro ⟨t, ht, rfl⟩
      rcases mem_append.mp ht with hold | hnew
      · exact Or.inl ⟨t, hold, rfl⟩
      · obtain ⟨x, hx, rfl⟩ := List.mem_map.mp hnew
        exact Or.inr ⟨x, hx, rfl⟩
    · rintro (⟨t, ht, rfl⟩ | ⟨x, hx, rfl⟩)
      · exact ⟨t, mem_append_left _ ht, rfl⟩
      · exact ⟨endedAs x, mem_append_right _ (List.mem_map.mpr ⟨x, hx, rfl⟩), rfl⟩
  refine ⟨?_, h.handedBorn, ?_, Ordered.nil, h.kept, ?_, h.once, h.order, ?_, ?_, ?_⟩
  · intro q hq
    cases hq
  · intro t ht
    rcases mem_append.mp ht with hold | hnew
    · exact h.toldBorn t hold
    · obtain ⟨x, hx, rfl⟩ := List.mem_map.mp hnew
      exact h.memory.born x (hsub.mem hx)
  · rcases h.flying with hidle | ⟨hbusy, f, hf, hfly⟩
    · exact Or.inl hidle
    · refine Or.inr ⟨hbusy, f, hf, hfly.serial, hfly.born, hfly.unsent, hfly.last, ?_, ?_, ?_⟩
      · intro hown
        cases hown
      · intro _ x hx
        cases hx
      · intro ht
        rcases (htold f.head.id).mp ht with hold | ⟨x, hx, hid⟩
        · exact hfly.untold hold
        · exact hflies f (by rw [hf]; exact mem_cons_self) x hx hid
  · show ((s.told ++ left.map endedAs).map Told.id).Nodup
    rw [map_append, List.map_map, nodup_append]
    refine ⟨h.tells, ?_, ?_⟩
    · refine List.Pairwise.map _ ?_ (h.memory.sorted.sublist hsub)
      intro x y hlt
      exact Nat.ne_of_lt hlt
    · intro i hi j hj heq
      obtain ⟨t, ht, rfl⟩ := List.mem_map.mp hi
      obtain ⟨x, hx, rfl⟩ := List.mem_map.mp hj
      exact h.untold x.id ⟨t, ht, heq⟩ ⟨x, hsub.mem hx, rfl⟩
  · rintro id - ⟨x, hx, -⟩
    cases hx
  · intro id hid
    rcases h.noneLost id hid with ht | ⟨x, hx, rfl⟩ | hf
    · exact Or.inl ((htold id).mpr (Or.inl ht))
    · rcases hcover x hx with hleft | hflies
      · exact Or.inl ((htold x.id).mpr (Or.inr ⟨x, hleft, rfl⟩))
      · exact Or.inr (Or.inr hflies)
    · exact Or.inr (Or.inr hf)

theorem keep_told (took : Bool) (told : List Told) :
    ({ s.keep safe took with told := told } : RunInputs) =
      ({ s with told := told } : RunInputs).keep safe took := by
  rw [RunInputs.keep, RunInputs.keep, write, write]
  split <;> rfl

theorem told_keep (took : Bool) : (s.keep safe took).told = s.told := by
  rw [RunInputs.keep, write]
  split <;> rfl

theorem Sound.forget (h : s.Sound) (kept : Bool) (hclean : s.EndsClean) :
    (s.forget safe kept).Sound := by
  rw [RunInputs.forget, keep_told]
  refine Sound.keep ?_ kept
  rw [told_keep]
  rcases h.flying with ⟨hbusy, hnil⟩ | ⟨hbusy, f, hf, hfly⟩
  · rw [if_neg (by rw [hbusy]; exact Bool.false_ne_true)]
    refine h.dropped (List.Sublist.refl _) (fun x hx => Or.inl hx) ?_
    rw [hnil]
    intro f hf
    cases hf
  · rw [if_pos hbusy]
    have hmem : f ∈ s.flights := by
      rw [hf]
      exact mem_cons_self
    cases hforgotten : s.forgotten f with
    | true =>
      have hempty := hclean f hmem hforgotten
      refine h.dropped (tail_sublist _) ?_ ?_
      · rw [hempty]
        intro x hx
        cases hx
      · rw [hempty]
        intro _ _ x hx
        cases hx
    | false =>
      obtain ⟨t, rest, hinputs⟩ := hfly.own hforgotten
      have hmemory := h.memory
      rw [hinputs] at hmemory
      refine h.dropped (tail_sublist _) ?_ ?_
      · rw [hinputs]
        intro x hx
        rcases mem_cons.mp hx with rfl | hrest
        · exact Or.inr ⟨f, hmem, rfl⟩
        · exact Or.inl hrest
      · rw [hinputs, hf]
        intro g hg x hx
        obtain rfl := mem_singleton.mp hg
        exact Nat.ne_of_gt (hmemory.head_lt hx)

theorem Sound.reconcile (h : s.Sound) (holds kept : Bool)
    (hclean : s.inputs ≠ [] → holds = false → s.EndsClean) :
    (s.reconcile safe holds kept).Sound := by
  rw [RunInputs.reconcile]
  split
  · exact h
  · next hforget =>
    rw [Bool.or_eq_true, not_or, decide_eq_true_iff, Bool.not_eq_true] at hforget
    exact h.forget kept (hclean hforget.1 hforget.2)

theorem Sound.restart (h : s.Sound) : s.restart.Sound := by
  have hinputs : s.restart.inputs = s.disk.getD [] := by
    rw [inputs, RunInputs.restart]
    cases s.disk <;> rfl
  refine ⟨?_, h.handedBorn, ?_, ?_, h.kept, Or.inl ⟨rfl, rfl⟩, h.once, h.order, nodup_nil, ?_,
    ?_⟩
  · intro q hq
    obtain ⟨l, -, rfl⟩ := map_eq_some_iff.mp hq
    exact Nat.lt_succ_self _
  · intro t ht
    cases ht
  · rw [hinputs]
    exact h.kept
  · rintro id ⟨t, ht, -⟩
    cases ht
  · intro id hid
    obtain ⟨x, hx, rfl⟩ := List.mem_map.mp hid
    refine Or.inr (Or.inl ⟨x, ?_, rfl⟩)
    rw [hinputs]
    exact hx

theorem Sound.stopAtStamp (h : s.Sound) (turn : Turn) : (s.stopAtStamp safe turn).Sound := by
  rw [RunInputs.stopAtStamp]
  obtain hsame | ⟨s', serial, head, heq, hs', -, hhanded⟩ := h.deliver_cases safe turn
  · rw [hsame]
    exact h.restart
  · have hrestart : ({ s.deliver safe turn with handed := s.handed } : RunInputs).restart =
        s'.restart := by
      rw [heq, ← hhanded]
      rfl
    rw [hrestart]
    exact hs'.restart

end Keeps

end RunInputs

/-! ## Every run's queue -/

/-- What happens to one run's queue. -/
inductive InputEvent where
  | enqueue (text : String) (sender : InputSender) (requestId : Option String) (turn : Turn)
  | wake (fact : String) (item : Option String) (turn : Turn)
  | poke (turn : Turn)
  | receipt (flight : Flight) (status : ReceiptStatus) (kept : Bool)
  | forget (kept : Bool)
  deriving DecidableEq, Repr

/-- What happens to the queues: at one run, or to all of them. -/
inductive QueuesEvent where
  | run (runtimeRunId : String) (event : InputEvent)
  | reconcile (holds kept : String → Bool)
  | restart
  | stopAtStamp (runtimeRunId : String) (turn : Turn)

namespace RunInputs

def next (safe : Bool) (s : RunInputs) : InputEvent → Option RunInputs
  | .enqueue text sender requestId turn => some (s.enqueue safe text sender requestId turn)
  | .wake fact item turn => some (s.wake safe fact item turn)
  | .poke turn => some (s.poke safe turn)
  | .receipt flight status kept =>
    if flight ∈ s.flights then some (s.receive safe flight status kept) else none
  | .forget kept => some (s.forget safe kept)

end RunInputs

abbrev AgentInputQueues := String → RunInputs

namespace AgentInputQueues

def next (s : AgentInputQueues) : QueuesEvent → Option AgentInputQueues
  | .run runtimeRunId event =>
    ((s runtimeRunId).next (safeId runtimeRunId) event).map (Function.update s runtimeRunId)
  | .reconcile holds kept => some fun r => (s r).reconcile (safeId r) (holds r) (kept r)
  | .restart => some fun r => (s r).restart
  | .stopAtStamp runtimeRunId turn => some fun r =>
    if r = runtimeRunId then (s r).stopAtStamp (safeId r) turn else (s r).restart

def queuesMachine : Machine AgentInputQueues QueuesEvent :=
  { start := fun _ => {}, next := next }

def Orderly (s : AgentInputQueues) : QueuesEvent → Prop
  | .run runtimeRunId (.forget _) => (s runtimeRunId).EndsClean
  | .reconcile holds _ => ∀ r, (s r).inputs ≠ [] → holds r = false → (s r).EndsClean
  | _ => True

theorem sound_next {s s' : AgentInputQueues} {event : QueuesEvent} (h : ∀ r, (s r).Sound)
    (horderly : Orderly s event) (hnext : next s event = some s') : ∀ r, (s' r).Sound := by
  cases event with
  | run runtimeRunId event =>
    obtain ⟨t, ht, rfl⟩ := map_eq_some_iff.mp hnext
    have hrun := h runtimeRunId
    have hsound : t.Sound := by
      cases event with
      | enqueue text sender requestId turn =>
        obtain rfl := some.inj ht
        exact hrun.enqueue text sender requestId turn
      | wake fact item turn =>
        obtain rfl := some.inj ht
        exact hrun.wake fact item turn
      | poke turn =>
        obtain rfl := some.inj ht
        exact hrun.poke turn
      | receipt flight status kept =>
        rw [RunInputs.next] at ht
        split at ht
        · next hmem =>
          obtain rfl := some.inj ht
          exact hrun.receive hmem status kept
        · cases ht
      | forget kept =>
        obtain rfl := some.inj ht
        exact hrun.forget kept horderly
    intro r
    by_cases hr : r = runtimeRunId
    · rw [hr, Function.update_self]
      exact hsound
    · rw [Function.update_of_ne hr]
      exact h r
  | reconcile holds kept =>
    obtain rfl := some.inj hnext
    intro r
    exact (h r).reconcile (holds r) (kept r) (horderly r)
  | restart =>
    obtain rfl := some.inj hnext
    intro r
    exact (h r).restart
  | stopAtStamp runtimeRunId turn =>
    obtain rfl := some.inj hnext
    intro r
    dsimp only
    split
    · exact (h r).stopAtStamp turn
    · exact (h r).restart

/-- Where no run is forgotten with inputs of its own behind an earlier delivery, no input is pasted
again once taken, inputs are pasted in the order they were queued, one delivery of a run is in
flight, and every input of a life of fieldd has one outcome or is still to have it. -/
theorem inputs_never_pasted_twice {s : AgentInputQueues}
    (h : queuesMachine.Reaches Orderly s) (r : String) :
    (s r).HandedOnce ∧ (s r).InOrder ∧ (s r).OneInFlight ∧ (s r).ToldOnce ∧ (s r).NoneLost := by
  have hs : ∀ r, (s r).Sound :=
    h.invariant (fun _ => RunInputs.sound_start) fun _ _ _ hs hok hnext => sound_next hs hok hnext
  have hr := hs r
  refine ⟨hr.once, hr.order, ?_, ⟨hr.tells, ?_⟩, hr.noneLost⟩
  · rw [RunInputs.OneInFlight]
    rcases hr.flying with ⟨-, hnil⟩ | ⟨-, f, hf, -⟩
    · rw [hnil]
      exact Nat.zero_le 1
    · rw [hf]
      exact Nat.le_refl 1
  · intro id htold
    refine ⟨hr.untold id htold, ?_⟩
    rintro ⟨f, hf, rfl⟩
    rcases hr.flying with ⟨-, hnil⟩ | ⟨-, g, hg, hfly⟩
    · rw [hnil] at hf
      cases hf
    · rw [hg] at hf
      obtain rfl := List.mem_singleton.mp hf
      exact hfly.untold htold

/-! ## Runs -/

def turn : Turn := { now := 0, idle := true, kept := true, stamped := true }

def said (text : String) : QueuesEvent := .run "run-1" (.enqueue text .you none turn)

def endedTwice : List QueuesEvent :=
  [said "first", .run "run-1" (.forget true), said "second", .run "run-1" (.forget true)]

/-- The second input is gone, and nothing was told of it. -/
theorem input_lost_untold :
    ∃ s, queuesMachine.Reachable s ∧
      ((s "run-1").taken = [0, 1] ∧ (s "run-1").told = [] ∧ (s "run-1").inputs = [] ∧
        (s "run-1").flights.map (fun f => f.head.id) = [0]) ∧
      ¬(s "run-1").NoneLost := by
  obtain ⟨s, hs, hp⟩ := Machine.exists_of_run (M := queuesMachine)
    (fun s => decide ((s "run-1").taken = [0, 1] ∧ (s "run-1").told = [] ∧
      (s "run-1").inputs = [] ∧ (s "run-1").flights.map (fun f => f.head.id) = [0]))
    endedTwice (by decide)
  have hstate := of_decide_eq_true hp
  refine ⟨s, hs, hstate, ?_⟩
  obtain ⟨htaken, htold, hinputs, hflights⟩ := hstate
  intro hlost
  rcases hlost 1 (by rw [htaken]; decide) with ⟨t, ht, -⟩ | ⟨x, hx, -⟩ | ⟨f, hf, hid⟩
  · rw [htold] at ht
    cases ht
  · rw [hinputs] at hx
    cases hx
  · have hmem : f.head.id ∈ (s "run-1").flights.map (fun f => f.head.id) :=
      List.mem_map.mpr ⟨f, hf, rfl⟩
    rw [hflights, hid] at hmem
    exact absurd hmem (by decide)

def flightOf (serial id : Nat) (text : String) (handing : Nat) : Flight :=
  { serial := serial
    head := { id := id, text := text, sender := .you, queuedAt := 0 }
    handing := handing }

def endsIdle (s : AgentInputQueues) : QueuesEvent → Bool
  | .run runtimeRunId (.forget _) => (s runtimeRunId).flights = []
  | .reconcile _ _ => false
  | _ => true

theorem orderly_of_endsIdle (s : AgentInputQueues) (event : QueuesEvent)
    (h : endsIdle s event = true) : Orderly s event := by
  cases event with
  | run runtimeRunId event =>
    cases event with
    | forget kept =>
      have hnil : (s runtimeRunId).flights = [] := of_decide_eq_true h
      intro f hf
      rw [hnil] at hf
      cases hf
    | enqueue _ _ _ _ => trivial
    | wake _ _ _ => trivial
    | poke _ => trivial
    | receipt _ _ _ => trivial
  | reconcile _ _ => cases h
  | restart => trivial
  | stopAtStamp _ _ => trivial

def pastedInTurn : List QueuesEvent :=
  [said "first", said "second", .run "run-1" (.receipt (flightOf 0 0 "first" 0) .confirmed true),
    .restart, .run "run-1" (.poke turn),
    .run "run-1" (.receipt (flightOf 1 1 "second" 1) .rejected true), .run "run-1" (.poke turn),
    .run "run-1" (.receipt (flightOf 1 1 "second" 2) .uncertain true),
    .run "run-1" (.enqueue "third" .you none { turn with idle := false }),
    .run "run-1" (.forget true)]

theorem inputs_never_pasted_twice_in_turn :
    ∃ s, queuesMachine.Reaches Orderly s ∧
      (s "run-1").handed.map (fun h => (h.id, h.receipt)) =
        [(0, some .confirmed), (1, some .rejected), (1, some .uncertain)] ∧
      (s "run-1").told = [⟨1, .uncertain⟩, ⟨2, .dropped⟩] ∧
      (s "run-1").HandedOnce ∧ (s "run-1").InOrder ∧ (s "run-1").OneInFlight ∧
        (s "run-1").ToldOnce ∧ (s "run-1").NoneLost := by
  obtain ⟨s, hs, hp⟩ := Machine.exists_of_keeping_run orderly_of_endsIdle
    (M := queuesMachine)
    (fun s => decide ((s "run-1").handed.map (fun h => (h.id, h.receipt)) =
        [(0, some .confirmed), (1, some .rejected), (1, some .uncertain)] ∧
      (s "run-1").told = [⟨1, .uncertain⟩, ⟨2, .dropped⟩])) pastedInTurn (by decide)
  obtain ⟨hhanded, htold⟩ := of_decide_eq_true hp
  exact ⟨s, hs, hhanded, htold, inputs_never_pasted_twice hs "run-1"⟩

end AgentInputQueues

end VibeField.Fieldd
