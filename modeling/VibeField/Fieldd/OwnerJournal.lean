import Mathlib.Data.List.Nodup
import Mathlib.Data.List.Perm.Subperm
import VibeField.Base.GiveUp

/-!
# The owner's receipts

A mutation that another device forwards carries a key.  The device that owns the thing executes
the first arrival of a key and journals how it ended; a later arrival is answered from the
journal, and one that comes meanwhile waits.  The journal keeps so many settled calls, each for
its time to live, and past that gives up the one that arrived first.
-/

namespace VibeField.Fieldd

open List Option

/-- A key is the calling device's. -/
structure ForwardId where
  peer : String
  key : String
  deriving DecidableEq, Repr

structure ForwardCall where
  id : ForwardId
  method : String
  digest : String
  deriving DecidableEq, Repr

structure StoredError (J : Type) where
  kind : String
  message : String
  retryable : Bool
  details : Option J
  deriving DecidableEq, Repr

/-- How a call ended, as it is journaled: a result is stored as JSON, or not at all where it is
too large, and is let go once a grant in it is dead. -/
inductive ForwardOutcome (J : Type) where
  | applied (resultJson : Option (Option J)) (replayUntil : Option Nat)
  | refused (error : StoredError J)
  deriving DecidableEq, Repr

/-- What a call is answered. -/
inductive ForwardReply (J : Type) where
  | result (json : Option J)
  | receipt (appliedAt : Nat) (resultExpired : Bool)
  | error (error : StoredError J)
  | conflict
  deriving DecidableEq, Repr

def credentialMints : List String :=
  ["terminal.openTicket", "freeway.approve", "index.openTicket",
    "compose.sparks.transcript.openTicket"]

/-- `JournalLimits`, and what is stored of a result or an error. -/
structure JournalRules (R E J : Type) where
  depth : Nat
  ttlMs : Nat
  resultJson : R → Option (Option J)
  transportGrantExpiry : R → Nat → Option Nat
  storedError : E → StoredError J

namespace ForwardOutcome

variable {R E J : Type}

def stored (rules : JournalRules R E J) (appliedAt : Nat) : Except E R → ForwardOutcome J
  | .ok result =>
    .applied (rules.resultJson result) (rules.transportGrantExpiry result appliedAt)
  | .error e => .refused (rules.storedError e)

def retryable : ForwardOutcome J → Bool
  | .applied _ _ => false
  | .refused e => e.retryable

def replay (appliedAt now : Nat) : ForwardOutcome J → ForwardReply J
  | .refused e => .error e
  | .applied json replayUntil =>
    if replayUntil.any (· ≤ now) then .receipt appliedAt true
    else
      match json with
      | none => .receipt appliedAt false
      | some json => .result json

end ForwardOutcome

/-- An entry of the journal; `order` counts the calls that settled before it. -/
structure OwnerEntry (J : Type) where
  call : ForwardCall
  startedAt : Nat
  outcome : Option (ForwardOutcome J) := none
  order : Nat := 0
  deriving DecidableEq, Repr

/-- A call that settled, and when. -/
structure Settlement (J : Type) where
  call : ForwardCall
  settledAt : Nat
  outcome : ForwardOutcome J
  deriving DecidableEq, Repr

/-- How an arrival is met. -/
inductive Meeting (J : Type) where
  | executes
  | waits
  | replies (reply : ForwardReply J)
  deriving DecidableEq, Repr

/-- An arrival, or the answer to one that waited; `seen` counts the calls settled by then. -/
structure ForwardArrival (J : Type) where
  call : ForwardCall
  metAt : Nat
  seen : Nat
  meeting : Meeting J
  deriving DecidableEq, Repr

/-- `entries` in the order they came.  `history` is every call that settled, `arrivals` every
arrival there was. -/
structure OwnerJournal (J : Type) where
  clock : Nat := 0
  entries : List (OwnerEntry J) := []
  waiting : List ForwardCall := []
  history : List (Settlement J) := []
  arrivals : List (ForwardArrival J) := []

namespace OwnerEntry

variable {J : Type}

def isSettled (e : OwnerEntry J) : Bool := e.outcome.isSome

def settle (e : OwnerEntry J) (now order : Nat) (outcome : ForwardOutcome J) : OwnerEntry J :=
  { e with startedAt := now, outcome := some outcome, order := order }

end OwnerEntry

namespace OwnerJournal

section Steps

variable {R E J : Type} (rules : JournalRules R E J)

def sweep (s : OwnerJournal J) : OwnerJournal J :=
  { s with entries := s.entries.filter fun e =>
      !e.isSettled || decide (s.clock ≤ e.startedAt + rules.ttlMs) }

def find (s : OwnerJournal J) (id : ForwardId) : Option (OwnerEntry J) :=
  s.entries.find? fun e => e.call.id = id

def note (s : OwnerJournal J) (call : ForwardCall) (meeting : Meeting J) : OwnerJournal J :=
  { s with arrivals := s.arrivals ++
      [{ call := call, metAt := s.clock, seen := s.history.length, meeting := meeting }] }

def met (s : OwnerJournal J) (hit : OwnerEntry J) (call : ForwardCall) : Meeting J :=
  if hit.call ≠ call then .replies .conflict
  else
    match hit.outcome with
    | none => .waits
    | some outcome => .replies (outcome.replay hit.startedAt s.clock)

def journaled (s : OwnerJournal J) (call : ForwardCall) : OwnerJournal J × Meeting J :=
  let s := s.sweep rules
  match s.find call.id with
  | some hit =>
    match s.met hit call with
    | .waits => ({ s.note call .waits with waiting := s.waiting ++ [call] }, .waits)
    | meeting => (s.note call meeting, meeting)
  | none =>
    ({ s.note call .executes with
        entries := s.entries ++ [{ call := call, startedAt := s.clock }] }, .executes)

def arrive (s : OwnerJournal J) (call : ForwardCall) : OwnerJournal J × Meeting J :=
  if call.method ∈ credentialMints then (s, .executes) else s.journaled rules call

def trim (entries : List (OwnerEntry J)) : List (OwnerEntry J) :=
  giveUp OwnerEntry.isSettled (entries.countP OwnerEntry.isSettled - rules.depth) entries

def settledEntries (s : OwnerJournal J) (id : ForwardId) (outcome : ForwardOutcome J) :
    List (OwnerEntry J) :=
  s.entries.map fun e =>
    if e.call.id = id then e.settle s.clock s.history.length outcome else e

def answerWaiting (s : OwnerJournal J) (call : ForwardCall) (outcome : ForwardOutcome J) :
    OwnerJournal J :=
  (s.waiting.filter fun w => w.id = call.id).foldl
    (fun s' w => s'.note w (.replies (outcome.replay s.clock s.clock)))
    { s with waiting := s.waiting.filter fun w => w.id ≠ call.id }

/-- An execution ends; one refused as retryable leaves nothing. -/
def finish (s : OwnerJournal J) (id : ForwardId) (ended : Except E R) : Option (OwnerJournal J) :=
  match s.find id with
  | none => none
  | some e =>
    if e.isSettled then none
    else
      let outcome := ForwardOutcome.stored rules s.clock ended
      let entries := s.settledEntries id outcome
      if outcome.retryable then
        some (answerWaiting
          { s with entries := trim rules (entries.filter fun e => e.call.id ≠ id) }
          e.call outcome)
      else
        some (answerWaiting
          { s with
            entries := trim rules entries
            history := s.history ++
              [{ call := e.call, settledAt := s.clock, outcome := outcome }] }
          e.call outcome)

/-! ## Receipts -/

/-- A receipt within its time to live and among the `depth` most recently settled. -/
def Live (i : Nat) (r : Settlement J) (now seen : Nat) : Prop :=
  i < seen ∧ seen ≤ i + rules.depth ∧ now ≤ r.settledAt + rules.ttlMs

/-- What an arrival is due while there is a live receipt of its key. -/
def Due (r : Settlement J) (a : ForwardArrival J) : Prop :=
  a.meeting = .replies
    (if a.call = r.call then r.outcome.replay r.settledAt a.metAt else .conflict)

/-- No call of a key settles while a receipt of the key is live. -/
def AtMostOnce (s : OwnerJournal J) : Prop :=
  ∀ i j r q, i < j → s.history[i]? = some r → s.history[j]? = some q → r.call.id = q.call.id →
    ¬Live rules i r q.settledAt j

/-- Every arrival while a receipt of its key is live is answered by it. -/
def Answers (s : OwnerJournal J) : Prop :=
  ∀ a ∈ s.arrivals, ∀ i r, s.history[i]? = some r → r.call.id = a.call.id →
    Live rules i r a.metAt a.seen → Due r a

/-- Of so many settled entries the one that came first is the one that settled first, or is past
its time. -/
def OldestFirst (now : Nat) (entries : List (OwnerEntry J)) : Prop :=
  entries.countP OwnerEntry.isSettled ≤ rules.depth ∨
    ∀ e ∈ entries.find? OwnerEntry.isSettled,
      e.startedAt + rules.ttlMs < now ∨
        ∀ e' ∈ entries, e'.isSettled = true → e.order ≤ e'.order

end Steps

/-! ## What the journal keeps -/

section Keeps

variable {R E J : Type} {rules : JournalRules R E J} {s : OwnerJournal J} {r : Settlement J}

theorem Live.earlier {i now now' seen seen' : Nat}
    (h : Live rules i r now' seen') (hi : i < seen) (hnow : now ≤ now') (hseen : seen ≤ seen') :
    Live rules i r now seen := by
  obtain ⟨-, hdepth, httl⟩ := h
  exact ⟨hi, by omega, by omega⟩

structure Sound (rules : JournalRules R E J) (s : OwnerJournal J) : Prop where
  ids : (s.entries.map fun e => e.call.id).Nodup
  settled : ∀ e ∈ s.entries, ∀ o, e.outcome = some o →
    s.history[e.order]? = some { call := e.call, settledAt := e.startedAt, outcome := o }
  kept : ∀ i r, s.history[i]? = some r → Live rules i r s.clock s.history.length →
    ∃ e ∈ s.entries, e.call = r.call ∧ e.outcome = some r.outcome ∧
      e.startedAt = r.settledAt ∧ e.order = i
  few : s.entries.countP OwnerEntry.isSettled ≤ rules.depth
  waits : ∀ w ∈ s.waiting, ∃ e ∈ s.entries, e.call = w ∧ e.outcome = none
  seen : ∀ a ∈ s.arrivals, a.seen ≤ s.history.length
  once : s.AtMostOnce rules
  answers : s.Answers rules

theorem sound_start : Sound rules {} where
  ids := nodup_nil
  settled := by
    intro _ h
    cases h
  kept := by
    intro _ _ h
    cases h
  few := Nat.zero_le _
  waits := by
    intro _ h
    cases h
  seen := by
    intro _ h
    cases h
  once := by
    intro _ _ _ _ _ h
    cases h
  answers := by
    intro _ h
    cases h

theorem Sound.entry_eq (h : Sound rules s) {e e' : OwnerEntry J} (he : e ∈ s.entries)
    (he' : e' ∈ s.entries) (hid : e.call.id = e'.call.id) : e = e' :=
  inj_on_of_nodup_map h.ids he he' hid

variable {e : OwnerEntry J}

theorem Sound.live_entry (h : Sound rules s) (he : e ∈ s.entries) {i : Nat}
    (hr : s.history[i]? = some r) (hid : r.call.id = e.call.id)
    (hlive : Live rules i r s.clock s.history.length) :
    e.call = r.call ∧ e.outcome = some r.outcome ∧ e.startedAt = r.settledAt := by
  obtain ⟨e', he', hcall, hout, hat, -⟩ := h.kept i r hr hlive
  obtain rfl := h.entry_eq he he' (by rw [hcall, hid])
  exact ⟨hcall, hout, hat⟩

theorem Sound.pending_dead (h : Sound rules s) (he : e ∈ s.entries)
    (hpending : e.outcome = none) {i : Nat} (hr : s.history[i]? = some r)
    (hid : r.call.id = e.call.id) : ¬Live rules i r s.clock s.history.length := by
  intro hlive
  have hout := (h.live_entry he hr hid hlive).2.1
  rw [hpending] at hout
  cases hout

theorem find_eq_some {id : ForwardId} (h : s.find id = some e) :
    e ∈ s.entries ∧ e.call.id = id :=
  ⟨List.mem_of_find?_eq_some h, by simpa using List.find?_some h⟩

theorem find_eq_none {id : ForwardId} (h : s.find id = none) :
    ∀ e ∈ s.entries, e.call.id ≠ id := by
  intro e he
  simpa using List.find?_eq_none.mp h e he

theorem Sound.sweep (h : Sound rules s) : Sound rules (s.sweep rules) where
  __ := h
  ids := h.ids.sublist (filter_sublist.map _)
  settled := fun e he => h.settled e (mem_filter.mp he).1
  kept := by
    intro i r hr hlive
    obtain ⟨e, he, hcall, hout, hat, horder⟩ := h.kept i r hr hlive
    refine ⟨e, mem_filter.mpr ⟨he, ?_⟩, hcall, hout, hat, horder⟩
    have httl : s.clock ≤ r.settledAt + rules.ttlMs := hlive.2.2
    rw [hat, decide_eq_true httl, Bool.or_true]
  few := Nat.le_trans (filter_sublist.countP_le) h.few
  waits := by
    intro w hw
    obtain ⟨e, he, hcall, hnone⟩ := h.waits w hw
    refine ⟨e, mem_filter.mpr ⟨he, ?_⟩, hcall, hnone⟩
    rw [OwnerEntry.isSettled, hnone]
    rfl

theorem Sound.note (h : Sound rules s) {call : ForwardCall} {meeting : Meeting J}
    (hdue : ∀ i r, s.history[i]? = some r → r.call.id = call.id →
      Live rules i r s.clock s.history.length →
        meeting = .replies
          (if call = r.call then r.outcome.replay r.settledAt s.clock else .conflict)) :
    Sound rules (s.note call meeting) where
  __ := h
  seen :=
    forall_mem_append.mpr ⟨h.seen, forall_mem_singleton.mpr (Nat.le_refl _)⟩
  answers := by
    intro a ha i r hr hid hlive
    rcases mem_append.mp ha with hold | hnew
    · exact h.answers a hold i r hr hid hlive
    · rw [mem_singleton.mp hnew] at hid hlive ⊢
      exact hdue i r hr hid hlive

theorem Sound.note_met (h : Sound rules s) {call : ForwardCall} {hit : OwnerEntry J}
    (hhit : s.find call.id = some hit) : Sound rules (s.note call (s.met hit call)) := by
  obtain ⟨hmem, hcallid⟩ := find_eq_some hhit
  refine h.note ?_
  intro i r hr hid hlive
  obtain ⟨hcall, hout, hat⟩ := h.live_entry hmem hr (hid.trans hcallid.symm) hlive
  rw [met]
  by_cases hsame : hit.call = call
  · rw [if_neg (by simpa using hsame), hout, if_pos (hsame.symm.trans hcall), hat]
  · rw [if_pos hsame, if_neg]
    rw [← hcall]
    exact Ne.symm hsame

theorem Sound.journaled (h : Sound rules s) (call : ForwardCall) :
    Sound rules (s.journaled rules call).1 := by
  have hs := h.sweep
  rw [OwnerJournal.journaled]
  dsimp only
  cases hfind : (s.sweep rules).find call.id with
  | some hit =>
    have hnoted := hs.note_met hfind
    obtain ⟨hmem, hcallid⟩ := find_eq_some hfind
    dsimp only
    cases hmet : (s.sweep rules).met hit call with
    | waits =>
      rw [hmet] at hnoted
      refine { hnoted with waits := ?_ }
      intro w hw
      rcases mem_append.mp hw with hold | hnew
      · exact hnoted.waits w hold
      · rw [mem_singleton.mp hnew]
        rw [met] at hmet
        split at hmet
        · cases hmet
        · next hsame =>
          refine ⟨hit, hmem, Decidable.not_not.mp hsame, ?_⟩
          cases hout : hit.outcome with
          | none => rfl
          | some o =>
            rw [hout] at hmet
            cases hmet
    | executes =>
      rw [hmet] at hnoted
      exact hnoted
    | replies reply =>
      rw [hmet] at hnoted
      exact hnoted
  | none =>
    have habsent := find_eq_none hfind
    have hnoted : Sound rules ((s.sweep rules).note call .executes) := by
      refine hs.note ?_
      intro i r hr hid hlive
      obtain ⟨e, he, hcall, -⟩ := hs.kept i r hr hlive
      exact absurd (by rw [hcall, hid]) (habsent e he)
    dsimp only
    refine ⟨?_, ?_, ?_, ?_, ?_, hnoted.seen, hnoted.once, hnoted.answers⟩
    · show ((_ ++ [_]).map _).Nodup
      rw [map_append, map_singleton, nodup_append]
      refine ⟨hs.ids, nodup_singleton _, ?_⟩
      intro id hid id' hid' heq
      obtain ⟨e, he, rfl⟩ := List.mem_map.mp hid
      rw [mem_singleton.mp hid'] at heq
      exact habsent e he heq
    · intro e he o ho
      rcases mem_append.mp he with hold | hnew
      · exact hs.settled e hold o ho
      · rw [mem_singleton.mp hnew] at ho
        cases ho
    · intro i r hr hlive
      obtain ⟨e, he, hrest⟩ := hs.kept i r hr hlive
      exact ⟨e, mem_append_left _ he, hrest⟩
    · show (_ ++ [_]).countP _ ≤ _
      rw [countP_append]
      have hnew : [({ call := call, startedAt := (s.sweep rules).clock } : OwnerEntry J)].countP
          OwnerEntry.isSettled = 0 := rfl
      rw [hnew]
      exact hs.few
    · intro w hw
      obtain ⟨e, he, hrest⟩ := hs.waits w hw
      exact ⟨e, mem_append_left _ he, hrest⟩

theorem Sound.arrive (h : Sound rules s) (call : ForwardCall) :
    Sound rules (s.arrive rules call).1 := by
  rw [OwnerJournal.arrive]
  split
  · exact h
  · exact h.journaled call

theorem Sound.waits_call (h : Sound rules s) {w : ForwardCall} (hw : w ∈ s.waiting)
    (he : e ∈ s.entries) (hid : w.id = e.call.id) : w = e.call := by
  obtain ⟨e', he', rfl, -⟩ := h.waits w hw
  rw [h.entry_eq he' he hid]

theorem Sound.notes {reply : ForwardReply J} :
    ∀ {s : OwnerJournal J}, Sound rules s → ∀ calls : List ForwardCall,
      (∀ w ∈ calls, ∀ i r, s.history[i]? = some r → r.call.id = w.id →
        Live rules i r s.clock s.history.length →
          reply = if w = r.call then r.outcome.replay r.settledAt s.clock else .conflict) →
      Sound rules (calls.foldl (fun s w => s.note w (.replies reply)) s)
  | _, h, [], _ => h
  | s, h, w :: calls, hdue => by
    have hnoted : Sound rules (s.note w (.replies reply)) := by
      refine h.note ?_
      intro i r hr hid hlive
      rw [hdue w mem_cons_self i r hr hid hlive]
    exact Sound.notes hnoted calls fun w' hw' => hdue w' (mem_cons_of_mem _ hw')

theorem Sound.tick (h : Sound rules s) (ms : Nat) :
    Sound rules { s with clock := s.clock + ms } where
  __ := h
  kept := by
    intro i r hr hlive
    exact h.kept i r hr (hlive.earlier hlive.1 (Nat.le_add_right _ _) (Nat.le_refl _))

end Keeps

/-! ## What a settled call leaves -/

section Trim

variable {R E J : Type} {rules : JournalRules R E J}

theorem trim_of_few {l : List (OwnerEntry J)}
    (h : l.countP OwnerEntry.isSettled ≤ rules.depth) : trim rules l = l := by
  rw [trim, Nat.sub_eq_zero_of_le h, giveUp]

theorem countP_trim_le (l : List (OwnerEntry J)) :
    (trim rules l).countP OwnerEntry.isSettled ≤ rules.depth := by
  rw [trim, countP_giveUp]
  omega

end Trim

section Settles

variable {R E J : Type} {rules : JournalRules R E J} {s : OwnerJournal J} {e : OwnerEntry J}
  {outcome : ForwardOutcome J}

theorem mem_settledEntries_other {e' : OwnerEntry J} (he' : e' ∈ s.entries)
    (hid : e'.call.id ≠ e.call.id) : e' ∈ s.settledEntries e.call.id outcome := by
  refine List.mem_map.mpr ⟨e', he', ?_⟩
  rw [if_neg hid]

theorem mem_settledEntries_self (he : e ∈ s.entries) :
    e.settle s.clock s.history.length outcome ∈ s.settledEntries e.call.id outcome := by
  refine List.mem_map.mpr ⟨e, he, ?_⟩
  rw [if_pos rfl]

theorem Sound.mem_settledEntries (h : Sound rules s) (he : e ∈ s.entries) {x : OwnerEntry J}
    (hx : x ∈ s.settledEntries e.call.id outcome) :
    x = e.settle s.clock s.history.length outcome ∨
      (x ∈ s.entries ∧ x.call.id ≠ e.call.id) := by
  obtain ⟨e', he', rfl⟩ := List.mem_map.mp hx
  by_cases hid : e'.call.id = e.call.id
  · rw [if_pos hid, h.entry_eq he' he hid]
    exact Or.inl rfl
  · rw [if_neg hid]
    exact Or.inr ⟨he', hid⟩

theorem settledEntries_ids (s : OwnerJournal J) (id : ForwardId) (outcome : ForwardOutcome J) :
    (s.settledEntries id outcome).map (fun e => e.call.id) =
      s.entries.map fun e => e.call.id := by
  rw [settledEntries, List.map_map]
  refine map_congr_left ?_
  intro e he
  show (if e.call.id = id then _ else e).call.id = e.call.id
  split <;> rfl

theorem countP_settledEntries {id : ForwardId} (outcome : ForwardOutcome J) :
    ∀ {entries : List (OwnerEntry J)}, (entries.map fun e => e.call.id).Nodup → e ∈ entries →
      e.call.id = id → e.outcome = none → ∀ now order,
      (entries.map fun e => if e.call.id = id then e.settle now order outcome else e).countP
          OwnerEntry.isSettled =
        entries.countP OwnerEntry.isSettled + 1
  | x :: rest, hnodup, he, hid, hpending, now, order => by
    rw [map_cons, nodup_cons] at hnodup
    rw [map_cons]
    rcases mem_cons.mp he with rfl | hrest
    · have hsame : rest.map (fun e => if e.call.id = id then e.settle now order outcome else e) =
          rest := by
        conv_rhs => rw [← List.map_id rest]
        refine map_congr_left ?_
        intro x hx
        rw [if_neg]
        · rfl
        · intro hxid
          exact hnodup.1 (List.mem_map.mpr ⟨x, hx, hxid.trans hid.symm⟩)
      have hunsettled : ¬e.isSettled = true := by
        rw [OwnerEntry.isSettled, hpending]
        exact Bool.false_ne_true
      rw [if_pos hid, hsame, countP_cons_of_pos rfl, countP_cons_of_neg hunsettled]
    · have hx : x.call.id ≠ id := by
        intro hxid
        exact hnodup.1 (List.mem_map.mpr ⟨e, hrest, hid.trans hxid.symm⟩)
      have ih := countP_settledEntries outcome hnodup.2 hrest hid hpending now order
      rw [if_neg hx, countP_cons, countP_cons, ih]
      omega

theorem countP_of_orders {entries : List (OwnerEntry J)} {history : List (Settlement J)} {i : Nat}
    (hids : (entries.map fun e => e.call.id).Nodup)
    (hsettled : ∀ x ∈ entries, ∀ o, x.outcome = some o →
      history[x.order]? = some { call := x.call, settledAt := x.startedAt, outcome := o })
    (hmin : ∀ x ∈ entries, x.isSettled = true → i ≤ x.order) :
    entries.countP OwnerEntry.isSettled ≤ history.length - i := by
  have hrecord : ∀ x ∈ entries.filter OwnerEntry.isSettled, ∃ r : Settlement J,
      history[x.order]? = some r ∧ r.call = x.call := by
    intro x hx
    obtain ⟨hmem, hset⟩ := mem_filter.mp hx
    obtain ⟨o, ho⟩ := isSome_iff_exists.mp hset
    exact ⟨_, hsettled x hmem o ho, rfl⟩
  have hnodup : ((entries.filter OwnerEntry.isSettled).map OwnerEntry.order).Nodup := by
    refine List.Nodup.map_on ?_ (hids.of_map.filter _)
    intro x hx y hy heq
    obtain ⟨r, hr, hrx⟩ := hrecord x hx
    obtain ⟨q, hq, hqy⟩ := hrecord y hy
    rw [heq, hq] at hr
    obtain rfl := some.inj hr
    refine inj_on_of_nodup_map hids (mem_filter.mp hx).1 (mem_filter.mp hy).1 ?_
    rw [← hrx, ← hqy]
  have hsub : (entries.filter OwnerEntry.isSettled).map OwnerEntry.order ⊆
      List.range' i (history.length - i) := by
    intro n hn
    obtain ⟨x, hx, rfl⟩ := List.mem_map.mp hn
    obtain ⟨r, hr, -⟩ := hrecord x hx
    have hlt := (List.getElem?_eq_some_iff.mp hr).1
    have hge := hmin x (mem_filter.mp hx).1 (mem_filter.mp hx).2
    rw [mem_range'_1]
    omega
  have hle := (subperm_of_subset hnodup hsub).length_le
  rwa [length_map, length_range', ← countP_eq_length_filter] at hle

theorem mem_trim {entries : List (OwnerEntry J)} {history : List (Settlement J)} {now i : Nat}
    {r : Settlement J} (hids : (entries.map fun e => e.call.id).Nodup)
    (hsettled : ∀ x ∈ entries, ∀ o, x.outcome = some o →
      history[x.order]? = some { call := x.call, settledAt := x.startedAt, outcome := o })
    (hfew : entries.countP OwnerEntry.isSettled ≤ rules.depth + 1)
    (holdest : OldestFirst rules now entries) (hlive : Live rules i r now history.length)
    {x : OwnerEntry J} (hx : x ∈ entries) (hat : x.startedAt = r.settledAt)
    (horder : x.order = i) : x ∈ trim rules entries := by
  obtain ⟨-, hdepth, httl⟩ := hlive
  by_cases hmore : entries.countP OwnerEntry.isSettled ≤ rules.depth
  · rw [trim_of_few hmore]
    exact hx
  have hone : entries.countP OwnerEntry.isSettled - rules.depth = 1 := by omega
  rw [trim, hone]
  refine (mem_giveUp_one hx).resolve_right ?_
  intro hfirst
  rcases holdest.resolve_left hmore x hfirst with hpast | hmin
  · omega
  · have hle := countP_of_orders hids hsettled hmin
    omega

/-- A call settles: the first settled entry given up, if one is, is not live. -/
theorem Sound.settle (h : Sound rules s) (he : e ∈ s.entries) (hpending : e.outcome = none)
    (holdest : OldestFirst rules s.clock (s.settledEntries e.call.id outcome)) :
    Sound rules
      { s with
        entries := trim rules (s.settledEntries e.call.id outcome)
        history := s.history ++ [{ call := e.call, settledAt := s.clock, outcome := outcome }]
        waiting := s.waiting.filter fun w => w.id ≠ e.call.id } := by
  have hids : ((s.settledEntries e.call.id outcome).map fun e => e.call.id).Nodup := by
    rw [settledEntries_ids]
    exact h.ids
  have hcount : (s.settledEntries e.call.id outcome).countP OwnerEntry.isSettled =
      s.entries.countP OwnerEntry.isSettled + 1 :=
    countP_settledEntries outcome h.ids he rfl hpending _ _
  have hlen : (s.history ++
      [({ call := e.call, settledAt := s.clock, outcome := outcome } : Settlement J)]).length =
        s.history.length + 1 := length_append
  have hsettled : ∀ x ∈ s.settledEntries e.call.id outcome, ∀ o, x.outcome = some o →
      (s.history ++ [{ call := e.call, settledAt := s.clock, outcome := outcome }])[x.order]? =
        some { call := x.call, settledAt := x.startedAt, outcome := o } := by
    intro x hx o ho
    rcases h.mem_settledEntries he hx with rfl | ⟨hmem, -⟩
    · obtain rfl := some.inj ho
      exact List.getElem?_concat_length
    · have hold := h.settled x hmem o ho
      rw [List.getElem?_append_left (List.getElem?_eq_some_iff.mp hold).1]
      exact hold
  refine ⟨?_, ?_, ?_, countP_trim_le _, ?_, ?_, ?_, ?_⟩
  · exact hids.sublist ((giveUp_sublist _ _).map _)
  · intro x hx
    exact hsettled x ((giveUp_sublist _ _).mem hx)
  · intro i r hr hlive
    have hfew := h.few
    have hsome : ∃ x ∈ s.settledEntries e.call.id outcome, x.call = r.call ∧
        x.outcome = some r.outcome ∧ x.startedAt = r.settledAt ∧ x.order = i := by
      rcases Nat.lt_or_ge i s.history.length with hlt | hge
      · rw [List.getElem?_append_left hlt] at hr
        have hold : Live rules i r s.clock s.history.length :=
          hlive.earlier hlt (Nat.le_refl _) (by rw [hlen]; omega)
        obtain ⟨x, hx, hcall, hout, hrest⟩ := h.kept i r hr hold
        refine ⟨x, mem_settledEntries_other hx ?_, hcall, hout, hrest⟩
        intro hid
        rw [h.entry_eq hx he hid, hpending] at hout
        cases hout
      · have hlast : i = s.history.length := by
          have hlt := hlive.1
          rw [hlen] at hlt
          omega
        subst hlast
        rw [List.getElem?_concat_length] at hr
        obtain rfl := some.inj hr
        exact ⟨_, mem_settledEntries_self he, rfl, rfl, rfl, rfl⟩
    obtain ⟨x, hx, hcall, hout, hat, horder⟩ := hsome
    refine ⟨x, mem_trim hids hsettled (by omega) holdest hlive hx hat horder, hcall, hout, hat,
      horder⟩
  · intro w hw
    obtain ⟨hmem, hid⟩ := mem_filter.mp hw
    obtain ⟨e', he', rfl, hnone⟩ := h.waits w hmem
    refine ⟨e', mem_giveUp_of_neg ?_ _ (mem_settledEntries_other he' (by simpa using hid)),
      rfl, hnone⟩
    rw [OwnerEntry.isSettled, hnone]
    rfl
  · intro a ha
    rw [hlen]
    exact Nat.le_succ_of_le (h.seen a ha)
  · intro i j r q hij hr hq hid
    rcases Nat.lt_or_ge j s.history.length with hlt | hge
    · rw [List.getElem?_append_left (by omega)] at hr
      rw [List.getElem?_append_left hlt] at hq
      exact h.once i j r q hij hr hq hid
    · have hlast : j = s.history.length := by
        have hlt := (List.getElem?_eq_some_iff.mp hq).1
        rw [hlen] at hlt
        omega
      subst hlast
      rw [List.getElem?_append_left hij] at hr
      rw [List.getElem?_concat_length] at hq
      obtain rfl := some.inj hq
      exact h.pending_dead he hpending hr hid
  · intro a ha i r hr hid hlive
    have hseen := h.seen a ha
    have hlt : i < s.history.length := Nat.lt_of_lt_of_le hlive.1 hseen
    rw [List.getElem?_append_left hlt] at hr
    exact h.answers a ha i r hr hid hlive

theorem Sound.leave (h : Sound rules s) (he : e ∈ s.entries) (hpending : e.outcome = none) :
    Sound rules
      { s with
        entries := trim rules ((s.settledEntries e.call.id outcome).filter fun x =>
          x.call.id ≠ e.call.id)
        waiting := s.waiting.filter fun w => w.id ≠ e.call.id } := by
  have hmem : ∀ x, x ∈ (s.settledEntries e.call.id outcome).filter (fun x =>
      x.call.id ≠ e.call.id) ↔ x ∈ s.entries ∧ x.call.id ≠ e.call.id := by
    intro x
    rw [mem_filter, decide_eq_true_iff]
    constructor
    · rintro ⟨hx, hid⟩
      rcases h.mem_settledEntries he hx with rfl | hold
      · exact absurd rfl hid
      · exact hold
    · rintro ⟨hx, hid⟩
      exact ⟨mem_settledEntries_other hx hid, hid⟩
  have hsame : (s.settledEntries e.call.id outcome).filter (fun x => x.call.id ≠ e.call.id) =
      s.entries.filter fun x => x.call.id ≠ e.call.id := by
    rw [settledEntries, List.filter_map]
    conv_rhs => rw [← List.map_id (s.entries.filter _)]
    have hcomp : s.entries.filter ((fun x : OwnerEntry J => decide (x.call.id ≠ e.call.id)) ∘
        fun x => if x.call.id = e.call.id then x.settle s.clock s.history.length outcome else x) =
          s.entries.filter fun x => x.call.id ≠ e.call.id := by
      refine filter_congr ?_
      intro x hx
      show decide ((if x.call.id = e.call.id then _ else x).call.id ≠ e.call.id) = _
      split <;> rfl
    rw [hcomp]
    refine map_congr_left ?_
    intro x hx
    have hid : x.call.id ≠ e.call.id := by simpa using (mem_filter.mp hx).2
    rw [if_neg hid]
    rfl
  rw [hsame]
  have hfew : (s.entries.filter fun x => x.call.id ≠ e.call.id).countP OwnerEntry.isSettled ≤
      rules.depth := Nat.le_trans filter_sublist.countP_le h.few
  rw [trim_of_few hfew]
  have hsub : (s.entries.filter fun x => x.call.id ≠ e.call.id).Sublist s.entries :=
    filter_sublist
  refine ⟨h.ids.sublist (hsub.map _), fun x hx => h.settled x (hsub.mem hx), ?_, hfew, ?_,
    h.seen, h.once, h.answers⟩
  · intro i r hr hlive
    obtain ⟨x, hx, hcall, hout, hrest⟩ := h.kept i r hr hlive
    refine ⟨x, mem_filter.mpr ⟨hx, ?_⟩, hcall, hout, hrest⟩
    rw [decide_eq_true_iff]
    intro hid
    rw [h.entry_eq hx he hid, hpending] at hout
    cases hout
  · intro w hw
    obtain ⟨hold, hid⟩ := mem_filter.mp hw
    obtain ⟨x, hx, rfl, hnone⟩ := h.waits w hold
    exact ⟨x, mem_filter.mpr ⟨hx, hid⟩, rfl, hnone⟩

theorem Sound.finish (h : Sound rules s) {id : ForwardId} {ended : Except E R}
    {s' : OwnerJournal J} (hfinish : s.finish rules id ended = some s')
    (horderly : (ForwardOutcome.stored rules s.clock ended).retryable = false →
      OldestFirst rules s.clock
        (s.settledEntries id (ForwardOutcome.stored rules s.clock ended))) :
    Sound rules s' := by
  unfold OwnerJournal.finish at hfinish
  dsimp only at hfinish
  split at hfinish
  · cases hfinish
  next e hfind =>
  obtain ⟨he, rfl⟩ := find_eq_some hfind
  split at hfinish
  · cases hfinish
  next hunsettled =>
  have hpending : e.outcome = none := by
    rw [OwnerEntry.isSettled, Bool.not_eq_true, isSome_eq_false_iff,
      isNone_iff_eq_none] at hunsettled
    exact hunsettled
  have hwaits : ∀ w ∈ s.waiting.filter (fun w => w.id = e.call.id), w = e.call := by
    intro w hw
    obtain ⟨hmem, hid⟩ := mem_filter.mp hw
    exact h.waits_call hmem he (by simpa using hid)
  split at hfinish
  · next hretry =>
    obtain rfl := some.inj hfinish
    rw [answerWaiting]
    refine Sound.notes (h.leave he hpending) _ ?_
    intro w hw i r hr hid hlive
    rw [hwaits w hw] at hid
    exact absurd hlive (h.pending_dead he hpending hr hid)
  · next hretry =>
    obtain rfl := some.inj hfinish
    rw [answerWaiting]
    refine Sound.notes (h.settle he hpending (horderly (Bool.eq_false_iff.mpr hretry))) _ ?_
    intro w hw i r hr hid hlive
    rw [hwaits w hw] at hid ⊢
    obtain ⟨hlt, hdepth, httl⟩ := hlive
    simp only [length_append, length_singleton] at hlt hdepth
    rcases Nat.lt_or_ge i s.history.length with hold | hge
    · rw [List.getElem?_append_left hold] at hr
      exact absurd ⟨hold, by omega, httl⟩ (h.pending_dead he hpending hr hid)
    · have hlast : i = s.history.length := by omega
      subst hlast
      rw [List.getElem?_concat_length] at hr
      obtain rfl := some.inj hr
      rw [if_pos rfl]

end Settles

/-! ## What came -/

section Came

variable {R E J : Type} {rules : JournalRules R E J} {s : OwnerJournal J} {P : ForwardCall → Prop}

structure Came (P : ForwardCall → Prop) (s : OwnerJournal J) : Prop where
  arrivals : ∀ a ∈ s.arrivals, P a.call
  waiting : ∀ w ∈ s.waiting, P w

theorem Came.mono {Q : ForwardCall → Prop} (h : s.Came P) (himp : ∀ call, P call → Q call) :
    s.Came Q :=
  ⟨fun a ha => himp _ (h.arrivals a ha), fun w hw => himp _ (h.waiting w hw)⟩

theorem Came.note (h : s.Came P) {call : ForwardCall} (hcall : P call) (meeting : Meeting J) :
    (s.note call meeting).Came P := by
  refine ⟨?_, h.waiting⟩
  exact forall_mem_append.mpr ⟨h.arrivals, forall_mem_singleton.mpr hcall⟩

theorem Came.notes {reply : ForwardReply J} : ∀ {s : OwnerJournal J}, s.Came P →
    ∀ calls : List ForwardCall, (∀ w ∈ calls, P w) →
      (calls.foldl (fun s w => s.note w (.replies reply)) s).Came P
  | _, h, [], _ => h
  | _, h, w :: calls, hcalls =>
    Came.notes (h.note (hcalls w mem_cons_self) (.replies reply)) calls fun w' hw' =>
      hcalls w' (mem_cons_of_mem _ hw')

theorem Came.arrive (h : s.Came P) (rules : JournalRules R E J) {call : ForwardCall}
    (hcall : P call) :
    (s.arrive rules call).1.Came P := by
  have hs : (s.sweep rules).Came P := ⟨h.arrivals, h.waiting⟩
  rw [OwnerJournal.arrive]
  split
  · exact h
  rw [OwnerJournal.journaled]
  dsimp only
  cases (s.sweep rules).find call.id with
  | some hit =>
    dsimp only
    cases (s.sweep rules).met hit call with
    | waits =>
      refine ⟨(hs.note hcall .waits).arrivals, ?_⟩
      exact forall_mem_append.mpr ⟨h.waiting, forall_mem_singleton.mpr hcall⟩
    | executes => exact hs.note hcall .executes
    | replies reply => exact hs.note hcall (.replies reply)
  | none =>
    have hnoted := hs.note hcall .executes
    exact ⟨hnoted.arrivals, hnoted.waiting⟩

theorem Came.answerWaiting (h : s.Came P) (call : ForwardCall) (outcome : ForwardOutcome J) :
    (s.answerWaiting call outcome).Came P := by
  have hrest : ({ s with waiting := s.waiting.filter fun w => w.id ≠ call.id } :
      OwnerJournal J).Came P :=
    ⟨h.arrivals, fun w hw => h.waiting w (mem_filter.mp hw).1⟩
  exact hrest.notes _ fun w hw => h.waiting w (mem_filter.mp hw).1

theorem Came.finish (h : s.Came P) {id : ForwardId} {ended : Except E R} {s' : OwnerJournal J}
    (hfinish : s.finish rules id ended = some s') : s'.Came P := by
  unfold OwnerJournal.finish at hfinish
  dsimp only at hfinish
  split at hfinish
  · cases hfinish
  split at hfinish
  · cases hfinish
  split at hfinish
  all_goals
    obtain rfl := some.inj hfinish
    refine Came.answerWaiting ?_ _ _
    exact ⟨h.arrivals, h.waiting⟩

end Came

end OwnerJournal

end VibeField.Fieldd
