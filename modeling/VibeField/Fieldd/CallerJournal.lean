import Mathlib.Data.List.Nodup
import VibeField.Base.GiveUp

/-!
# The caller's receipts

What a device knows of its own keyed forwards.  An entry stands for a key; several attempts may be
under way with it, and each says how it ended: answered, refused, lost after it left, or never
sent.  An entry with an attempt under way is never let go of.
-/

namespace VibeField.Fieldd

open List Option

/-- `pending` until an attempt that left is answered or lost. -/
inductive CallerState where
  | pending
  | applied
  | refused
  | outcomeUnknown
  deriving DecidableEq, Repr

/-- The owning device, and what the key is bound to there. -/
structure CallerCall where
  device : String
  method : String
  digest : String
  deriving DecidableEq, Repr

/-- `serial` tells an entry from a later one of the same key. -/
structure CallerEntry where
  serial : Nat
  key : String
  call : CallerCall
  state : CallerState := .pending
  since : Nat
  error : Option String := none
  inflight : Nat := 1
  everSent : Bool := false
  deriving DecidableEq, Repr

/-- An attempt holds on to the entry it found or made. -/
structure CallerAttempt where
  key : String
  call : CallerCall
  held : Nat
  ended : Bool := false
  deriving DecidableEq, Repr

/-- A request that went on the wire. -/
structure Departure where
  key : String
  attempt : Nat
  deriving DecidableEq, Repr

/-- A key forgotten as unsent; `left` counts the requests that had gone on the wire by then. -/
structure Forgotten where
  key : String
  attempt : Nat
  left : Nat
  deriving DecidableEq, Repr

/-- `JournalLimits`. -/
structure CallerLimits where
  depth : Nat
  ttlMs : Nat
  deriving DecidableEq, Repr

/-- `entries` in the order they came, `attempts` in the order they began.  `left`, `answered` and
`forgot` keep what happened: requests sent, keys answered applied, keys forgotten. -/
structure CallerJournal where
  clock : Nat := 0
  entries : List CallerEntry := []
  attempts : List CallerAttempt := []
  born : Nat := 0
  left : List Departure := []
  answered : List String := []
  forgot : List Forgotten := []
  deriving Repr

def errorKinds : List String :=
  ["UNAUTHORIZED", "FORBIDDEN_SCOPE", "NOT_FOUND", "CONFLICT", "PRECONDITION_FAILED",
    "UNAVAILABLE", "AUDIT_UNAVAILABLE", "TIMEOUT", "INCOMPATIBLE", "RESOURCE_EXHAUSTED",
    "INTERNAL"]

def receiptErrorKind (kind : String) : String :=
  if kind ∈ errorKinds then kind else "INTERNAL"

/-- `CallerReceipt`. -/
structure CallerReceipt where
  idempotencyKey : String
  method : String
  device : String
  state : CallerState
  since : Nat
  error : Option String
  inFlight : Bool
  deriving DecidableEq, Repr

namespace CallerEntry

def isIdle (e : CallerEntry) : Bool := e.inflight = 0

def receipt (e : CallerEntry) : CallerReceipt :=
  { idempotencyKey := e.key
    method := e.call.method
    device := e.call.device
    state := if e.state = .pending then .outcomeUnknown else e.state
    since := e.since
    error := e.error.map receiptErrorKind
    inFlight := e.state = .pending || decide (0 < e.inflight) }

end CallerEntry

namespace CallerJournal

variable (limits : CallerLimits)

def sweep (s : CallerJournal) : CallerJournal :=
  { s with entries := s.entries.filter fun e =>
      !(e.isIdle && decide (e.state ≠ .pending) && decide (e.since + limits.ttlMs < s.clock)) }

def trim (s : CallerJournal) : CallerJournal :=
  { s with entries :=
      giveUp CallerEntry.isIdle (s.entries.countP CallerEntry.isIdle - limits.depth) s.entries }

def find (s : CallerJournal) (key : String) : Option CallerEntry :=
  s.entries.find? fun e => e.key = key

def onHeld (s : CallerJournal) (held : Nat) (f : CallerEntry → CallerEntry) : CallerJournal :=
  { s with entries := s.entries.map fun e => if e.serial = held then f e else e }

/-- `begin`: the attempt, or `none` where the key is another call's. -/
def begin (s : CallerJournal) (key : String) (call : CallerCall) : CallerJournal × Option Nat :=
  let s := s.sweep limits
  match s.find key with
  | some e =>
    if e.call ≠ call then (s, none)
    else
      ({ s.onHeld e.serial fun e => { e with inflight := e.inflight + 1 } with
          attempts := s.attempts ++ [{ key := key, call := call, held := e.serial }] },
        some s.attempts.length)
  | none =>
    ({ s with
        entries := s.entries ++
          [{ serial := s.born, key := key, call := call, since := s.clock }]
        attempts := s.attempts ++ [{ key := key, call := call, held := s.born }]
        born := s.born + 1 },
      some s.attempts.length)

def sent (s : CallerJournal) (n : Nat) : CallerJournal :=
  match s.attempts[n]? with
  | none => s
  | some a =>
    { s.onHeld a.held fun e => { e with everSent := true } with
      left := s.left ++ [{ key := a.key, attempt := n }] }

def attemptEnded (s : CallerJournal) (n : Nat) (a : CallerAttempt) : CallerJournal :=
  { s.onHeld a.held fun e => { e with inflight := e.inflight - 1 } with
    attempts := s.attempts.set n { a with ended := true } }

def finish (s : CallerJournal) (n : Nat) (fn : CallerAttempt → CallerJournal → CallerJournal) :
    CallerJournal :=
  match s.attempts[n]? with
  | none => s
  | some a => if a.ended then s else (fn a (s.attemptEnded n a)).trim limits

def markApplied (a : CallerAttempt) (s : CallerJournal) : CallerJournal :=
  { s.onHeld a.held fun e => { e with state := .applied, since := s.clock, error := none } with
    answered := s.answered ++ [a.key] }

def markRefused (kind : String) (a : CallerAttempt) (s : CallerJournal) : CallerJournal :=
  s.onHeld a.held fun e => { e with state := .refused, since := s.clock, error := some kind }

def markLost (a : CallerAttempt) (s : CallerJournal) : CallerJournal :=
  s.onHeld a.held fun e =>
    if e.state = .pending ∨ e.state = .outcomeUnknown then
      { e with state := .outcomeUnknown, since := s.clock }
    else e

def isUnsent (held : Nat) (e : CallerEntry) : Bool :=
  e.serial = held && !e.everSent && e.isIdle

def forget (n : Nat) (a : CallerAttempt) (s : CallerJournal) : CallerJournal :=
  if s.entries.any (isUnsent a.held) then
    { s with
      entries := s.entries.filter fun e => !isUnsent a.held e
      forgot := s.forgot ++ [{ key := a.key, attempt := n, left := s.left.length }] }
  else s

def applied (s : CallerJournal) (n : Nat) : CallerJournal := s.finish limits n markApplied

def refused (s : CallerJournal) (n : Nat) (kind : String) : CallerJournal :=
  s.finish limits n (markRefused kind)

def lost (s : CallerJournal) (n : Nat) : CallerJournal := s.finish limits n markLost

def unsent (s : CallerJournal) (n : Nat) : CallerJournal := s.finish limits n (forget n)

def get (s : CallerJournal) (key : String) : CallerJournal × Option CallerReceipt :=
  let s := s.sweep limits
  (s, (s.find key).map CallerEntry.receipt)

def Left (s : CallerJournal) (key : String) : Prop := ∃ d ∈ s.left, d.key = key

/-- A key answered applied is reported applied, or not at all. -/
def AppliedStands (s : CallerJournal) : Prop :=
  ∀ key ∈ s.answered, ∀ receipt, (s.get limits key).2 = some receipt → receipt.state = .applied

/-- What was forgotten as unsent had not left, and has not since. -/
def ForgotUnsent (s : CallerJournal) : Prop :=
  ∀ f ∈ s.forgot, (∀ d ∈ s.left.take f.left, d.key ≠ f.key) ∧ ∀ d ∈ s.left, d.attempt ≠ f.attempt

/-! ## What the journal keeps -/

def isOpen (serial : Nat) (a : CallerAttempt) : Bool := !a.ended && a.held = serial

structure Sound (s : CallerJournal) : Prop where
  keys : (s.entries.map CallerEntry.key).Nodup
  serials : (s.entries.map CallerEntry.serial).Nodup
  old : ∀ e ∈ s.entries, e.serial < s.born
  heldOld : ∀ a ∈ s.attempts, a.held < s.born
  held : ∀ a ∈ s.attempts, a.ended = false → ∃ e ∈ s.entries, e.serial = a.held ∧ e.key = a.key
  underWay : ∀ e ∈ s.entries, e.inflight = s.attempts.countP (isOpen e.serial)
  stands : ∀ e ∈ s.entries, e.key ∈ s.answered → e.state = .applied
  answeredLeft : ∀ key ∈ s.answered, s.Left key
  leftSent : ∀ e ∈ s.entries, s.Left e.key → e.everSent = true
  leftKeys : ∀ d ∈ s.left, ∃ a, s.attempts[d.attempt]? = some a ∧ a.key = d.key
  forgotEnded : ∀ f ∈ s.forgot, ∃ a, s.attempts[f.attempt]? = some a ∧ a.ended = true
  forgotLeft : ∀ f ∈ s.forgot, f.left ≤ s.left.length
  forgotUnsent : s.ForgotUnsent

section Keeps

variable {limits : CallerLimits} {s : CallerJournal} {held : Nat} {f : CallerEntry → CallerEntry}

theorem sound_start : Sound {} where
  keys := nodup_nil
  serials := nodup_nil
  old := by
    intro _ h
    cases h
  heldOld := by
    intro _ h
    cases h
  held := by
    intro _ h
    cases h
  underWay := by
    intro _ h
    cases h
  stands := by
    intro _ h
    cases h
  answeredLeft := by
    intro _ h
    cases h
  leftSent := by
    intro _ h
    cases h
  leftKeys := by
    intro _ h
    cases h
  forgotEnded := by
    intro _ h
    cases h
  forgotLeft := by
    intro _ h
    cases h
  forgotUnsent := by
    intro _ h
    cases h

theorem onHeld_map {β : Type} (proj : CallerEntry → β) (hproj : ∀ e, proj (f e) = proj e) :
    (s.onHeld held f).entries.map proj = s.entries.map proj := by
  rw [onHeld, List.map_map]
  refine map_congr_left ?_
  intro e he
  show proj (if e.serial = held then f e else e) = proj e
  split
  · exact hproj e
  · rfl

variable {a : CallerAttempt} {e e' : CallerEntry} {key : String} {n : Nat}

theorem mem_onHeld (h : e' ∈ (s.onHeld held f).entries) :
    ∃ e ∈ s.entries, (e.serial = held ∧ e' = f e) ∨ (e.serial ≠ held ∧ e' = e) := by
  obtain ⟨e, he, rfl⟩ := List.mem_map.mp h
  refine ⟨e, he, ?_⟩
  by_cases hserial : e.serial = held
  · exact Or.inl ⟨hserial, if_pos hserial⟩
  · exact Or.inr ⟨hserial, if_neg hserial⟩

theorem onHeld_mem (held : Nat) (f : CallerEntry → CallerEntry) (he : e ∈ s.entries)
    (hkey : (f e).key = e.key) (hserial : (f e).serial = e.serial) :
    ∃ e' ∈ (s.onHeld held f).entries, e'.serial = e.serial ∧ e'.key = e.key := by
  refine ⟨_, List.mem_map.mpr ⟨e, he, rfl⟩, ?_⟩
  split
  · exact ⟨hserial, hkey⟩
  · exact ⟨rfl, rfl⟩

theorem Sound.entry_eq (h : s.Sound) (he : e ∈ s.entries) (he' : e' ∈ s.entries)
    (hkey : e.key = e'.key) : e = e' :=
  inj_on_of_nodup_map h.keys he he' hkey

theorem Sound.entry_eq_of_serial (h : s.Sound) (he : e ∈ s.entries) (he' : e' ∈ s.entries)
    (hserial : e.serial = e'.serial) : e = e' :=
  inj_on_of_nodup_map h.serials he he' hserial

theorem Sound.not_idle (h : s.Sound) (ha : a ∈ s.attempts) (hopen : a.ended = false)
    (he : e ∈ s.entries) (hserial : e.serial = a.held) : e.isIdle = false := by
  have hpos : 0 < s.attempts.countP (isOpen e.serial) := by
    refine countP_pos_iff.mpr ⟨a, ha, ?_⟩
    rw [isOpen, hopen, hserial]
    simp
  rw [← h.underWay e he] at hpos
  rw [CallerEntry.isIdle, decide_eq_false_iff_not]
  omega

theorem Sound.sublist (h : s.Sound) {entries : List CallerEntry} (hsub : entries.Sublist s.entries)
    (hkept : ∀ e ∈ s.entries, e.isIdle = false → e ∈ entries) :
    Sound { s with entries := entries } where
  __ := h
  keys := h.keys.sublist (hsub.map _)
  serials := h.serials.sublist (hsub.map _)
  old e he := h.old e (hsub.mem he)
  held := by
    intro a ha hopen
    obtain ⟨e, he, hserial, hkey⟩ := h.held a ha hopen
    exact ⟨e, hkept e he (h.not_idle ha hopen he hserial), hserial, hkey⟩
  underWay e he := h.underWay e (hsub.mem he)
  stands e he := h.stands e (hsub.mem he)
  leftSent e he := h.leftSent e (hsub.mem he)

theorem Sound.sweep (h : s.Sound) : (s.sweep limits).Sound := by
  refine h.sublist filter_sublist ?_
  intro e he hbusy
  refine mem_filter.mpr ⟨he, ?_⟩
  rw [hbusy]
  rfl

theorem Sound.trim (h : s.Sound) : (s.trim limits).Sound := by
  refine h.sublist (giveUp_sublist _ _) ?_
  intro e he hbusy
  exact mem_giveUp_of_neg hbusy _ he

theorem Sound.onHeld (h : s.Sound) (hkey : ∀ e, (f e).key = e.key)
    (hserial : ∀ e, (f e).serial = e.serial) (hinflight : ∀ e, (f e).inflight = e.inflight)
    (hsent : ∀ e, e.everSent = true → (f e).everSent = true)
    (hstands : ∀ e ∈ s.entries, e.serial = held → e.key ∈ s.answered → (f e).state = .applied) :
    (s.onHeld held f).Sound where
  __ := h
  keys := by
    rw [onHeld_map _ hkey]
    exact h.keys
  serials := by
    rw [onHeld_map _ hserial]
    exact h.serials
  old := by
    intro e' he'
    obtain ⟨e, he, ⟨-, rfl⟩ | ⟨-, rfl⟩⟩ := mem_onHeld he'
    · rw [hserial]
      exact h.old e he
    · exact h.old e' he
  held := by
    intro a ha hopen
    obtain ⟨e, he, hs, hk⟩ := h.held a ha hopen
    obtain ⟨e', he', hs', hk'⟩ := onHeld_mem held f he (hkey e) (hserial e)
    exact ⟨e', he', hs'.trans hs, hk'.trans hk⟩
  underWay := by
    intro e' he'
    obtain ⟨e, he, ⟨-, rfl⟩ | ⟨-, rfl⟩⟩ := mem_onHeld he'
    · rw [hinflight, hserial]
      exact h.underWay e he
    · exact h.underWay e' he
  stands := by
    intro e' he' hanswered
    obtain ⟨e, he, ⟨hs, rfl⟩ | ⟨-, rfl⟩⟩ := mem_onHeld he'
    · rw [hkey] at hanswered
      exact hstands e he hs hanswered
    · exact h.stands e' he hanswered
  leftSent := by
    intro e' he' hleft
    obtain ⟨e, he, ⟨-, rfl⟩ | ⟨-, rfl⟩⟩ := mem_onHeld he'
    · rw [hkey] at hleft
      exact hsent e (h.leftSent e he hleft)
    · exact h.leftSent e' he hleft

theorem find_eq_some (h : s.find key = some e) : e ∈ s.entries ∧ e.key = key :=
  ⟨List.mem_of_find?_eq_some h, by simpa using List.find?_some h⟩

theorem find_eq_none (h : s.find key = none) : ∀ e ∈ s.entries, e.key ≠ key := by
  intro e he
  simpa using List.find?_eq_none.mp h e he

theorem attempt_kept {a new : CallerAttempt} (h : s.attempts[n]? = some a) :
    (s.attempts ++ [new])[n]? = some a := by
  rw [List.getElem?_append_left (List.getElem?_eq_some_iff.mp h).1]
  exact h

theorem Sound.again (h : s.Sound) (he : e ∈ s.entries) (call : CallerCall) :
    Sound { s.onHeld e.serial fun e => { e with inflight := e.inflight + 1 } with
      attempts := s.attempts ++ [{ key := e.key, call := call, held := e.serial }] } where
  __ := h
  keys := by
    rw [onHeld_map]
    · exact h.keys
    · intro _
      rfl
  serials := by
    rw [onHeld_map]
    · exact h.serials
    · intro _
      rfl
  old := by
    intro x hx
    obtain ⟨y, hy, ⟨-, rfl⟩ | ⟨-, rfl⟩⟩ := mem_onHeld hx
    · exact h.old y hy
    · exact h.old x hy
  heldOld :=
    forall_mem_append.mpr ⟨h.heldOld, forall_mem_singleton.mpr (h.old e he)⟩
  held := by
    intro a ha hopen
    have hentry : ∃ y ∈ s.entries, y.serial = a.held ∧ y.key = a.key := by
      rcases mem_append.mp ha with hold | hnew
      · exact h.held a hold hopen
      · rw [mem_singleton.mp hnew]
        exact ⟨e, he, rfl, rfl⟩
    obtain ⟨y, hy, hserial, hkey⟩ := hentry
    obtain ⟨y', hy', hserial', hkey'⟩ := onHeld_mem e.serial
      (fun e => { e with inflight := e.inflight + 1 }) hy rfl rfl
    exact ⟨y', hy', hserial'.trans hserial, hkey'.trans hkey⟩
  underWay := by
    intro x hx
    obtain ⟨y, hy, ⟨hserial, rfl⟩ | ⟨hserial, rfl⟩⟩ := mem_onHeld hx
    · have hopen : isOpen y.serial { key := e.key, call := call, held := e.serial } = true := by
        rw [isOpen, hserial]
        simp
      show y.inflight + 1 = (_ ++ [_]).countP (isOpen y.serial)
      rw [countP_append, countP_singleton, if_pos hopen, h.underWay y hy]
    · have hopen : ¬isOpen x.serial { key := e.key, call := call, held := e.serial } = true := by
        rw [isOpen]
        simpa using Ne.symm hserial
      show x.inflight = (_ ++ [_]).countP (isOpen x.serial)
      rw [countP_append, countP_singleton, if_neg hopen, h.underWay x hy]
      rfl
  stands := by
    intro x hx
    obtain ⟨y, hy, ⟨-, rfl⟩ | ⟨-, rfl⟩⟩ := mem_onHeld hx
    · exact h.stands y hy
    · exact h.stands x hy
  leftSent := by
    intro x hx
    obtain ⟨y, hy, ⟨-, rfl⟩ | ⟨-, rfl⟩⟩ := mem_onHeld hx
    · exact h.leftSent y hy
    · exact h.leftSent x hy
  leftKeys := by
    intro d hd
    obtain ⟨a, ha, hkey⟩ := h.leftKeys d hd
    exact ⟨a, attempt_kept ha, hkey⟩
  forgotEnded := by
    intro d hd
    obtain ⟨a, ha, hended⟩ := h.forgotEnded d hd
    exact ⟨a, attempt_kept ha, hended⟩

/-- The first attempt with a key that never left. -/
theorem Sound.first (h : s.Sound) (call : CallerCall) (habsent : ∀ e ∈ s.entries, e.key ≠ key)
    (hleft : ¬s.Left key) :
    Sound { s with
      entries := s.entries ++ [{ serial := s.born, key := key, call := call, since := s.clock }]
      attempts := s.attempts ++ [{ key := key, call := call, held := s.born }]
      born := s.born + 1 } where
  __ := h
  keys := by
    rw [map_append, map_singleton, nodup_append]
    refine ⟨h.keys, nodup_singleton _, ?_⟩
    intro k hk k' hk' heq
    obtain ⟨e, he, rfl⟩ := List.mem_map.mp hk
    rw [mem_singleton.mp hk'] at heq
    exact habsent e he heq
  serials := by
    rw [map_append, map_singleton, nodup_append]
    refine ⟨h.serials, nodup_singleton _, ?_⟩
    intro k hk k' hk' heq
    obtain ⟨e, he, rfl⟩ := List.mem_map.mp hk
    rw [mem_singleton.mp hk'] at heq
    exact absurd heq (Nat.ne_of_lt (h.old e he))
  old := by
    intro e he
    rcases mem_append.mp he with hold | hnew
    · exact Nat.lt_succ_of_lt (h.old e hold)
    · rw [mem_singleton.mp hnew]
      exact Nat.lt_succ_self _
  heldOld := by
    intro a ha
    rcases mem_append.mp ha with hold | hnew
    · exact Nat.lt_succ_of_lt (h.heldOld a hold)
    · rw [mem_singleton.mp hnew]
      exact Nat.lt_succ_self _
  held := by
    intro a ha hopen
    rcases mem_append.mp ha with hold | hnew
    · obtain ⟨e, he, hrest⟩ := h.held a hold hopen
      exact ⟨e, mem_append_left _ he, hrest⟩
    · rw [mem_singleton.mp hnew]
      exact ⟨_, mem_append_right _ (mem_singleton.mpr rfl), rfl, rfl⟩
  underWay := by
    intro e he
    show e.inflight = (_ ++ [_]).countP (isOpen e.serial)
    rw [countP_append, countP_singleton]
    rcases mem_append.mp he with hold | hnew
    · have hother : ¬isOpen e.serial { key := key, call := call, held := s.born } = true := by
        rw [isOpen]
        simpa using Ne.symm (Nat.ne_of_lt (h.old e hold))
      rw [if_neg hother, h.underWay e hold]
      rfl
    · have hopen : isOpen s.born { key := key, call := call, held := s.born } = true := by
        rw [isOpen]
        simp
      have hnone : s.attempts.countP (isOpen s.born) = 0 := by
        refine countP_eq_zero.mpr ?_
        intro a ha
        rw [isOpen]
        simpa using fun _ => Nat.ne_of_lt (h.heldOld a ha)
      rw [mem_singleton.mp hnew, if_pos hopen, hnone]
  stands := by
    intro e he hanswered
    rcases mem_append.mp he with hold | hnew
    · exact h.stands e hold hanswered
    · rw [mem_singleton.mp hnew] at hanswered
      exact absurd (h.answeredLeft key hanswered) hleft
  leftSent := by
    intro e he hl
    rcases mem_append.mp he with hold | hnew
    · exact h.leftSent e hold hl
    · rw [mem_singleton.mp hnew] at hl
      exact absurd hl hleft
  leftKeys := by
    intro d hd
    obtain ⟨a, ha, hkey⟩ := h.leftKeys d hd
    exact ⟨a, attempt_kept ha, hkey⟩
  forgotEnded := by
    intro d hd
    obtain ⟨a, ha, hended⟩ := h.forgotEnded d hd
    exact ⟨a, attempt_kept ha, hended⟩

theorem Sound.begin (h : s.Sound) (key : String) (call : CallerCall)
    (horderly : (s.sweep limits).find key = none → ¬s.Left key) :
    (s.begin limits key call).1.Sound := by
  have hs : (s.sweep limits).Sound := h.sweep
  rw [CallerJournal.begin]
  dsimp only
  cases hfind : (s.sweep limits).find key with
  | some e =>
    obtain ⟨he, rfl⟩ := find_eq_some hfind
    dsimp only
    split
    · exact hs
    · exact hs.again he call
  | none => exact hs.first call (find_eq_none hfind) (horderly hfind)

theorem Sound.entry_held (h : s.Sound) (ha : a ∈ s.attempts) (hopen : a.ended = false)
    (he : e ∈ s.entries) : e.serial = a.held ↔ e.key = a.key := by
  obtain ⟨e', he', hserial, hkey⟩ := h.held a ha hopen
  constructor
  · intro hs
    rw [h.entry_eq_of_serial he he' (hs.trans hserial.symm), hkey]
  · intro hk
    rw [h.entry_eq he he' (hk.trans hkey.symm), hserial]

theorem Sound.sent (h : s.Sound) (horderly : ∀ a, s.attempts[n]? = some a → a.ended = false) :
    (s.sent n).Sound := by
  rw [CallerJournal.sent]
  cases hn : s.attempts[n]? with
  | none => exact h
  | some a =>
    have hopen := horderly a hn
    have ha : a ∈ s.attempts := mem_of_getElem? hn
    have hheld : (s.onHeld a.held fun e => { e with everSent := true }).Sound := by
      refine h.onHeld (fun _ => rfl) (fun _ => rfl) (fun _ => rfl) (fun _ _ => rfl) ?_
      intro e he _ hanswered
      exact h.stands e he hanswered
    refine { hheld with
      answeredLeft := ?_, leftSent := ?_, leftKeys := ?_, forgotLeft := ?_, forgotUnsent := ?_ }
    · intro key hkey
      obtain ⟨d, hd, hdkey⟩ := h.answeredLeft key hkey
      exact ⟨d, mem_append_left _ hd, hdkey⟩
    · intro e he hleft
      obtain ⟨d, hd, hdkey⟩ := hleft
      rcases mem_append.mp hd with hold | hnew
      · exact hheld.leftSent e he ⟨d, hold, hdkey⟩
      · rw [mem_singleton.mp hnew] at hdkey
        obtain ⟨e', he', ⟨hserial, rfl⟩ | ⟨hserial, rfl⟩⟩ := mem_onHeld he
        · rfl
        · exact absurd ((h.entry_held ha hopen he').mpr hdkey.symm) hserial
    · exact forall_mem_append.mpr ⟨h.leftKeys, forall_mem_singleton.mpr ⟨a, hn, rfl⟩⟩
    · intro f hf
      show _ ≤ (s.left ++ [_]).length
      rw [length_append]
      exact Nat.le_add_right_of_le (h.forgotLeft f hf)
    · intro f hf
      obtain ⟨hbefore, hnever⟩ := h.forgotUnsent f hf
      constructor
      · have htake : (s.left ++ [(⟨a.key, n⟩ : Departure)]).take f.left = s.left.take f.left :=
          take_append_of_le_length (h.forgotLeft f hf)
        intro d hd
        exact hbefore d (htake ▸ hd)
      · intro d hd
        rcases mem_append.mp hd with hold | hnew
        · exact hnever d hold
        · rw [mem_singleton.mp hnew]
          rintro rfl
          obtain ⟨a', ha', hended⟩ := h.forgotEnded f hf
          rw [hn] at ha'
          rw [← some.inj ha', hopen] at hended
          cases hended

theorem attempt_of_ended {a b : CallerAttempt} {n m : Nat} (hn : s.attempts[n]? = some a)
    (hm : s.attempts[m]? = some b) :
    ∃ b', (s.attemptEnded n a).attempts[m]? = some b' ∧ b'.key = b.key ∧
      (b.ended = true → b'.ended = true) := by
  by_cases hnm : n = m
  · subst hnm
    rw [hn] at hm
    obtain rfl := some.inj hm
    refine ⟨{ a with ended := true }, ?_, rfl, fun _ => rfl⟩
    exact List.getElem?_set_self (List.getElem?_eq_some_iff.mp hn).1
  · refine ⟨b, ?_, rfl, id⟩
    show (s.attempts.set n _)[m]? = some b
    rw [List.getElem?_set_ne hnm]
    exact hm

theorem Sound.attemptEnded (h : s.Sound) (hn : s.attempts[n]? = some a) (hopen : a.ended = false) :
    (s.attemptEnded n a).Sound where
  __ := h
  keys := by
    rw [CallerJournal.attemptEnded]
    dsimp only
    rw [onHeld_map]
    · exact h.keys
    · intro _
      rfl
  serials := by
    rw [CallerJournal.attemptEnded]
    dsimp only
    rw [onHeld_map]
    · exact h.serials
    · intro _
      rfl
  old := by
    intro x hx
    obtain ⟨y, hy, ⟨-, rfl⟩ | ⟨-, rfl⟩⟩ := mem_onHeld hx
    · exact h.old y hy
    · exact h.old x hy
  heldOld := by
    intro b hb
    rcases mem_or_eq_of_mem_set hb with hold | rfl
    · exact h.heldOld b hold
    · exact h.heldOld a (mem_of_getElem? hn)
  held := by
    intro b hb hbopen
    rcases mem_or_eq_of_mem_set hb with hold | rfl
    · obtain ⟨e, he, hserial, hkey⟩ := h.held b hold hbopen
      obtain ⟨e', he', hserial', hkey'⟩ := onHeld_mem a.held
        (fun e => { e with inflight := e.inflight - 1 }) he rfl rfl
      exact ⟨e', he', hserial'.trans hserial, hkey'.trans hkey⟩
    · cases hbopen
  underWay := by
    intro x hx
    obtain ⟨hlt, hget⟩ := List.getElem?_eq_some_iff.mp hn
    have hcount : ∀ serial, (s.attemptEnded n a).attempts.countP (isOpen serial) =
        s.attempts.countP (isOpen serial) - (if a.held = serial then 1 else 0) := by
      intro serial
      show (s.attempts.set n _).countP (isOpen serial) = _
      rw [countP_set hlt, hget]
      simp [isOpen, hopen]
    rw [hcount]
    obtain ⟨y, hy, ⟨hserial, rfl⟩ | ⟨hserial, rfl⟩⟩ := mem_onHeld hx
    · show y.inflight - 1 = s.attempts.countP (isOpen y.serial) - if a.held = y.serial then 1 else 0
      rw [if_pos hserial.symm, h.underWay y hy]
    · rw [if_neg (Ne.symm hserial), h.underWay x hy, Nat.sub_zero]
  stands := by
    intro x hx
    obtain ⟨y, hy, ⟨-, rfl⟩ | ⟨-, rfl⟩⟩ := mem_onHeld hx
    · exact h.stands y hy
    · exact h.stands x hy
  leftSent := by
    intro x hx
    obtain ⟨y, hy, ⟨-, rfl⟩ | ⟨-, rfl⟩⟩ := mem_onHeld hx
    · exact h.leftSent y hy
    · exact h.leftSent x hy
  leftKeys := by
    intro d hd
    obtain ⟨b, hb, hkey⟩ := h.leftKeys d hd
    obtain ⟨b', hb', hkey', -⟩ := attempt_of_ended hn hb
    exact ⟨b', hb', hkey'.trans hkey⟩
  forgotEnded := by
    intro f hf
    obtain ⟨b, hb, hended⟩ := h.forgotEnded f hf
    obtain ⟨b', hb', -, hended'⟩ := attempt_of_ended hn hb
    exact ⟨b', hb', hended' hended⟩

theorem Sound.markApplied (h : s.Sound) (hkey : ∀ e ∈ s.entries, e.key = a.key → e.serial = a.held)
    (hleft : s.Left a.key) : (markApplied a s).Sound := by
  have hheld : (s.onHeld a.held fun e =>
      { e with state := .applied, since := s.clock, error := none }).Sound :=
    h.onHeld (fun _ => rfl) (fun _ => rfl) (fun _ => rfl) (fun _ hs => hs) fun _ _ _ _ => rfl
  refine { hheld with stands := ?_, answeredLeft := ?_ }
  · intro e he hanswered
    obtain ⟨e', he', ⟨hserial, rfl⟩ | ⟨hserial, rfl⟩⟩ := mem_onHeld he
    · rfl
    · rcases mem_append.mp hanswered with hold | hnew
      · exact h.stands e he' hold
      · exact absurd (hkey e he' (mem_singleton.mp hnew)) hserial
  · exact forall_mem_append.mpr ⟨h.answeredLeft, forall_mem_singleton.mpr hleft⟩

theorem Sound.markRefused (h : s.Sound) (kind : String)
    (hunapplied : ∀ e ∈ s.entries, e.serial = a.held → e.state ≠ .applied) :
    (markRefused kind a s).Sound := by
  refine h.onHeld (fun _ => rfl) (fun _ => rfl) (fun _ => rfl) (fun _ hs => hs) ?_
  intro e he hserial hanswered
  exact absurd (h.stands e he hanswered) (hunapplied e he hserial)

theorem Sound.markLost (h : s.Sound) (a : CallerAttempt) : (markLost a s).Sound := by
  refine h.onHeld ?_ ?_ ?_ ?_ ?_
  · intro e
    split <;> rfl
  · intro e
    split <;> rfl
  · intro e
    split <;> rfl
  · intro e hsent
    split <;> exact hsent
  · intro e he _ hanswered
    have happlied := h.stands e he hanswered
    rw [if_neg, happlied]
    rw [happlied]
    rintro (hp | hu)
    · cases hp
    · cases hu

theorem Sound.forget (h : s.Sound) {a b : CallerAttempt} (hn : s.attempts[n]? = some b)
    (hended : b.ended = true) (hbkey : b.key = a.key)
    (hkeys : ∀ e ∈ s.entries, e.serial = a.held → e.key = a.key) : (forget n a s).Sound := by
  rw [CallerJournal.forget]
  split
  · next hany =>
    obtain ⟨e, he, hunsent⟩ := List.any_eq_true.mp hany
    rw [isUnsent, Bool.and_eq_true, Bool.and_eq_true, Bool.not_eq_true', decide_eq_true_iff]
      at hunsent
    obtain ⟨⟨hserial, hnever⟩, -⟩ := hunsent
    have hunleft : ∀ d ∈ s.left, d.key ≠ a.key := by
      intro d hd hdkey
      have hsent := h.leftSent e he ⟨d, hd, hdkey.trans (hkeys e he hserial).symm⟩
      rw [hnever] at hsent
      cases hsent
    have hkept : Sound { s with entries := s.entries.filter fun e => !isUnsent a.held e } := by
      refine h.sublist filter_sublist ?_
      intro e' he' hbusy
      refine mem_filter.mpr ⟨he', ?_⟩
      rw [isUnsent, hbusy, Bool.and_false]
      rfl
    refine { hkept with forgotEnded := ?_, forgotLeft := ?_, forgotUnsent := ?_ }
    · exact forall_mem_append.mpr ⟨h.forgotEnded, forall_mem_singleton.mpr ⟨b, hn, hended⟩⟩
    · intro f hf
      rcases mem_append.mp hf with hold | hnew
      · exact h.forgotLeft f hold
      · obtain rfl := mem_singleton.mp hnew
        exact Nat.le_refl _
    · intro f hf
      rcases mem_append.mp hf with hold | hnew
      · exact h.forgotUnsent f hold
      · rw [mem_singleton.mp hnew]
        constructor
        · intro d hd
          exact hunleft d (mem_of_mem_take hd)
        · intro d hd hattempt
          obtain ⟨b', hb', hkey⟩ := h.leftKeys d hd
          rw [hattempt, hn] at hb'
          obtain rfl := some.inj hb'
          exact hunleft d hd (hkey.symm.trans hbkey)
  · exact h

theorem Sound.finish (h : s.Sound) {fn : CallerAttempt → CallerJournal → CallerJournal}
    (hfn : ∀ a, s.attempts[n]? = some a → a.ended = false → (s.attemptEnded n a).Sound →
      (fn a (s.attemptEnded n a)).Sound) : (s.finish limits n fn).Sound := by
  rw [CallerJournal.finish]
  cases hn : s.attempts[n]? with
  | none => exact h
  | some a =>
    dsimp only
    cases hended : a.ended with
    | true => exact h
    | false => exact (hfn a hn hended (h.attemptEnded hn hended)).trim

theorem mem_attemptEnded (he : e ∈ (s.attemptEnded n a).entries) :
    ∃ e' ∈ s.entries, e'.serial = e.serial ∧ e'.key = e.key ∧ e'.state = e.state := by
  obtain ⟨e', he', ⟨-, rfl⟩ | ⟨-, rfl⟩⟩ := mem_onHeld he
  · exact ⟨e', he', rfl, rfl, rfl⟩
  · exact ⟨e, he', rfl, rfl, rfl⟩

theorem Sound.entry_attemptEnded (h : s.Sound) (hn : s.attempts[n]? = some a)
    (hopen : a.ended = false) (he : e ∈ (s.attemptEnded n a).entries) :
    e.serial = a.held ↔ e.key = a.key := by
  obtain ⟨e', he', hserial, hkey, -⟩ := mem_attemptEnded he
  rw [← hserial, ← hkey]
  exact h.entry_held (mem_of_getElem? hn) hopen he'

theorem Sound.applied (h : s.Sound) (hleft : ∀ a, s.attempts[n]? = some a → s.Left a.key) :
    (s.applied limits n).Sound := by
  refine h.finish ?_
  intro a hn hopen hended
  exact hended.markApplied (fun e he => (h.entry_attemptEnded hn hopen he).mpr) (hleft a hn)

theorem Sound.refused (h : s.Sound) {kind : String}
    (horderly : ∀ a, s.attempts[n]? = some a → a.ended = false →
      ∀ e ∈ s.entries, e.serial = a.held → e.state ≠ .applied) :
    (s.refused limits n kind).Sound := by
  refine h.finish ?_
  intro a hn hopen hended
  refine hended.markRefused kind ?_
  intro e he hserial
  obtain ⟨e', he', hs, -, hstate⟩ := mem_attemptEnded he
  rw [← hstate]
  exact horderly a hn hopen e' he' (hs.trans hserial)

theorem Sound.lost (h : s.Sound) (n : Nat) : (s.lost limits n).Sound :=
  h.finish fun a _ _ hended => hended.markLost a

theorem Sound.unsent (h : s.Sound) (n : Nat) : (s.unsent limits n).Sound := by
  refine h.finish ?_
  intro a hn hopen hended
  have hset : (s.attemptEnded n a).attempts[n]? = some { a with ended := true } :=
    List.getElem?_set_self (List.getElem?_eq_some_iff.mp hn).1
  exact hended.forget hset rfl rfl fun e he => (h.entry_attemptEnded hn hopen he).mp

theorem Sound.tick (h : s.Sound) (ms : Nat) : Sound { s with clock := s.clock + ms } :=
  { h with }

theorem Sound.appliedStands (h : s.Sound) : s.AppliedStands limits := by
  intro key hanswered receipt hreceipt
  obtain ⟨e, hfind, rfl⟩ := map_eq_some_iff.mp hreceipt
  obtain ⟨he, rfl⟩ := find_eq_some hfind
  have hs : (s.sweep limits).Sound := h.sweep
  have happlied := hs.stands e he hanswered
  show (if e.state = .pending then _ else e.state) = _
  rw [if_neg, happlied]
  rw [happlied]
  exact CallerState.noConfusion

/-! Only a request that leaves is one more that left. -/

theorem left_begin (key : String) (call : CallerCall) :
    (s.begin limits key call).1.left = s.left := by
  rw [CallerJournal.begin]
  dsimp only
  cases (s.sweep limits).find key with
  | some e =>
    dsimp only
    split <;> rfl
  | none => rfl

theorem left_finish {fn : CallerAttempt → CallerJournal → CallerJournal}
    (hfn : ∀ a s, (fn a s).left = s.left) : (s.finish limits n fn).left = s.left := by
  rw [CallerJournal.finish]
  cases s.attempts[n]? with
  | none => rfl
  | some a =>
    dsimp only
    split
    · rfl
    · exact hfn a (s.attemptEnded n a)

theorem left_forget (n : Nat) (a : CallerAttempt) (s : CallerJournal) :
    (forget n a s).left = s.left := by
  rw [CallerJournal.forget]
  split <;> rfl

theorem left_applied (n : Nat) : (s.applied limits n).left = s.left :=
  left_finish fun _ _ => rfl

theorem left_refused (n : Nat) (kind : String) : (s.refused limits n kind).left = s.left :=
  left_finish fun _ _ => rfl

theorem left_lost (n : Nat) : (s.lost limits n).left = s.left :=
  left_finish fun _ _ => rfl

theorem left_unsent (n : Nat) : (s.unsent limits n).left = s.left :=
  left_finish (left_forget n)

theorem left_sent (hn : s.attempts[n]? = some a) :
    (s.sent n).left = s.left ++ [{ key := a.key, attempt := n }] := by
  rw [CallerJournal.sent, hn]

end Keeps

end CallerJournal

end VibeField.Fieldd
