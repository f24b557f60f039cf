import Mathlib.Logic.Function.Basic
import VibeField.Base.Machine
import VibeField.Fieldd.CallerJournal
import VibeField.Fieldd.OwnerJournal

/-!
# Forwarded mutations

Any number of devices forward keyed mutations to any number of owners.  A request may reach its
owner late or never, and an answer its caller; a caller's attempt may end meanwhile, and another
may begin.
-/

namespace VibeField.Fieldd

open List Option Function

/-- A request that left: whose attempt it is, the owning device, and the call as it arrives. -/
structure ForwardRequest where
  peer : String
  attempt : Nat
  device : String
  call : ForwardCall
  deriving DecidableEq, Repr

/-- An answer, as the caller tells them apart. -/
inductive ForwardAnswer where
  | applied
  | refused (kind : String)
  deriving DecidableEq, Repr

def ForwardReply.answer {J : Type} : ForwardReply J → ForwardAnswer
  | .result _ => .applied
  | .receipt _ _ => .applied
  | .error e => .refused e.kind
  | .conflict => .refused "CONFLICT"

def ForwardOutcome.answer {J : Type} : ForwardOutcome J → ForwardAnswer
  | .applied _ _ => .applied
  | .refused e => .refused e.kind

/-- `requests` are on their way to an owner, `working` wait there on an execution, `answers` are
on their way back. -/
structure Forwarding (J : Type) where
  owners : String → OwnerJournal J := fun _ => {}
  callers : String → CallerJournal := fun _ => {}
  requests : List ForwardRequest := []
  working : List ForwardRequest := []
  answers : List (ForwardRequest × ForwardAnswer) := []

inductive ForwardingEvent (R E : Type) where
  | begins (peer key : String) (call : CallerCall)
  | leaves (peer : String) (attempt : Nat)
  | arrives (request : ForwardRequest)
  | ends (device : String) (id : ForwardId) (ended : Except E R)
  | mintEnds (request : ForwardRequest) (ended : Except E R)
  | answered (request : ForwardRequest) (answer : ForwardAnswer)
  | lost (peer : String) (attempt : Nat)
  | unsent (peer : String) (attempt : Nat)
  | asks (peer key : String)
  | ownerTick (device : String) (ms : Nat)
  | callerTick (peer : String) (ms : Nat)

namespace Forwarding

variable {R E J : Type} (rules : JournalRules R E J) (limits : CallerLimits)

def setOwner (s : Forwarding J) (device : String) (owner : OwnerJournal J) : Forwarding J :=
  { s with owners := Function.update s.owners device owner }

def setCaller (s : Forwarding J) (peer : String) (caller : CallerJournal) : Forwarding J :=
  { s with callers := Function.update s.callers peer caller }

def requestOf (peer : String) (n : Nat) (a : CallerAttempt) : ForwardRequest :=
  { peer := peer
    attempt := n
    device := a.call.device
    call :=
      { id := { peer := peer, key := a.key }, method := a.call.method, digest := a.call.digest } }

def leave (s : Forwarding J) (peer : String) (n : Nat) : Option (Forwarding J) :=
  match (s.callers peer).attempts[n]? with
  | none => none
  | some a =>
    if (s.callers peer).left.any fun d => d.attempt = n then none
    else
      some { s.setCaller peer ((s.callers peer).sent n) with
        requests := s.requests ++ [requestOf peer n a] }

def arrive (s : Forwarding J) (request : ForwardRequest) : Option (Forwarding J) :=
  if request ∈ s.requests then
    let (owner, meeting) := (s.owners request.device).arrive rules request.call
    let s := { s.setOwner request.device owner with requests := s.requests.erase request }
    match meeting with
    | .replies reply => some { s with answers := s.answers ++ [(request, reply.answer)] }
    | _ => some { s with working := s.working ++ [request] }
  else none

def waitsOn (device : String) (id : ForwardId) (request : ForwardRequest) : Bool :=
  request.device = device && request.call.id = id && request.call.method ∉ credentialMints

def finish (s : Forwarding J) (device : String) (id : ForwardId) (ended : Except E R) :
    Option (Forwarding J) :=
  match (s.owners device).finish rules id ended with
  | none => none
  | some owner =>
    let answer := (ForwardOutcome.stored rules (s.owners device).clock ended).answer
    some { s.setOwner device owner with
      working := s.working.filter fun r => !waitsOn device id r
      answers := s.answers ++ (s.working.filter (waitsOn device id)).map (·, answer) }

def mintEnds (s : Forwarding J) (request : ForwardRequest) (ended : Except E R) :
    Option (Forwarding J) :=
  if request ∈ s.working ∧ request.call.method ∈ credentialMints then
    let answer := (ForwardOutcome.stored rules (s.owners request.device).clock ended).answer
    some { s with
      working := s.working.erase request
      answers := s.answers ++ [(request, answer)] }
  else none

def told (caller : CallerJournal) (n : Nat) : ForwardAnswer → CallerJournal
  | .applied => caller.applied limits n
  | .refused kind => caller.refused limits n kind

def hear (s : Forwarding J) (request : ForwardRequest) (answer : ForwardAnswer) :
    Option (Forwarding J) :=
  if (request, answer) ∈ s.answers then
    let caller := told limits (s.callers request.peer) request.attempt answer
    some { s.setCaller request.peer caller with answers := s.answers.erase (request, answer) }
  else none

def next (s : Forwarding J) : ForwardingEvent R E → Option (Forwarding J)
  | .begins peer key call =>
    some (s.setCaller peer ((s.callers peer).begin limits key call).1)
  | .leaves peer n => s.leave peer n
  | .arrives request => s.arrive rules request
  | .ends device id ended => s.finish rules device id ended
  | .mintEnds request ended => s.mintEnds rules request ended
  | .answered request answer => s.hear limits request answer
  | .lost peer n => some (s.setCaller peer ((s.callers peer).lost limits n))
  | .unsent peer n => some (s.setCaller peer ((s.callers peer).unsent limits n))
  | .asks peer key => some (s.setCaller peer ((s.callers peer).get limits key).1)
  | .ownerTick device ms =>
    some (s.setOwner device { s.owners device with clock := (s.owners device).clock + ms })
  | .callerTick peer ms =>
    some (s.setCaller peer { s.callers peer with clock := (s.callers peer).clock + ms })

def forwardingMachine : Machine (Forwarding J) (ForwardingEvent R E) :=
  { start := {}, next := next rules limits }

/-- The receipt an attempt holds is not of a key that was answered applied. -/
def Unapplied (caller : CallerJournal) (n : Nat) : Prop :=
  ∀ a ∈ caller.attempts[n]?.toList, a.ended = false →
    ∀ e ∈ caller.entries, e.serial = a.held → e.state ≠ .applied

def Orderly (s : Forwarding J) : ForwardingEvent R E → Prop
  | .begins peer key _ =>
    ((s.callers peer).sweep limits).find key = none → ¬(s.callers peer).Left key
  | .leaves peer n => ∀ a ∈ (s.callers peer).attempts[n]?.toList, a.ended = false
  | .ends device id ended =>
    let owner := s.owners device
    let outcome := ForwardOutcome.stored rules owner.clock ended
    outcome.retryable = false →
      OwnerJournal.OldestFirst rules owner.clock (owner.settledEntries id outcome)
  | .answered request (.refused _) => Unapplied (s.callers request.peer) request.attempt
  | _ => True

/-! ## What holds in a run -/

def Began (s : Forwarding J) (call : ForwardCall) : Prop :=
  (s.callers call.id.peer).Left call.id.key

/-- The owners execute once and answer as they executed; the callers report what was answered, and
forget only what never left. -/
structure ReceiptsHold (s : Forwarding J) : Prop where
  once : ∀ device, (s.owners device).AtMostOnce rules
  answers : ∀ device, (s.owners device).Answers rules
  applied : ∀ peer, (s.callers peer).AppliedStands limits
  forgotten : ∀ peer, (s.callers peer).ForgotUnsent
  began : ∀ device, ∀ a ∈ (s.owners device).arrivals, s.Began a.call

/-- A request stands for one that left. -/
def Sent (s : Forwarding J) (request : ForwardRequest) : Prop :=
  request.call.id.peer = request.peer ∧
    ⟨request.call.id.key, request.attempt⟩ ∈ (s.callers request.peer).left

structure Sound (s : Forwarding J) : Prop where
  owners : ∀ device, (s.owners device).Sound rules
  callers : ∀ peer, (s.callers peer).Sound
  requests : ∀ r ∈ s.requests, s.Sent r
  working : ∀ r ∈ s.working, s.Sent r
  answers : ∀ a ∈ s.answers, s.Sent a.1
  came : ∀ device, (s.owners device).Came s.Began

section Keeps

variable {rules limits} {s : Forwarding J}

theorem sound_start : Sound rules ({} : Forwarding J) where
  owners _ := OwnerJournal.sound_start
  callers _ := CallerJournal.sound_start
  requests := by
    intro _ h
    cases h
  working := by
    intro _ h
    cases h
  answers := by
    intro _ h
    cases h
  came := by
    intro device
    constructor
    · intro _ h
      cases h
    · intro _ h
      cases h

theorem callers_self (peer : String) (caller : CallerJournal) :
    (s.setCaller peer caller).callers peer = caller :=
  update_self _ _ _

theorem callers_other {peer p : String} (caller : CallerJournal) (h : p ≠ peer) :
    (s.setCaller peer caller).callers p = s.callers p :=
  update_of_ne h _ _

variable {peer : String} {request : ForwardRequest} {s' : Forwarding J}

theorem left_setCaller {caller : CallerJournal}
    (hleft : ∀ d ∈ (s.callers peer).left, d ∈ caller.left) (p : String) {d : Departure}
    (hd : d ∈ (s.callers p).left) : d ∈ ((s.setCaller peer caller).callers p).left := by
  by_cases hp : p = peer
  · subst hp
    rw [callers_self]
    exact hleft d hd
  · rw [callers_other _ hp]
    exact hd

theorem Sound.setCaller (h : s.Sound rules) {caller : CallerJournal} (hcaller : caller.Sound)
    (hleft : ∀ d ∈ (s.callers peer).left, d ∈ caller.left) :
    (s.setCaller peer caller).Sound rules := by
  have hsent : ∀ r, s.Sent r → (s.setCaller peer caller).Sent r := by
    rintro r ⟨hpeer, hmem⟩
    exact ⟨hpeer, left_setCaller hleft _ hmem⟩
  have hbegan : ∀ call, s.Began call → (s.setCaller peer caller).Began call := by
    rintro call ⟨d, hd, hkey⟩
    exact ⟨d, left_setCaller hleft _ hd, hkey⟩
  refine ⟨h.owners, ?_, fun r hr => hsent r (h.requests r hr),
    fun r hr => hsent r (h.working r hr), fun a ha => hsent _ (h.answers a ha),
    fun device => (h.came device).mono hbegan⟩
  intro p
  by_cases hp : p = peer
  · subst hp
    rw [callers_self]
    exact hcaller
  · rw [callers_other _ hp]
    exact h.callers p

theorem Sound.setOwner (h : s.Sound rules) (device : String) {owner : OwnerJournal J}
    (howner : owner.Sound rules) (hcame : owner.Came s.Began) :
    (s.setOwner device owner).Sound rules := by
  refine ⟨?_, h.callers, h.requests, h.working, h.answers, ?_⟩
  · intro d
    show (Function.update s.owners device owner d).Sound rules
    by_cases hd : d = device
    · rw [hd, update_self]
      exact howner
    · rw [update_of_ne hd]
      exact h.owners d
  · intro d
    show (Function.update s.owners device owner d).Came s.Began
    by_cases hd : d = device
    · rw [hd, update_self]
      exact hcame
    · rw [update_of_ne hd]
      exact h.came d

theorem Sent.began {r : ForwardRequest} (h : s.Sent r) : s.Began r.call := by
  obtain ⟨hpeer, hmem⟩ := h
  rw [Began, hpeer]
  exact ⟨_, hmem, rfl⟩

theorem Sound.left_of_sent (h : s.Sound rules) {r : ForwardRequest} (hr : s.Sent r)
    {a : CallerAttempt} (ha : (s.callers r.peer).attempts[r.attempt]? = some a) :
    (s.callers r.peer).Left a.key := by
  obtain ⟨b, hb, hkey⟩ := (h.callers r.peer).leftKeys _ hr.2
  rw [ha] at hb
  obtain rfl := some.inj hb
  exact ⟨_, hr.2, hkey.symm⟩

theorem Sound.leave (h : s.Sound rules) {n : Nat} (hleave : s.leave peer n = some s')
    (horderly : ∀ a ∈ (s.callers peer).attempts[n]?.toList, a.ended = false) : s'.Sound rules := by
  rw [Forwarding.leave] at hleave
  cases hn : (s.callers peer).attempts[n]? with
  | none =>
    rw [hn] at hleave
    cases hleave
  | some a =>
    rw [hn] at hleave horderly
    dsimp only at hleave
    split at hleave
    · cases hleave
    · obtain rfl := some.inj hleave
      have hleft := CallerJournal.left_sent hn
      have hsent : ((s.callers peer).sent n).Sound := by
        refine (h.callers peer).sent ?_
        intro b hb
        rw [hn] at hb
        exact horderly b (by rw [hb]; exact mem_singleton.mpr rfl)
      have hset := h.setCaller hsent fun d hd => by
        rw [hleft]
        exact mem_append_left _ hd
      refine ⟨hset.owners, hset.callers, ?_, hset.working, hset.answers, hset.came⟩
      intro r hr
      rcases mem_snoc.mp hr with hold | hnew
      · exact hset.requests r hold
      · rw [hnew]
        refine ⟨rfl, ?_⟩
        show _ ∈ ((s.setCaller peer ((s.callers peer).sent n)).callers peer).left
        rw [callers_self, hleft]
        exact mem_append_right _ (mem_singleton.mpr rfl)

theorem Sound.arrive (h : s.Sound rules) (harrive : s.arrive rules request = some s') :
    s'.Sound rules := by
  rw [Forwarding.arrive] at harrive
  split at harrive
  · next hmem =>
    have hsent := h.requests request hmem
    have hset := h.setOwner request.device ((h.owners request.device).arrive request.call)
      ((h.came request.device).arrive rules hsent.began)
    dsimp only at harrive
    split at harrive
    · obtain rfl := some.inj harrive
      refine ⟨hset.owners, hset.callers, fun r hr => h.requests r (mem_of_mem_erase hr),
        hset.working, ?_, hset.came⟩
      exact forall_mem_append.mpr ⟨h.answers, forall_mem_singleton.mpr hsent⟩
    · obtain rfl := some.inj harrive
      refine ⟨hset.owners, hset.callers, fun r hr => h.requests r (mem_of_mem_erase hr),
        ?_, hset.answers, hset.came⟩
      exact forall_mem_append.mpr ⟨h.working, forall_mem_singleton.mpr hsent⟩
  · cases harrive

theorem Sound.finish (h : s.Sound rules) {device : String} {id : ForwardId} {ended : Except E R}
    (hfinish : s.finish rules device id ended = some s')
    (horderly : Orderly rules limits s (.ends device id ended)) : s'.Sound rules := by
  rw [Forwarding.finish] at hfinish
  cases howner : (s.owners device).finish rules id ended with
  | none =>
    rw [howner] at hfinish
    cases hfinish
  | some owner =>
    rw [howner] at hfinish
    obtain rfl := some.inj hfinish
    have hset := h.setOwner device ((h.owners device).finish howner horderly)
      ((h.came device).finish howner)
    refine ⟨hset.owners, hset.callers, hset.requests,
      fun r hr => h.working r (mem_filter.mp hr).1, ?_, hset.came⟩
    intro a ha
    rcases mem_append.mp ha with hold | hnew
    · exact h.answers a hold
    · obtain ⟨r, hr, rfl⟩ := List.mem_map.mp hnew
      exact h.working r (mem_filter.mp hr).1

theorem Sound.mintEnds (h : s.Sound rules) {ended : Except E R}
    (hends : s.mintEnds rules request ended = some s') : s'.Sound rules := by
  rw [Forwarding.mintEnds] at hends
  split at hends
  · next hmem =>
    obtain rfl := some.inj hends
    refine ⟨h.owners, h.callers, h.requests, fun r hr => h.working r (mem_of_mem_erase hr),
      ?_, h.came⟩
    exact forall_mem_append.mpr ⟨h.answers, forall_mem_singleton.mpr (h.working request hmem.1)⟩
  · cases hends

theorem Sound.hear (h : s.Sound rules) {answer : ForwardAnswer}
    (hhear : s.hear limits request answer = some s')
    (horderly : Orderly rules limits s (.answered request answer)) : s'.Sound rules := by
  rw [Forwarding.hear] at hhear
  split at hhear
  · next hmem =>
    obtain rfl := some.inj hhear
    have hcaller := h.callers request.peer
    have hset : (s.setCaller request.peer
        (told limits (s.callers request.peer) request.attempt answer)).Sound rules := by
      cases answer with
      | applied =>
        refine h.setCaller (hcaller.applied fun a ha => h.left_of_sent (h.answers _ hmem) ha) ?_
        intro d hd
        rwa [told, CallerJournal.left_applied]
      | refused kind =>
        refine h.setCaller (hcaller.refused ?_) ?_
        · intro a ha hopen
          exact horderly a (by rw [ha]; exact mem_singleton.mpr rfl) hopen
        · intro d hd
          rwa [told, CallerJournal.left_refused]
    refine ⟨hset.owners, hset.callers, hset.requests, hset.working, ?_, hset.came⟩
    intro a ha
    exact hset.answers a (mem_of_mem_erase ha)
  · cases hhear

theorem Sound.next (h : s.Sound rules) {event : ForwardingEvent R E}
    (horderly : Orderly rules limits s event) (hnext : next rules limits s event = some s') :
    s'.Sound rules := by
  cases event with
  | begins peer key call =>
    obtain rfl := some.inj hnext
    refine h.setCaller ((h.callers peer).begin key call horderly) ?_
    intro d hd
    rwa [CallerJournal.left_begin]
  | leaves peer n => exact h.leave hnext horderly
  | arrives request => exact h.arrive hnext
  | ends device id ended => exact h.finish hnext horderly
  | mintEnds request ended => exact h.mintEnds hnext
  | answered request answer => exact h.hear hnext horderly
  | lost peer n =>
    obtain rfl := some.inj hnext
    refine h.setCaller ((h.callers peer).lost n) ?_
    intro d hd
    rwa [CallerJournal.left_lost]
  | unsent peer n =>
    obtain rfl := some.inj hnext
    refine h.setCaller ((h.callers peer).unsent n) ?_
    intro d hd
    rwa [CallerJournal.left_unsent]
  | asks peer key =>
    obtain rfl := some.inj hnext
    exact h.setCaller (h.callers peer).sweep fun d hd => hd
  | ownerTick device ms =>
    obtain rfl := some.inj hnext
    refine h.setOwner device ((h.owners device).tick ms) ?_
    exact ⟨(h.came device).arrivals, (h.came device).waiting⟩
  | callerTick peer ms =>
    obtain rfl := some.inj hnext
    exact h.setCaller ((h.callers peer).tick ms) fun d hd => hd

theorem sound_reaches (h : (forwardingMachine rules limits).Reaches (Orderly rules limits) s) :
    s.Sound rules :=
  h.invariant sound_start fun _ _ _ hs hok hnext => hs.next hok hnext

/-- In a run of orderly steps no forwarded mutation executes twice while its receipt counts, and
every receipt holds. -/
theorem forwarded_at_most_once
    (h : (forwardingMachine rules limits).Reaches (Orderly rules limits) s) :
    s.ReceiptsHold rules limits := by
  have hs := sound_reaches h
  exact
    { once := fun device => (hs.owners device).once
      answers := fun device => (hs.owners device).answers
      applied := fun peer => (hs.callers peer).appliedStands
      forgotten := fun peer => (hs.callers peer).forgotUnsent
      began := fun device => (hs.came device).arrivals }

end Keeps

/-! ## Runs -/

instance (caller : CallerJournal) (key : String) : Decidable (caller.Left key) :=
  inferInstanceAs (Decidable (∃ d ∈ caller.left, d.key = key))

instance (caller : CallerJournal) (n : Nat) : Decidable (Unapplied caller n) :=
  inferInstanceAs (Decidable (∀ a ∈ caller.attempts[n]?.toList, a.ended = false →
    ∀ e ∈ caller.entries, e.serial = a.held → e.state ≠ .applied))

instance (now : Nat) (entries : List (OwnerEntry J)) :
    Decidable (OwnerJournal.OldestFirst rules now entries) :=
  inferInstanceAs (Decidable (entries.countP OwnerEntry.isSettled ≤ rules.depth ∨
    ∀ e ∈ entries.find? OwnerEntry.isSettled, e.startedAt + rules.ttlMs < now ∨
      ∀ e' ∈ entries, e'.isSettled = true → e.order ≤ e'.order))

instance (s : Forwarding J) : (event : ForwardingEvent R E) →
    Decidable (Orderly rules limits s event)
  | .begins peer key _ => inferInstanceAs
      (Decidable (((s.callers peer).sweep limits).find key = none → ¬(s.callers peer).Left key))
  | .leaves peer n => inferInstanceAs
      (Decidable (∀ a ∈ (s.callers peer).attempts[n]?.toList, a.ended = false))
  | .ends device id ended => inferInstanceAs
      (Decidable ((ForwardOutcome.stored rules (s.owners device).clock ended).retryable = false →
        OwnerJournal.OldestFirst rules (s.owners device).clock ((s.owners device).settledEntries id
          (ForwardOutcome.stored rules (s.owners device).clock ended))))
  | .answered request (.refused _) => inferInstanceAs
      (Decidable (Unapplied (s.callers request.peer) request.attempt))
  | .answered _ .applied => .isTrue trivial
  | .arrives _ => .isTrue trivial
  | .mintEnds _ _ => .isTrue trivial
  | .lost _ _ => .isTrue trivial
  | .unsent _ _ => .isTrue trivial
  | .asks _ _ => .isTrue trivial
  | .ownerTick _ _ => .isTrue trivial
  | .callerTick _ _ => .isTrue trivial

def oneReceipt : JournalRules Unit Bool Unit where
  depth := 1
  ttlMs := 24 * 60 * 60 * 1000
  resultJson _ := some none
  transportGrantExpiry _ _ := none
  storedError retryable :=
    { kind := if retryable then "UNAVAILABLE" else "NOT_FOUND"
      message := "refused"
      retryable := retryable
      details := none }

def dayOfReceipts : CallerLimits := { depth := 1, ttlMs := 24 * 60 * 60 * 1000 }

def rename : CallerCall := { device := "lab", method := "terminal.rename", digest := "a" }

def close : CallerCall := { device := "lab", method := "terminal.close", digest := "b" }

def request (key : String) (call : CallerCall) (n : Nat) : ForwardRequest :=
  requestOf "desk" n { key := key, call := call, held := 0 }

def forwarded (key : String) (call : CallerCall) (n : Nat) :
    List (ForwardingEvent Unit Bool) :=
  [.begins "desk" key call, .leaves "desk" n, .arrives (request key call n)]

def slowRun : List (ForwardingEvent Unit Bool) :=
  forwarded "slow" rename 0 ++ forwarded "quick" close 1 ++
    [.ends "lab" ⟨"desk", "quick"⟩ (.ok ()), .ends "lab" ⟨"desk", "slow"⟩ (.ok ())] ++
    forwarded "slow" rename 2 ++ [.ends "lab" ⟨"desk", "slow"⟩ (.ok ())]

def overtakenRun : List (ForwardingEvent Unit Bool) :=
  forwarded "key" rename 0 ++ [.ends "lab" ⟨"desk", "key"⟩ (.error true)] ++
    forwarded "key" rename 1 ++ [.ends "lab" ⟨"desk", "key"⟩ (.ok ()),
      .answered (request "key" rename 1) .applied,
      .answered (request "key" rename 0) (.refused "UNAVAILABLE")]

def lateRun : List (ForwardingEvent Unit Bool) :=
  [.begins "desk" "key" rename, .unsent "desk" 0, .leaves "desk" 0,
    .arrives (request "key" rename 0), .ends "lab" ⟨"desk", "key"⟩ (.ok ())]

def settled (key : String) (call : CallerCall) : Settlement Unit :=
  { call := (request key call 0).call, settledAt := 0, outcome := .applied (some none) none }

abbrev oneReceiptMachine : Machine (Forwarding Unit) (ForwardingEvent Unit Bool) :=
  forwardingMachine oneReceipt dayOfReceipts

variable {s : Forwarding Unit}

theorem not_once_of_history
    (h : (s.owners "lab").history =
      [settled "quick" close, settled "slow" rename, settled "slow" rename]) :
    ¬s.ReceiptsHold oneReceipt dayOfReceipts := by
  intro hholds
  have hlive : OwnerJournal.Live oneReceipt 1 (settled "slow" rename) 0 2 :=
    ⟨by decide, by decide, by decide⟩
  refine hholds.once "lab" 1 2 (settled "slow" rename) (settled "slow" rename) (by decide) ?_ ?_
    rfl hlive
  · rw [h]
    rfl
  · rw [h]
    rfl

theorem not_applied_of_report
    (h : ("key" ∈ (s.callers "desk").answered) ∧
      (((s.callers "desk").get dayOfReceipts "key").2.map CallerReceipt.state =
        some .refused)) :
    ¬s.ReceiptsHold oneReceipt dayOfReceipts := by
  intro hholds
  obtain ⟨receipt, hreceipt, hstate⟩ := map_eq_some_iff.mp h.2
  have happlied := hholds.applied "desk" "key" h.1 receipt hreceipt
  rw [hstate] at happlied
  cases happlied

theorem not_forgotten_of_left
    (h : (s.callers "desk").forgot = [⟨"key", 0, 0⟩] ∧
      (s.callers "desk").left = [⟨"key", 0⟩]) :
    ¬s.ReceiptsHold oneReceipt dayOfReceipts := by
  intro hholds
  refine (hholds.forgotten "desk" ⟨"key", 0, 0⟩ ?_).2 ⟨"key", 0⟩ ?_ rfl
  · rw [h.1]
    exact mem_singleton.mpr rfl
  · rw [h.2]
    exact mem_singleton.mpr rfl

/-- A slow call loses its receipt as it settles, and executes again; a late refusal stands over an
answer; and a request leaves after its key was forgotten. -/
theorem forwarded_twice :
    (∃ s, oneReceiptMachine.Reachable s ∧
      (s.owners "lab").history =
        [settled "quick" close, settled "slow" rename, settled "slow" rename] ∧
      ¬s.ReceiptsHold oneReceipt dayOfReceipts) ∧
    (∃ s, oneReceiptMachine.Reachable s ∧
      ("key" ∈ (s.callers "desk").answered ∧
        ((s.callers "desk").get dayOfReceipts "key").2.map CallerReceipt.state =
          some .refused) ∧
      ¬s.ReceiptsHold oneReceipt dayOfReceipts) ∧
    ∃ s, oneReceiptMachine.Reachable s ∧
      ((s.callers "desk").forgot = [⟨"key", 0, 0⟩] ∧ (s.callers "desk").left = [⟨"key", 0⟩]) ∧
      ¬s.ReceiptsHold oneReceipt dayOfReceipts := by
  refine ⟨?_, ?_, ?_⟩
  · obtain ⟨s, hs, hp⟩ := Machine.exists_of_run (M := oneReceiptMachine)
      (fun s => decide ((s.owners "lab").history =
        [settled "quick" close, settled "slow" rename, settled "slow" rename])) slowRun (by decide)
    exact ⟨s, hs, of_decide_eq_true hp, not_once_of_history (of_decide_eq_true hp)⟩
  · obtain ⟨s, hs, hp⟩ := Machine.exists_of_run (M := oneReceiptMachine)
      (fun s => decide ("key" ∈ (s.callers "desk").answered ∧
        ((s.callers "desk").get dayOfReceipts "key").2.map CallerReceipt.state = some .refused))
      overtakenRun (by decide)
    exact ⟨s, hs, of_decide_eq_true hp, not_applied_of_report (of_decide_eq_true hp)⟩
  · obtain ⟨s, hs, hp⟩ := Machine.exists_of_run (M := oneReceiptMachine)
      (fun s => decide ((s.callers "desk").forgot = [⟨"key", 0, 0⟩] ∧
        (s.callers "desk").left = [⟨"key", 0⟩])) lateRun (by decide)
    exact ⟨s, hs, of_decide_eq_true hp, not_forgotten_of_left (of_decide_eq_true hp)⟩

def retriedRun : List (ForwardingEvent Unit Bool) :=
  forwarded "key" rename 0 ++ [.ends "lab" ⟨"desk", "key"⟩ (.ok ()), .lost "desk" 0] ++
    forwarded "key" rename 1 ++ [.answered (request "key" rename 1) .applied,
      .answered (request "key" rename 0) .applied, .asks "desk" "key"]

theorem forwarded_at_most_once_retried :
    ∃ s, oneReceiptMachine.Reaches (Orderly oneReceipt dayOfReceipts) s ∧
      (s.owners "lab").history = [settled "key" rename] ∧
      ((s.callers "desk").get dayOfReceipts "key").2.map CallerReceipt.state = some .applied ∧
      s.ReceiptsHold oneReceipt dayOfReceipts := by
  obtain ⟨s, hs, hp⟩ := Machine.exists_of_orderly_run (M := oneReceiptMachine)
    (Orderly oneReceipt dayOfReceipts)
    (fun s => decide ((s.owners "lab").history = [settled "key" rename] ∧
      ((s.callers "desk").get dayOfReceipts "key").2.map CallerReceipt.state = some .applied))
    retriedRun (by decide)
  obtain ⟨hhistory, hstate⟩ := of_decide_eq_true hp
  exact ⟨s, hs, hhistory, hstate, forwarded_at_most_once hs⟩

end Forwarding

end VibeField.Fieldd
