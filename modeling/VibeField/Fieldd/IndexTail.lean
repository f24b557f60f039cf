import VibeField.Base.Dict
import VibeField.Base.Machine

/-!
# Session tails

One socket follows a session, however many subscribers it has.  A subscribe waits for the first
snapshot and then installs its subscription; the last reader that leaves closes the socket.  A
reader that leaves counts the subscriptions installed, and not the subscribes that still wait.
-/

namespace VibeField.Fieldd

/-! ## What is refused -/

/-- Where the index stands, as `RosettadPhase` names it. -/
inductive RosettadPhase where
  | unconfigured
  | starting
  | ready
  | restarting
  | rebuilding
  | failed
  | stopped
  deriving DecidableEq, Repr

def RosettadPhase.name : RosettadPhase → String
  | .unconfigured => "unconfigured"
  | .starting => "starting"
  | .ready => "ready"
  | .restarting => "restarting"
  | .rebuilding => "rebuilding"
  | .failed => "failed"
  | .stopped => "stopped"

/-- An `RpcCallError` of the index; its details name the service `index` and this state. -/
structure IndexRefusal where
  kind : String
  message : String
  retryable : Bool
  state : Option String
  deriving DecidableEq, Repr

def IndexRefusal.stopping : IndexRefusal :=
  ⟨"UNAVAILABLE", "fieldd is stopping", false, some "stopped"⟩

def IndexRefusal.timedOut : IndexRefusal :=
  ⟨"UNAVAILABLE", "the agent index did not open the session's socket in time", true,
    some "unreachable"⟩

def IndexRefusal.closedEarly : IndexRefusal :=
  ⟨"UNAVAILABLE", "the session tail closed before its first snapshot", true, some "unreachable"⟩

/-- What the supervisor of the daemon says. -/
structure RosettadState where
  phase : RosettadPhase
  detail : Option String
  origin : Option String
  credentials : Option String
  deriving DecidableEq, Repr

def IndexRefusal.unavailable (supervisor : Option RosettadState) : IndexRefusal :=
  let phase := (supervisor.map RosettadState.phase).getD .unconfigured
  let detail := ((supervisor.bind RosettadState.detail).filter (· ≠ "")).elim "" (": " ++ ·)
  ⟨"UNAVAILABLE", "the agent index is " ++ phase.name ++ detail, phase != .unconfigured,
    some phase.name⟩

/-- An error of the session socket. -/
structure ApiError where
  code : String
  message : String
  deriving DecidableEq, Repr

def IndexRefusal.ofApiError (error : ApiError) : IndexRefusal :=
  if error.code = "incompatible_protocol" then
    ⟨"INCOMPATIBLE", error.message, false, some "incompatible"⟩
  else if error.code = "not_found" then
    ⟨"NOT_FOUND", "the agent index holds no such session", false, none⟩
  else
    ⟨"UNAVAILABLE", "the session socket refused: " ++ error.message, true, some "unreachable"⟩

/-! ## Tails -/

/-- The promise of a first snapshot. -/
inductive TailReady where
  | pending
  | resolved
  | rejected (error : IndexRefusal)
  deriving DecidableEq, Repr

def TailReady.settle (ready outcome : TailReady) : TailReady :=
  match ready with
  | .pending => outcome
  | _ => ready

/-- The socket of one session; `subscribers` are the subscriptions installed on it. -/
structure SessionTail where
  sessionId : String
  ready : TailReady := .pending
  closed : Bool := false
  subscribers : List Nat := []
  deriving DecidableEq, Repr

namespace SessionTail

variable (tail : SessionTail)

def onSnapshot : SessionTail := { tail with ready := tail.ready.settle .resolved }

def close : SessionTail :=
  if tail.closed then tail
  else { tail with closed := true, ready := tail.ready.settle (.rejected .closedEarly) }

def onError (error : ApiError) : SessionTail :=
  match tail.ready with
  | .pending => { tail with ready := .rejected (.ofApiError error) }.close
  | _ => tail

end SessionTail

/-! ## The service -/

/-- A call of `subscribe`: it waits for a tail's first snapshot, its wait has ended, or it has
answered. -/
inductive SubscribeCall where
  | waiting (tail : Nat)
  | opened (tail : Nat)
  | refused (tail : Nat) (error : IndexRefusal)
  | returned (subscription : Nat)
  | thrown (error : IndexRefusal)
  deriving DecidableEq, Repr

def SubscribeCall.awaits (tail : Nat) (call : SubscribeCall) : Bool :=
  call == .waiting tail || call == .opened tail

structure TailSubscription where
  tail : Nat
  disposed : Bool
  deriving DecidableEq, Repr

/-- `tails` are all that were ever made, named by their place; `table` those that sessions have. -/
structure IndexTailService where
  tails : List SessionTail := []
  table : Dict String Nat := ∅
  calls : List SubscribeCall := []
  subscriptions : List TailSubscription := []
  disposed : Bool := false

def SubscribeCall.settle (tails : List SessionTail) : SubscribeCall → SubscribeCall
  | .waiting i =>
    match (tails[i]?).map SessionTail.ready with
    | some .resolved => .opened i
    | some (.rejected error) => .refused i error
    | _ => .waiting i
  | call => call

namespace IndexTailService

variable (s : IndexTailService)

def settle : IndexTailService := { s with calls := s.calls.map (SubscribeCall.settle s.tails) }

def change (i : Nat) (f : SessionTail → SessionTail) : IndexTailService :=
  { s with tails := s.tails.modify i f }.settle

def openTail (sessionId : String) : Option Nat :=
  (s.table.lookup sessionId).filter fun i => (s.tails[i]?).any fun tail => !tail.closed

def tailFor (sessionId : String) (supervisor : Option RosettadState) :
    Except IndexRefusal (IndexTailService × Nat) :=
  match s.openTail sessionId with
  | some i => .ok (s, i)
  | none =>
    match supervisor.bind RosettadState.origin, supervisor.bind RosettadState.credentials with
    | some _, some _ =>
      .ok ({ s with
        tails := s.tails ++ [{ sessionId }]
        table := s.table.insert sessionId s.tails.length }, s.tails.length)
    | _, _ => .error (.unavailable supervisor)

def call (c : SubscribeCall) : IndexTailService := { s with calls := s.calls ++ [c] }

def subscribe (sessionId : String) (supervisor : Option RosettadState) : IndexTailService :=
  if s.disposed then s.call (.thrown .stopping)
  else
    match s.tailFor sessionId supervisor with
    | .error error => s.call (.thrown error)
    | .ok (s, i) => (s.call (.waiting i)).settle

def releaseIfIdle (i : Nat) : IndexTailService :=
  match s.tails[i]? with
  | none => s
  | some tail =>
    if tail.subscribers.length > 0 then s
    else
      let s := s.change i SessionTail.close
      if s.table.lookup tail.sessionId = some i then
        { s with table := s.table.erase tail.sessionId }
      else s

def resume (c : Nat) : Option IndexTailService :=
  match s.calls[c]? with
  | some (.opened i) =>
    let k := s.subscriptions.length
    some { s with
      tails := s.tails.modify i fun tail => { tail with subscribers := tail.subscribers ++ [k] }
      subscriptions := s.subscriptions ++ [⟨i, false⟩]
      calls := s.calls.set c (.returned k) }
  | some (.refused i error) =>
    some (({ s with calls := s.calls.set c (.thrown error) } : IndexTailService).releaseIfIdle i)
  | _ => none

def timeout (c : Nat) : Option IndexTailService :=
  match s.calls[c]? with
  | some (.waiting i) => some { s with calls := s.calls.set c (.refused i .timedOut) }
  | _ => none

def disposeSubscription (k : Nat) : Option IndexTailService :=
  match s.subscriptions[k]? with
  | none => none
  | some subscription =>
    let i := subscription.tail
    let left : IndexTailService :=
      { s with
        subscriptions := s.subscriptions.set k { subscription with disposed := true }
        tails := s.tails.modify i fun tail =>
          { tail with subscribers := tail.subscribers.erase k } }
    some (left.releaseIfIdle i)

def dispose : IndexTailService :=
  { s with
    tails := s.table.values.foldl (fun tails i => tails.modify i SessionTail.close) s.tails
    table := ∅
    disposed := true }.settle

end IndexTailService

/-- What happens: a caller subscribes or disposes; a socket says something; a timer fires; a call
goes on after its wait; the service is disposed. -/
inductive TailEvent where
  | subscribe (sessionId : String) (supervisor : Option RosettadState)
  | snapshot (tail : Nat)
  | error (tail : Nat) (error : ApiError)
  | timeout (call : Nat)
  | resume (call : Nat)
  | disposeSubscription (subscription : Nat)
  | dispose

def IndexTailService.next (s : IndexTailService) : TailEvent → Option IndexTailService
  | .subscribe sessionId supervisor => some (s.subscribe sessionId supervisor)
  | .snapshot i => some (s.change i SessionTail.onSnapshot)
  | .error i error => some (s.change i fun tail => tail.onError error)
  | .timeout c => s.timeout c
  | .resume c => s.resume c
  | .disposeSubscription k => s.disposeSubscription k
  | .dispose => some s.dispose

def indexTailMachine : Machine IndexTailService TailEvent where
  start := {}
  next := IndexTailService.next

end VibeField.Fieldd
