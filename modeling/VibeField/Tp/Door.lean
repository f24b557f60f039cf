import VibeField.Base.Tasks
import VibeField.Tp.Touch

/-!
# The door

The door calls the table under its lock and performs the effects outside it, each
caller on a task of its own.  Between a call and the performance of its effects
any other task may run.  Attaching and detaching a view are two steps each: the
engine's call, and the report of it into the table.
-/

namespace VibeField.Tp

/-- What a task has still to do. -/
inductive Item where
  | perform (effect : Effect)
  | reportAttached (activationId : ActivationId) (viewId : ViewId) (epoch : Nat)
  | reportDetached (activationId : ActivationId)
  deriving DecidableEq, Repr

/-- A view attached in the engine. -/
structure EngineView where
  sessionId : SessionId
  clientId : ClientId
  viewId : ViewId
  deriving DecidableEq, Repr

/-- The pump the door keeps for an activation: the connection it was started on,
and whether its ledger told it that the activation is gone. -/
structure Pump where
  connectionId : ConnectionId
  ended : Bool
  deriving DecidableEq, Repr

structure Door where
  table : ActivationTable
  tasks : Tasks Item
  nextConnectionId : ConnectionId
  views : List EngineView
  pumps : Dict ActivationId Pump
  /-- the sessions that left the source -/
  left : List SessionId

inductive DoorEvent where
  /-- a task calls the table and obtains the effects -/
  | call (m : Moment) (op : Op)
  /-- a leg is accepted, a frames leg with its credit epoch, windows and reserve -/
  | acceptLeg (credit : Option (Nat × ReceiverCapacities × Nat))
  /-- a task performs its next item; an attach may be refused by the engine -/
  | perform (task : Nat) (epoch : Option Nat)
  /-- a pump asks whether it may send -/
  | pumpAsks (activationId : ActivationId) (bytes : Nat) (cls : UnitClass)
  | sessionLeaves (sessionId : SessionId)

namespace Door

def new (cellBootId : String) : Door where
  table := .new cellBootId
  tasks := []
  nextConnectionId := 1
  views := []
  pumps := ∅
  left := []

def mayCall (d : Door) : Op → Bool
  | .viewAttached _ _ _ => false
  | .viewDetached _ => false
  | .openCredit _ _ _ _ => false
  | .attachFrames i => (d.table.creditLedger i.leg.connectionId).isSome
  | _ => true

def call (d : Door) (m : Moment) (op : Op) : Door :=
  let r := d.table.apply m op
  { d with table := r.1, tasks := d.tasks.spawn (r.2.map .perform) }

def acceptLeg (d : Door) (credit : Option (Nat × ReceiverCapacities × Nat)) : Door :=
  { d with
    nextConnectionId := d.nextConnectionId + 1
    table :=
      match credit with
      | none => d.table
      | some (epoch, windows, reserve) =>
        d.table.openCredit d.nextConnectionId epoch windows reserve }

def pumpConnection (d : Door) (activationId : ActivationId) : Option ConnectionId :=
  (d.table.get activationId).bind fun a =>
    a.frames.bind fun frames =>
      if a.sessionId ∉ d.left ∧ (d.table.creditLedger frames.connectionId).isSome ∧
          a.sceneEpoch.isSome then
        some frames.connectionId
      else
        none

def startPump (d : Door) (activationId : ActivationId) : Door :=
  match d.pumpConnection activationId with
  | none => d
  | some connectionId =>
    { d with
      pumps := d.pumps.insert activationId { connectionId := connectionId, ended := false } }

def stopPump (d : Door) (activationId : ActivationId) : Door :=
  { d with pumps := d.pumps.erase activationId }

def attachEngineView (d : Door) (v : EngineView) : Door :=
  { d with views := if v ∈ d.views then d.views else v :: d.views }

def detachEngineView (d : Door) (v : EngineView) : Door :=
  { d with views := if v.sessionId ∈ d.left then d.views else d.views.filter (· ≠ v) }

/-- Perform one item: the door after it, what the task does next because of it,
and the effects the table answered, which wait behind the rest of the task. -/
def performItem (d : Door) (epoch : Option Nat) : Item → Door × List Item × List Effect
  | .perform (.send _ _) => (d, [], [])
  | .perform (.attachView x s c v _) =>
    if s ∈ d.left then
      (d, [], [])
    else
      match epoch with
      | none => (d, [], [])
      | some e =>
        (d.attachEngineView { sessionId := s, clientId := c, viewId := v },
          [.reportAttached x v e], [])
  | .perform (.detachView x s c v) =>
    (d.detachEngineView { sessionId := s, clientId := c, viewId := v }, [.reportDetached x], [])
  | .perform (.startPump x) => (d.startPump x, [], [])
  | .perform (.stopPump x) => (d.stopPump x, [], [])
  | .perform (.wakePump _) => (d, [], [])
  | .reportAttached x v e =>
    let r := d.table.viewAttached x v e
    ({ d with table := r.1 }, [], r.2)
  | .reportDetached x =>
    let r := d.table.viewDetached x
    ({ d with table := r.1 }, [], r.2)

def perform (d : Door) (n : Nat) (epoch : Option Nat) (item : Item) : Door :=
  let r := d.performItem epoch item
  { r.1 with tasks := d.tasks.advance n r.2.1 (r.2.2.map .perform) }

def pumpAsks (d : Door) (activationId : ActivationId) (pump : Pump) (bytes : Nat)
    (cls : UnitClass) : Door :=
  let r := d.table.canAdmit pump.connectionId activationId bytes cls
  { d with
    table := r.1
    pumps :=
      if r.2.isNone then d.pumps.modify activationId fun p => { p with ended := true }
      else d.pumps }

def sessionLeaves (d : Door) (sessionId : SessionId) : Door :=
  { d with
    left := sessionId :: d.left
    views := d.views.filter (·.sessionId ≠ sessionId) }

def next (d : Door) : DoorEvent → Option Door
  | .call m op => if d.mayCall op then some (d.call m op) else none
  | .acceptLeg credit => some (d.acceptLeg credit)
  | .perform n epoch => (d.tasks.head n).map fun item => d.perform n epoch item
  | .pumpAsks x bytes cls => (d.pumps.lookup x).map fun pump => d.pumpAsks x pump bytes cls
  | .sessionLeaves s => some (d.sessionLeaves s)

def machine (cellBootId : String) : Machine Door DoorEvent where
  start := .new cellBootId
  next := Door.next

/-- Some task has still to perform the item. -/
def Outstanding (d : Door) (item : Item) : Prop := d.tasks.Outstanding item

/-! ## The indexes agree behind the door too -/

theorem table_call (d : Door) (m : Moment) (op : Op) :
    (d.call m op).table = (d.table.apply m op).1 := rfl

theorem wellIndexed_performItem {d : Door} (h : d.table.WellIndexed) (epoch : Option Nat)
    (item : Item) : (d.performItem epoch item).1.table.WellIndexed := by
  have hsame : ∀ d' : Door, d'.table = d.table → d'.table.WellIndexed := fun d' heq => by
    rw [heq]
    exact h
  cases item with
  | perform effect =>
    cases effect with
    | attachView x s c v w =>
      simp only [performItem]
      split
      · exact h
      · split
        · exact h
        · exact hsame _ rfl
    | startPump x =>
      refine hsame _ ?_
      simp only [performItem, startPump]
      split <;> rfl
    | _ => exact hsame _ rfl
  | reportAttached x v e =>
    exact h.apply { nowMs := 0, instant := 0, outClosed := fun _ => false } (.viewAttached x v e)
  | reportDetached x => exact h.viewDetached x

theorem wellIndexed {cellBootId : String} {ok : Door → DoorEvent → Prop} {d : Door}
    (h : (machine cellBootId).Reaches ok d) : d.table.WellIndexed := by
  refine Machine.Reachable.invariant (P := fun d : Door => d.table.WellIndexed)
    (.new cellBootId) (fun d e d' hd hnext => ?_) h.reachable
  cases e with
  | call m op =>
    simp only [machine, Door.next] at hnext
    split at hnext
    · cases hnext
      exact hd.apply m op
    · cases hnext
  | acceptLeg credit =>
    cases hnext
    cases credit with
    | none => exact hd
    | some c => exact hd.same ⟨rfl, rfl, rfl⟩
  | perform n epoch =>
    obtain ⟨item, -, rfl⟩ := Option.map_eq_some_iff.mp hnext
    exact wellIndexed_performItem hd epoch item
  | pumpAsks x bytes cls =>
    obtain ⟨pump, -, rfl⟩ := Option.map_eq_some_iff.mp hnext
    exact hd.apply { nowMs := 0, instant := 0, outClosed := fun _ => false }
      (.canAdmit pump.connectionId x bytes cls)
  | sessionLeaves s =>
    cases hnext
    exact hd

end Door
end VibeField.Tp
