import VibeField.Base.Dict
import VibeField.Tp.Wire

/-!
# The credit ledger of a frames connection

The connection window, one account per activation, and every total cumulative
within the credit epoch.  An account is live, or draining once its activation was
invalidated with bytes in flight.  Removing it from the ledger closes it.
-/

namespace VibeField.Tp

open Dict

/-- Urgent increments draw the full connection window, bulk transfers stop at the
urgent reserve. -/
inductive UnitClass where
  | urgent
  | bulk
  deriving DecidableEq, Repr

/-- Cumulative bytes admitted and returned within the epoch. -/
structure Window where
  admitted : Nat
  returned : Nat
  limit : Nat
  deriving DecidableEq, Repr

namespace Window

def inFlight (w : Window) : Nat := w.admitted - w.returned

def canAdmit (w : Window) (bytes : Nat) : Bool := w.inFlight + bytes ≤ w.limit

def canAdmitWithin (w : Window) (bytes effectiveLimit : Nat) : Bool :=
  w.inFlight + bytes ≤ effectiveLimit

end Window

structure Account where
  window : Window
  draining : Bool
  starved : Bool
  deriving DecidableEq, Repr

def Account.takeWake (a : Account) : Account × Bool :=
  if a.draining || !a.starved then (a, false) else ({ a with starved := false }, true)

structure CreditLedger where
  creditEpoch : Nat
  lastSequence : Option Nat
  connection : Window
  perActivationLimit : Nat
  urgentReserve : Nat
  accounts : Dict ActivationId Account
  seedSlots : Nat

namespace CreditLedger

def new (creditEpoch : Nat) (windows : ReceiverCapacities) (urgentReserve : Nat) :
    CreditLedger where
  creditEpoch := creditEpoch
  lastSequence := none
  connection := { admitted := 0, returned := 0, limit := windows.connectionCreditBytes }
  perActivationLimit := windows.perActivationCreditBytes
  urgentReserve := min urgentReserve (windows.connectionCreditBytes / 2)
  accounts := ∅
  seedSlots := windows.maxConcurrentSeeds

def connectionLimitFor (l : CreditLedger) : UnitClass → Nat
  | .urgent => l.connection.limit
  | .bulk => l.connection.limit - l.urgentReserve

def openAccount (l : CreditLedger) (activationId : ActivationId) : CreditLedger :=
  let account := (l.accounts.lookup activationId).getD
    { window := { admitted := 0, returned := 0, limit := l.perActivationLimit }
      draining := false
      starved := false }
  { l with accounts := l.accounts.insert activationId { account with draining := false } }

def closeAccount (l : CreditLedger) (activationId : ActivationId) : CreditLedger :=
  match l.accounts.lookup activationId with
  | none => l
  | some account =>
    if account.window.inFlight > 0 then
      { l with accounts := l.accounts.modify activationId fun a => { a with draining := true } }
    else
      { l with accounts := l.accounts.erase activationId }

def canAdmit (l : CreditLedger) (activationId : ActivationId) (bytes : Nat) (cls : UnitClass) :
    CreditLedger × Option Bool :=
  let connectionAdmits := l.connection.canAdmitWithin bytes (l.connectionLimitFor cls)
  match l.accounts.lookup activationId with
  | none => (l, none)
  | some account =>
    if account.draining then
      (l, none)
    else
      let admits := connectionAdmits && account.window.canAdmit bytes
      ({ l with accounts := l.accounts.modify activationId fun a => { a with starved := !admits } },
        some admits)

def tryAdmit (l : CreditLedger) (activationId : ActivationId) (bytes : Nat) (cls : UnitClass) :
    CreditLedger × Bool :=
  match l.canAdmit activationId bytes cls with
  | (l, some true) =>
    match l.accounts.lookup activationId with
    | none => (l, false)
    | some _ =>
      ({ l with
          accounts := l.accounts.modify activationId fun a =>
            { a with window := { a.window with admitted := a.window.admitted + bytes } }
          connection := { l.connection with admitted := l.connection.admitted + bytes } },
        true)
  | (l, _) => (l, false)

def applyReturn (accounts : Dict ActivationId Account) (named : CreditAccountReturn) :
    Dict ActivationId Account × List ActivationId :=
  match accounts.lookup named.activationId with
  | none => (accounts, [])
  | some account =>
    if named.bytesReturned > account.window.returned then
      let account :=
        { account with window := { account.window with returned := named.bytesReturned } }
      let woken := account.takeWake
      (accounts.modify named.activationId fun _ => woken.1,
        if woken.2 then [named.activationId] else [])
    else
      (accounts, [])

def applyReturns (accounts : Dict ActivationId Account) :
    List CreditAccountReturn → Dict ActivationId Account × List ActivationId
  | [] => (accounts, [])
  | named :: rest =>
    let first := applyReturn accounts named
    let others := applyReturns first.1 rest
    (others.1, first.2 ++ others.2)

/-- Apply a credit report.  An old epoch or a seen sequence is ignored.  The
answer is the activations whose pumps wait on the credit that moved. -/
def returned (l : CreditLedger) (credit : TransportCredit) : CreditLedger × List ActivationId :=
  if credit.creditEpoch ≠ l.creditEpoch then
    (l, [])
  else if l.lastSequence.any fun s => credit.creditSequence ≤ s then
    (l, [])
  else
    let returned := max l.connection.returned credit.connectionBytesReturned
    let connectionMoved := returned > l.connection.returned
    let named := applyReturns l.accounts credit.accounts
    -- a draining account closes once every admitted byte is back
    let accounts := named.1.retain fun _ a => !a.draining || a.window.inFlight > 0
    let l :=
      { l with
        lastSequence := some credit.creditSequence
        connection := { l.connection with returned := returned } }
    if connectionMoved then
      let woken := accounts.alist.entries.filterMap fun e =>
        if e.2.takeWake.2 then some e.1 else none
      ({ l with accounts := accounts.mapVals fun _ a => a.takeWake.1 }, named.2 ++ woken)
    else
      ({ l with accounts := accounts }, named.2)

/-! ## Live accounts

An account is live until its own activation closes it: no return, admission or
other activation's account makes it drain. -/

/-- The activation has an account that is not draining. -/
def LiveIn (accounts : Dict ActivationId Account) (x : ActivationId) : Prop :=
  ∃ a, accounts.lookup x = some a ∧ a.draining = false

def Live (l : CreditLedger) (x : ActivationId) : Prop := LiveIn l.accounts x

variable {l : CreditLedger} {accounts : Dict ActivationId Account} {x y : ActivationId}

theorem liveIn_modify {f : Account → Account} (hf : ∀ a, (f a).draining = a.draining)
    (h : LiveIn accounts x) : LiveIn (accounts.modify y f) x := by
  obtain ⟨a, ha, hlive⟩ := h
  rw [LiveIn, lookup_modify, ha]
  split
  · exact ⟨f a, rfl, (hf a).trans hlive⟩
  · exact ⟨a, rfl, hlive⟩

theorem draining_takeWake (a : Account) : a.takeWake.1.draining = a.draining := by
  rw [Account.takeWake]
  split <;> rfl

theorem live_openAccount_self (l : CreditLedger) (x : ActivationId) : (l.openAccount x).Live x := by
  rw [Live, LiveIn, openAccount, lookup_insert, if_pos rfl]
  exact ⟨_, rfl, rfl⟩

theorem live_openAccount (h : l.Live x) : (l.openAccount y).Live x := by
  by_cases hxy : x = y
  · rw [hxy]
    exact live_openAccount_self l y
  · obtain ⟨a, ha, hlive⟩ := h
    refine ⟨a, ?_, hlive⟩
    rw [openAccount, lookup_insert, if_neg hxy]
    exact ha

theorem live_closeAccount (hxy : x ≠ y) (h : l.Live x) : (l.closeAccount y).Live x := by
  obtain ⟨a, ha, hlive⟩ := h
  rw [closeAccount]
  split
  · exact ⟨a, ha, hlive⟩
  · split
    · exact ⟨a, by rw [lookup_modify, if_neg hxy]; exact ha, hlive⟩
    · exact ⟨a, by rw [lookup_erase, if_neg hxy]; exact ha, hlive⟩

theorem live_canAdmit (bytes : Nat) (cls : UnitClass) (h : l.Live x) :
    (l.canAdmit y bytes cls).1.Live x := by
  rw [canAdmit]
  simp only
  split
  · exact h
  · split
    · exact h
    · exact liveIn_modify (fun _ => rfl) h

theorem canAdmit_isSome (bytes : Nat) (cls : UnitClass) (h : l.Live x) :
    (l.canAdmit x bytes cls).2.isSome = true := by
  obtain ⟨a, ha, hlive⟩ := h
  simp [canAdmit, ha, hlive]

theorem live_tryAdmit (bytes : Nat) (cls : UnitClass) (h : l.Live x) :
    (l.tryAdmit y bytes cls).1.Live x := by
  have hcan := live_canAdmit (y := y) bytes cls h
  rw [tryAdmit]
  split
  · next l' hl =>
    rw [hl] at hcan
    split
    · exact hcan
    · exact liveIn_modify (fun _ => rfl) hcan
  · next l' _ _ hl =>
    rw [hl] at hcan
    exact hcan

theorem liveIn_applyReturn (named : CreditAccountReturn) (h : LiveIn accounts x) :
    LiveIn (applyReturn accounts named).1 x := by
  rw [applyReturn]
  split
  · exact h
  · next account hnamed =>
    split
    · by_cases hx : x = named.activationId
      · obtain ⟨a, ha, hlive⟩ := h
        rw [← hx, ha] at hnamed
        cases hnamed
        simp only
        rw [LiveIn, lookup_modify, if_pos hx, ha]
        exact ⟨_, rfl, (draining_takeWake _).trans hlive⟩
      · obtain ⟨a, ha, hlive⟩ := h
        exact ⟨a, by rw [lookup_modify, if_neg hx]; exact ha, hlive⟩
    · exact h

theorem liveIn_applyReturns :
    ∀ (named : List CreditAccountReturn) {accounts : Dict ActivationId Account},
      LiveIn accounts x → LiveIn (applyReturns accounts named).1 x
  | [], _, h => h
  | r :: rest, _, h => liveIn_applyReturns rest (liveIn_applyReturn r h)

theorem live_returned (credit : TransportCredit) (h : l.Live x) : (l.returned credit).1.Live x := by
  obtain ⟨a, ha, hlive⟩ := liveIn_applyReturns credit.accounts h
  have hkept : LiveIn ((applyReturns l.accounts credit.accounts).1.retain
      fun _ a => !a.draining || a.window.inFlight > 0) x := by
    refine ⟨a, ?_, hlive⟩
    rw [lookup_retain, ha, Option.filter_some_pos]
    rw [hlive]
    rfl
  rw [returned]
  split
  · exact h
  · split
    · exact h
    · simp only
      split
      · obtain ⟨b, hb, hlive⟩ := hkept
        refine ⟨b.takeWake.1, ?_, (draining_takeWake b).trans hlive⟩
        simp only [lookup_mapVals, hb, Option.map_some]
      · exact hkept

end CreditLedger
end VibeField.Tp
