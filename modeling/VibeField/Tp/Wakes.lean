import VibeField.Tp.Solvent

/-!
# No lost wake on credit

A pump that was refused credit sleeps until a report wakes it.  A `WakeRun` is a ledger
with the last refusal of every activation that has been told nothing since: neither an
admission, nor a wake, nor that its account closed.  Such an account has had nothing
returned to it, and neither has the connection, so it would be refused again; and the
report that moves either total lists it, once.

An ask is a `tryAdmit` or a `canAdmit`.  An admission of the one takes the mark that a
refusal of the other has left.
-/

namespace VibeField.Tp

open List Option Dict CreditLedger

def Account.waits (a : Account) : Bool := !a.draining && a.starved

theorem Account.takeWake_woken (a : Account) : a.takeWake.2 = a.waits := by
  rw [takeWake, waits]
  cases a.draining <;> cases a.starved <;> rfl

theorem Account.takeWake_waits (a : Account) : a.takeWake.1.waits = false := by
  rw [takeWake]
  cases hd : a.draining <;> cases hs : a.starved <;> simp [waits, hd, hs]

theorem Account.takeWake_window (a : Account) : a.takeWake.1.window = a.window := by
  rw [takeWake]
  split <;> rfl

namespace CreditLedger

variable {l : CreditLedger} {accounts : Dict ActivationId Account} {x : ActivationId}
  {a : Account} {credit : TransportCredit}

/-! ## Whom the named returns wake -/

/-- The account after returns that raised its total to `returned`, and how often its
activation was listed. -/
structure Woken (a : Account) (returned : Nat) (b : Account) (times : Nat) : Prop where
  window : b.window = { a.window with returned := returned }
  draining : b.draining = a.draining
  le : a.window.returned ≤ returned
  times : times = if a.waits = true ∧ a.window.returned < returned then 1 else 0
  waits : b.waits = true ↔ a.waits = true ∧ returned = a.window.returned

theorem Woken.same (a : Account) : Woken a a.window.returned a 0 where
  window := rfl
  draining := rfl
  le := Nat.le_refl _
  times := by rw [if_neg fun h => Nat.lt_irrefl _ h.2]
  waits := (and_iff_left rfl).symm

theorem Woken.trans {a b c : Account} {m n j k : Nat} (h : Woken a m b j) (h' : Woken b n c k) :
    Woken a n c (j + k) := by
  have hb : b.window.returned = m := by rw [h.window]
  have hle := h.le
  have hle' := h'.le
  have hwaits := h.waits
  rw [hb] at hle'
  refine ⟨by rw [h'.window, h.window], h'.draining.trans h.draining, hle.trans hle', ?_, ?_⟩
  · rw [h.times, h'.times, hb]
    by_cases ha : a.waits = true
    · by_cases hm : m = a.window.returned
      · rw [if_neg fun hw => by omega]
        simp only [hwaits.mpr ⟨ha, hm⟩, ha, true_and, hm, Nat.zero_add]
      · rw [if_pos ⟨ha, by omega⟩, if_neg fun hw => hm (hwaits.mp hw.1).2, if_pos ⟨ha, by omega⟩]
    · rw [if_neg fun hw => ha hw.1, if_neg fun hw => ha (hwaits.mp hw.1).1,
        if_neg fun hw => ha hw.1]
  · rw [h'.waits, hwaits, hb]
    constructor
    · intro hw
      exact ⟨hw.1.1, hw.2.trans hw.1.2⟩
    · intro hw
      have hm : m = a.window.returned := by omega
      exact ⟨⟨hw.1, hm⟩, hw.2.trans hm.symm⟩

theorem Woken.raised (a : Account) {n : Nat} (h : a.window.returned < n) :
    Woken a n { a with window := { a.window with returned := n } }.takeWake.1
      (if { a with window := { a.window with returned := n } }.takeWake.2 then 1 else 0) where
  window := by rw [Account.takeWake_window]
  draining := draining_takeWake _
  le := Nat.le_of_lt h
  times := by
    rw [Account.takeWake_woken]
    simp only [h, and_true]
    rfl
  waits := by
    rw [Account.takeWake_waits]
    exact iff_of_false Bool.false_ne_true fun hw => Nat.ne_of_gt h hw.2

theorem applyReturn_woken (r : CreditAccountReturn) (ha : accounts.lookup x = some a) :
    ∃ b, (applyReturn accounts r).1.lookup x = some b ∧
      Woken a (if r.activationId = x then max a.window.returned r.bytesReturned
        else a.window.returned) b ((applyReturn accounts r).2.count x) := by
  rw [applyReturn]
  split
  · next hnone =>
    have hne : r.activationId ≠ x := fun he => by
      rw [he, ha] at hnone
      cases hnone
    refine ⟨a, ha, ?_⟩
    rw [if_neg hne]
    exact .same a
  · next account haccount =>
    by_cases hx : r.activationId = x
    · rw [hx, ha] at haccount
      obtain rfl := some.inj haccount
      rw [if_pos hx]
      split
      · next hmore =>
        refine ⟨_, by rw [lookup_modify, if_pos hx.symm, ha, map_some], ?_⟩
        rw [Nat.max_eq_right (Nat.le_of_lt hmore)]
        have hraised := Woken.raised a hmore
        dsimp only
        split
        · next hwoken =>
          rw [if_pos hwoken] at hraised
          rwa [hx, count_singleton_self]
        · next hwoken => rwa [if_neg hwoken] at hraised
      · next hless =>
        refine ⟨a, ha, ?_⟩
        rw [Nat.max_eq_left (Nat.le_of_not_lt hless)]
        exact .same a
    · rw [if_neg hx]
      split
      · refine ⟨a, by rw [lookup_modify, if_neg (Ne.symm hx)]; exact ha, ?_⟩
        have hcount : (if ({ account with window := { account.window with
            returned := r.bytesReturned } } : Account).takeWake.2 = true then [r.activationId]
              else []).count x = 0 := by
          split
          · exact count_eq_zero.mpr fun hmem => hx (mem_singleton.mp hmem).symm
          · rfl
        dsimp only
        rw [hcount]
        exact .same a
      · exact ⟨a, ha, .same a⟩

theorem applyReturns_woken :
    ∀ (named : List CreditAccountReturn) {accounts : Dict ActivationId Account} {a : Account},
      accounts.lookup x = some a →
        ∃ b, (applyReturns accounts named).1.lookup x = some b ∧
          Woken a (a.returnedBy x named) b ((applyReturns accounts named).2.count x)
  | [], _, a, ha => ⟨a, ha, .same a⟩
  | r :: rest, _, a, ha => by
    obtain ⟨b, hb, hab⟩ := applyReturn_woken r ha
    obtain ⟨c, hc, hbc⟩ := applyReturns_woken rest hb
    refine ⟨c, hc, ?_⟩
    rw [applyReturns, count_append]
    refine Woken.trans (m := _) hab ?_
    have hsame : a.returnedBy x (r :: rest) = b.returnedBy x rest := by
      rw [Account.returnedBy, Account.returnedBy, hab.window]
      rfl
    rwa [hsame]

theorem applyReturns_absent :
    ∀ (named : List CreditAccountReturn) {accounts : Dict ActivationId Account},
      accounts.lookup x = none → (applyReturns accounts named).2.count x = 0
  | [], _, _ => rfl
  | r :: rest, accounts, h => by
    have hfirst : (applyReturn accounts r).2.count x = 0 := by
      rw [applyReturn]
      split
      · rfl
      · next account haccount =>
        have hne : r.activationId ≠ x := fun he => by
          rw [he, h] at haccount
          cases haccount
        split
        · dsimp only
          split
          · exact count_eq_zero.mpr fun hmem => hne (mem_singleton.mp hmem).symm
          · rfl
        · rfl
    rw [applyReturns, count_append, hfirst,
      applyReturns_absent rest (lookup_applyReturn_none r h)]

/-! ## Whom a report wakes -/

theorem count_waiting (accounts : Dict ActivationId Account) (x : ActivationId) :
    (accounts.alist.entries.filterMap fun e =>
      if e.2.takeWake.2 then some e.1 else none).count x =
      if (accounts.lookup x).any Account.waits then 1 else 0 := by
  have hkeys : (accounts.alist.entries.filterMap fun e =>
      if e.2.takeWake.2 then some e.1 else none) =
      (accounts.retain fun _ a => a.waits).keys := by
    rw [Dict.keys, retain, AList.keys, List.keys, ← filterMap_eq_map,
      filterMap_filter]
    simp only [Account.takeWake_woken, Function.comp]
  have hnodup : (accounts.retain fun _ a => a.waits).keys.Nodup :=
    (accounts.retain fun _ a => a.waits).alist.nodupKeys
  rw [hkeys]
  have hmem : x ∈ (accounts.retain fun _ a => a.waits).keys ↔
      (accounts.lookup x).any Account.waits = true := by
    rw [Dict.mem_keys, lookup_retain]
    cases accounts.lookup x with
    | none => simp
    | some a => simp [filter_eq_some_iff]
  split
  · next hany => exact count_eq_one_of_mem hnodup (hmem.mpr hany)
  · next hany => exact count_eq_zero.mpr fun hin => hany (hmem.mp hin)

/-- Whether the report moves either total the account depends on. -/
def moves (l : CreditLedger) (credit : TransportCredit) (x : ActivationId) (a : Account) : Prop :=
  a.window.returned < a.returnedBy x credit.accounts ∨
    l.connection.returned < credit.connectionBytesReturned

instance (l : CreditLedger) (credit : TransportCredit) (x : ActivationId) (a : Account) :
    Decidable (l.moves credit x a) := inferInstanceAs (Decidable (_ ∨ _))

theorem any_waits_retain (accounts : Dict ActivationId Account) (x : ActivationId) :
    ((accounts.retain fun _ a => keeps a).lookup x).any Account.waits =
      (accounts.lookup x).any Account.waits := by
  rw [lookup_retain]
  cases accounts.lookup x with
  | none => rfl
  | some b =>
    rw [filter_some]
    split
    · rfl
    · next hgone =>
      have hwaits : b.waits = false := by
        rw [Account.waits]
        rw [keeps, Bool.or_eq_true, not_or] at hgone
        rw [Bool.eq_false_iff.mpr hgone.1, Bool.false_and]
      rw [Option.any_some, hwaits]
      rfl

theorem returned_woken (h : l.heeds credit = true) (ha : l.accounts.lookup x = some a) :
    (l.returned credit).2.count x = (if a.waits = true ∧ l.moves credit x a then 1 else 0) ∧
      (a.waits = true → ¬ l.moves credit x a →
        ∃ b, (l.returned credit).1.accounts.lookup x = some b ∧ b.waits = true ∧
          b.window = a.window) := by
  obtain ⟨hepoch, hnew⟩ := heeds_iff.mp h
  obtain ⟨b, hb, hab⟩ := applyReturns_woken credit.accounts ha
  have htimes := hab.times
  have hle := hab.le
  have hwaits := hab.waits
  have hkept := any_waits_retain (applyReturns l.accounts credit.accounts).1 x
  have hcount := count_waiting
    ((applyReturns l.accounts credit.accounts).1.retain fun _ a => keeps a) x
  rw [hkept, hb, Option.any_some] at hcount
  simp only [returned, hepoch, ne_eq, not_true, if_false, hnew, Bool.false_eq_true]
  split
  · next hmoved =>
    have hconn : l.connection.returned < credit.connectionBytesReturned := by omega
    refine ⟨?_, fun _ hstill => absurd (.inr hconn) hstill⟩
    rw [count_append, htimes]
    refine (congrArg _ hcount).trans ?_
    have hmoves : l.moves credit x a := .inr hconn
    by_cases hw : a.waits = true
    · by_cases hown : a.window.returned < a.returnedBy x credit.accounts
      · have hbw : ¬ b.waits = true := fun hbw => Nat.ne_of_gt hown (hwaits.mp hbw).2
        simp only [hw, hown, hmoves, hbw, and_self, if_true, if_false, Bool.false_eq_true]
      · have hbw : b.waits = true := hwaits.mpr ⟨hw, by omega⟩
        simp only [hw, hown, hmoves, hbw, and_self, and_false, if_true, if_false]
    · have hbw : ¬ b.waits = true := fun hbw => hw (hwaits.mp hbw).1
      simp only [hw, hbw, false_and, if_false, Bool.false_eq_true]
  · next hmoved =>
    have hconn : ¬ l.connection.returned < credit.connectionBytesReturned := by omega
    refine ⟨?_, fun hw hstill => ?_⟩
    · simp only [moves, hconn, or_false]
      exact htimes
    · have hsame : a.returnedBy x credit.accounts = a.window.returned := by
        have hnot : ¬ a.window.returned < a.returnedBy x credit.accounts := fun hown =>
          hstill (.inl hown)
        omega
      have hbw := hwaits.mpr ⟨hw, hsame⟩
      refine ⟨b, ?_, hbw, ?_⟩
      · have hlive : (!b.draining) = true := (Bool.and_eq_true _ _ |>.mp hbw).1
        rw [lookup_retain, hb, filter_some_pos]
        rw [hlive]
        rfl
      · rw [hab.window, hsame]

theorem returned_absent (ha : l.accounts.lookup x = none) :
    (l.returned credit).2.count x = 0 := by
  cases hheeds : l.heeds credit with
  | false =>
    rw [returned_of_stale hheeds]
    rfl
  | true =>
    obtain ⟨hepoch, hnew⟩ := heeds_iff.mp hheeds
    have hnamed := applyReturns_absent credit.accounts ha
    have hnone := lookup_applyReturns_none credit.accounts ha
    have hcount := count_waiting
      ((applyReturns l.accounts credit.accounts).1.retain fun _ a => keeps a) x
    rw [any_waits_retain, hnone] at hcount
    simp only [returned, hepoch, ne_eq, not_true, if_false, hnew, Bool.false_eq_true]
    split
    · rw [count_append, hnamed]
      exact (congrArg _ hcount)
    · exact hnamed

theorem nodup_returned (l : CreditLedger) (credit : TransportCredit) :
    (l.returned credit).2.Nodup := by
  rw [nodup_iff_count_le_one]
  intro x
  cases ha : l.accounts.lookup x with
  | none => exact (returned_absent ha).le.trans (Nat.zero_le 1)
  | some a =>
    cases hheeds : l.heeds credit with
    | false =>
      rw [returned_of_stale hheeds]
      exact Nat.zero_le 1
    | true =>
      rw [(returned_woken hheeds ha).1]
      split
      · exact Nat.le_refl 1
      · exact Nat.zero_le 1

end CreditLedger

/-! ## Refusals along a run -/

/-- What an activation asked for and was refused, with the totals of the time. -/
structure RefusedAsk where
  bytes : Nat
  cls : UnitClass
  own : Nat
  connection : Nat
  deriving DecidableEq, Repr

structure WakeRun where
  ledger : CreditLedger
  /-- the last ask of each activation, where it was refused and nothing was told since -/
  refused : ActivationId → Option RefusedAsk
  /-- the same with `tryAdmit` as the only ask, whether the account closed or not -/
  tried : ActivationId → Option RefusedAsk

namespace WakeRun

def start (creditEpoch : Nat) (windows : ReceiverCapacities) (urgentReserve : Nat) : WakeRun where
  ledger := .new creditEpoch windows urgentReserve
  refused := fun _ => none
  tried := fun _ => none

def noted (l : CreditLedger) (x : ActivationId) (bytes : Nat) (cls : UnitClass)
    (before : Option RefusedAsk) : Option RefusedAsk :=
  match (l.canAdmit x bytes cls).2, l.accounts.lookup x with
  | some true, _ => none
  | some false, some a =>
    some
      { bytes := bytes
        cls := cls
        own := a.window.returned
        connection := l.connection.returned }
  | _, _ => before

def note (notes : ActivationId → Option RefusedAsk) (x : ActivationId)
    (f : Option RefusedAsk → Option RefusedAsk) (y : ActivationId) : Option RefusedAsk :=
  if y = x then f (notes y) else notes y

def next (s : WakeRun) : CreditEvent → Option WakeRun
  | .openAccount x => some { s with ledger := s.ledger.openAccount x }
  | .closeAccount x =>
    some
      { s with
        ledger := s.ledger.closeAccount x
        refused := note s.refused x fun _ => none }
  | .canAdmit x bytes cls =>
    some
      { s with
        ledger := (s.ledger.canAdmit x bytes cls).1
        refused := note s.refused x (noted s.ledger x bytes cls) }
  | .tryAdmit x bytes cls =>
    some
      { ledger := (s.ledger.tryAdmit x bytes cls).1
        refused := note s.refused x (noted s.ledger x bytes cls)
        tried := note s.tried x (noted s.ledger x bytes cls) }
  | .returned credit =>
    let told := s.ledger.returned credit
    some
      { ledger := told.1
        refused := fun x => if x ∈ told.2 then none else s.refused x
        tried := fun x => if x ∈ told.2 then none else s.tried x }

def machine (creditEpoch : Nat) (windows : ReceiverCapacities) (urgentReserve : Nat) :
    Machine WakeRun CreditEvent where
  start := start creditEpoch windows urgentReserve
  next := next

/-- The account the refusal is of waits, has had nothing returned since, as little as the
connection, and would be refused again. -/
structure Stands (l : CreditLedger) (x : ActivationId) (r : RefusedAsk) : Prop where
  account : ∃ a, l.accounts.lookup x = some a ∧ a.waits = true ∧ a.window.returned = r.own ∧
    (l.connection.inFlight + r.bytes ≤ l.connectionLimitFor r.cls →
      ¬ a.window.inFlight + r.bytes ≤ a.window.limit)
  connection : l.connection.returned = r.connection

def Waits (s : WakeRun) : Prop := ∀ x r, s.refused x = some r → Stands s.ledger x r

variable {s : WakeRun} {l k : CreditLedger} {x y : ActivationId} {r : RefusedAsk} {bytes : Nat}
  {cls : UnitClass}

theorem Stands.grown (h : Stands l x r)
    (haccount : ∀ a, l.accounts.lookup x = some a → a.waits = true →
      ∃ b, k.accounts.lookup x = some b ∧ b.waits = true ∧
        b.window.returned = a.window.returned ∧ b.window.limit = a.window.limit ∧
        a.window.admitted ≤ b.window.admitted)
    (hreturned : k.connection.returned = l.connection.returned)
    (hadmitted : l.connection.admitted ≤ k.connection.admitted)
    (hlimit : k.connection.limit = l.connection.limit) (hreserve : k.urgentReserve = l.urgentReserve) :
    Stands k x r := by
  obtain ⟨a, ha, hwaits, hown, hroom⟩ := h.account
  obtain ⟨b, hb, hbwaits, hbown, hblimit, hbadmitted⟩ := haccount a ha hwaits
  refine ⟨⟨b, hb, hbwaits, hbown.trans hown, fun hconn hacc => ?_⟩, hreturned.trans h.connection⟩
  have hcap : k.connectionLimitFor r.cls = l.connectionLimitFor r.cls := by
    cases r.cls <;> simp only [connectionLimitFor, hlimit, hreserve]
  rw [hcap] at hconn
  simp only [Window.inFlight] at hroom hconn hacc
  exact hroom (by omega) (by omega)

theorem canAdmit_silent (h : (l.canAdmit x bytes cls).2 = none) :
    (l.canAdmit x bytes cls).1 = l := by
  simp only [CreditLedger.canAdmit] at h ⊢
  split at h
  · rfl
  · split at h
    · next hd => rw [if_pos hd]
    · cases h

theorem lookup_canAdmit_other (l : CreditLedger) (bytes : Nat) (cls : UnitClass) (hxy : x ≠ y) :
    (l.canAdmit y bytes cls).1.accounts.lookup x = l.accounts.lookup x := by
  simp only [CreditLedger.canAdmit]
  split
  · rfl
  · split
    · rfl
    · rw [lookup_modify, if_neg hxy]

theorem canAdmit_refused (h : (l.canAdmit x bytes cls).2 = some false) :
    ∃ a, l.accounts.lookup x = some a ∧ a.draining = false ∧
      (l.canAdmit x bytes cls).1.accounts.lookup x = some { a with starved := true } ∧
      (l.connection.inFlight + bytes ≤ l.connectionLimitFor cls →
        ¬ a.window.inFlight + bytes ≤ a.window.limit) := by
  simp only [CreditLedger.canAdmit] at h ⊢
  split at h
  · cases h
  · next a ha =>
    split at h
    · cases h
    · next hd =>
      have hfull := some.inj h
      refine ⟨a, ha, Bool.eq_false_iff.mpr hd, ?_, fun hconn hacc => ?_⟩
      · rw [if_neg hd, lookup_modify, if_pos rfl, ha, map_some, hfull]
        rfl
      · simp only [Window.canAdmitWithin, Window.canAdmit, hconn, hacc, decide_true,
          Bool.and_self, Bool.true_eq_false] at hfull

theorem Stands.asked (h : ∀ x r, s.refused x = some r → Stands s.ledger x r)
    (hr : note s.refused y (noted s.ledger y bytes cls) x = some r) :
    Stands (s.ledger.canAdmit y bytes cls).1 x r := by
  have hfields := fields_canAdmit s.ledger y bytes cls
  unfold note at hr
  split at hr
  · next hxy =>
    subst hxy
    unfold noted at hr
    split at hr
    · cases hr
    · next a hanswer ha =>
      obtain rfl := some.inj hr
      obtain ⟨b, hb, hlive, hmarked, hroom⟩ := canAdmit_refused hanswer
      obtain rfl := some.inj (ha.symm.trans hb)
      rw [hfields]
      refine ⟨⟨_, hmarked, ?_, rfl, hroom⟩, rfl⟩
      rw [Account.waits, hlive]
      rfl
    · next hnone hsome =>
      have hstands := h x r hr
      obtain ⟨a, ha, hwaits, -⟩ := hstands.account
      have hsilent : (s.ledger.canAdmit x bytes cls).2 = none := by
        cases hanswer : (s.ledger.canAdmit x bytes cls).2 with
        | none => rfl
        | some answer =>
          cases answer with
          | true => exact (hnone hanswer).elim
          | false => exact absurd ha (hsome a hanswer)
      rwa [canAdmit_silent hsilent]
  · next hxy =>
    refine (h x r hr).grown (fun a ha hwaits => ⟨a, ?_, hwaits, rfl, rfl, Nat.le_refl _⟩)
      (by rw [hfields]) (by rw [hfields]) (by rw [hfields]) (by rw [hfields])
    rw [lookup_canAdmit_other _ _ _ hxy, ha]

theorem Waits.openAccount (h : s.Waits) (y : ActivationId) :
    Waits { s with ledger := s.ledger.openAccount y } := by
  intro x r hr
  refine (h x r hr).grown (fun a ha hwaits => ⟨a, ?_, hwaits, rfl, rfl, Nat.le_refl _⟩) rfl
    (Nat.le_refl _) rfl rfl
  rw [CreditLedger.openAccount, lookup_insert]
  split
  · next hxy =>
    -- a live account is kept as it is
    have hlive : a.draining = false := by
      rw [Account.waits, Bool.and_eq_true, Bool.not_eq_true'] at hwaits
      exact hwaits.1
    rw [← hxy, ha, getD_some, ← hlive]
  · exact ha

theorem Waits.closeAccount (h : s.Waits) (y : ActivationId) :
    Waits
      { s with
        ledger := s.ledger.closeAccount y
        refused := note s.refused y fun _ => none } := by
  intro x r hr
  dsimp only [note] at hr ⊢
  split at hr
  · cases hr
  · next hxy =>
    have hother : (s.ledger.closeAccount y).accounts.lookup x = s.ledger.accounts.lookup x := by
      rw [CreditLedger.closeAccount]
      split
      · rfl
      · split
        · rw [lookup_modify, if_neg hxy]
        · rw [lookup_erase, if_neg hxy]
    have hfields : s.ledger.closeAccount y =
        { s.ledger with accounts := (s.ledger.closeAccount y).accounts } := by
      rw [CreditLedger.closeAccount]
      split
      · rfl
      · split <;> rfl
    refine (h x r hr).grown (fun a ha hwaits => ⟨a, ?_, hwaits, rfl, rfl, Nat.le_refl _⟩)
      (by rw [hfields]) (by rw [hfields]) (by rw [hfields]) (by rw [hfields])
    rw [hother, ha]

theorem Waits.canAdmit (h : s.Waits) (y : ActivationId) (bytes : Nat) (cls : UnitClass) :
    Waits
      { s with
        ledger := (s.ledger.canAdmit y bytes cls).1
        refused := note s.refused y (noted s.ledger y bytes cls) } :=
  fun _ _ hr => Stands.asked h hr

theorem Waits.tryAdmit (h : s.Waits) (y : ActivationId) (bytes : Nat) (cls : UnitClass)
    (tried : ActivationId → Option RefusedAsk) :
    Waits
      { ledger := (s.ledger.tryAdmit y bytes cls).1
        refused := note s.refused y (noted s.ledger y bytes cls)
        tried := tried } := by
  intro x r hr
  have hasked := Stands.asked h hr
  by_cases hadmit : (s.ledger.canAdmit y bytes cls).2 = some true
  · have hxy : x ≠ y := by
      rintro rfl
      simp only [note, if_true, noted, hadmit] at hr
      cases hr
    have hfields := fields_canAdmit s.ledger y bytes cls
    rw [tryAdmit_of_admitted hadmit]
    refine hasked.grown (fun a ha hwaits => ⟨a, ?_, hwaits, rfl, rfl, Nat.le_refl _⟩)
      (by rw [hfields]) (by rw [hfields]; exact Nat.le_add_right _ _) (by rw [hfields])
      (by rw [hfields])
    rw [lookup_modify, if_neg hxy, ha]
  · rw [tryAdmit_of_refused hadmit]
    exact hasked

theorem Waits.returned (h : s.Waits) (credit : TransportCredit)
    (tried : ActivationId → Option RefusedAsk) :
    Waits
      { ledger := (s.ledger.returned credit).1
        refused := fun x => if x ∈ (s.ledger.returned credit).2 then none else s.refused x
        tried := tried } := by
  intro x r hr
  dsimp only at hr ⊢
  split at hr
  · cases hr
  · next hnot =>
    have hstands := h x r hr
    obtain ⟨a, ha, hwaits, -⟩ := hstands.account
    cases hheeds : s.ledger.heeds credit with
    | false => rwa [returned_of_stale hheeds]
    | true =>
      obtain ⟨hcount, hkept⟩ := returned_woken hheeds ha
      have hstill : ¬ s.ledger.moves credit x a := by
        intro hmoves
        rw [if_pos ⟨hwaits, hmoves⟩] at hcount
        exact hnot (count_pos_iff.mp (by omega))
      obtain ⟨b, hb, hbwaits, hwindow⟩ := hkept hwaits hstill
      obtain ⟨accounts, hfields⟩ := fields_returned hheeds
      have hconn : max s.ledger.connection.returned credit.connectionBytesReturned =
          s.ledger.connection.returned :=
        Nat.max_eq_left (Nat.le_of_not_lt fun hlt => hstill (.inr hlt))
      refine hstands.grown (fun a' ha' _ => ?_) (by rw [hfields]; exact hconn)
        (by rw [hfields]) (by rw [hfields]) (by rw [hfields])
      obtain rfl := some.inj (ha.symm.trans ha')
      exact ⟨b, hb, hbwaits, by rw [hwindow], by rw [hwindow], by rw [hwindow]⟩

theorem waits_of_reachable {creditEpoch : Nat} {windows : ReceiverCapacities}
    {urgentReserve : Nat} (h : (machine creditEpoch windows urgentReserve).Reachable s) :
    s.Waits := by
  refine h.invariant (P := Waits) (fun x r hr => by cases hr) ?_
  intro s e s' hs hnext
  cases e with
  | openAccount y =>
    obtain rfl := some.inj hnext
    exact hs.openAccount y
  | closeAccount y =>
    obtain rfl := some.inj hnext
    exact hs.closeAccount y
  | canAdmit y bytes cls =>
    obtain rfl := some.inj hnext
    exact hs.canAdmit y bytes cls
  | tryAdmit y bytes cls =>
    obtain rfl := some.inj hnext
    exact hs.tryAdmit y bytes cls _
  | returned credit =>
    obtain rfl := some.inj hnext
    exact hs.returned credit _

/-! ## No wake is lost -/

structure NoLostWake (s : WakeRun) : Prop where
  /-- nothing has been returned to a live account since it was refused -/
  still : ∀ x r, s.refused x = some r → ∃ a, s.ledger.accounts.lookup x = some a ∧
    a.draining = false ∧ a.window.returned = r.own ∧
    s.ledger.connection.returned = r.connection
  /-- what was refused would be refused again -/
  refuses : ∀ x r, s.refused x = some r →
    (s.ledger.canAdmit x r.bytes r.cls).2 = some false
  /-- the report that moves one of the two totals wakes it, and no other does -/
  woken : ∀ x r a credit, s.refused x = some r → s.ledger.accounts.lookup x = some a →
    s.ledger.heeds credit = true →
      (x ∈ (s.ledger.returned credit).2 ↔ s.ledger.moves credit x a)
  /-- the report after which the answer is another wakes it -/
  answered : ∀ x r credit, s.refused x = some r →
    ((s.ledger.returned credit).1.canAdmit x r.bytes r.cls).2 ≠ some false →
      x ∈ (s.ledger.returned credit).2
  once : ∀ credit, (s.ledger.returned credit).2.Nodup

theorem Stands.refuses (h : Stands l x r) : (l.canAdmit x r.bytes r.cls).2 = some false := by
  obtain ⟨a, ha, hwaits, -, hroom⟩ := h.account
  rw [Account.waits, Bool.and_eq_true, Bool.not_eq_true'] at hwaits
  have hfull : (l.connection.canAdmitWithin r.bytes (l.connectionLimitFor r.cls) &&
      a.window.canAdmit r.bytes) = false := by
    simp only [Window.canAdmitWithin, Window.canAdmit, Bool.and_eq_false_iff,
      decide_eq_false_iff_not]
    exact or_iff_not_imp_left.mpr fun hconn => hroom (not_not.mp hconn)
  simp only [CreditLedger.canAdmit, ha, hwaits.1, Bool.false_eq_true, if_false, hfull]

/-- No wake is lost: what an activation was refused, with nothing told to it since, it
would be refused now, and the report that moves its credit lists it once. -/
theorem noLostWake {creditEpoch : Nat} {windows : ReceiverCapacities} {urgentReserve : Nat}
    (h : (machine creditEpoch windows urgentReserve).Reachable s) : NoLostWake s := by
  have hs := waits_of_reachable h
  refine ⟨fun x r hr => ?_, fun x r hr => (hs x r hr).refuses, fun x r a credit hr ha hheeds => ?_,
    fun x r credit hr hanswer => ?_, CreditLedger.nodup_returned s.ledger⟩
  · obtain ⟨a, ha, hwaits, hown, -⟩ := (hs x r hr).account
    rw [Account.waits, Bool.and_eq_true, Bool.not_eq_true'] at hwaits
    exact ⟨a, ha, hwaits.1, hown, (hs x r hr).connection⟩
  · obtain ⟨b, hb, hwaits, -⟩ := (hs x r hr).account
    obtain rfl := Option.some.inj (ha.symm.trans hb)
    have hcount := (CreditLedger.returned_woken hheeds ha).1
    simp only [hwaits, true_and] at hcount
    rw [← List.count_pos_iff, hcount]
    by_cases hmoves : s.ledger.moves credit x a
    · exact iff_of_true (by rw [if_pos hmoves]; exact Nat.one_pos) hmoves
    · exact iff_of_false (by rw [if_neg hmoves]; exact Nat.lt_irrefl 0) hmoves
  · by_contra hnot
    have hafter := hs.returned credit s.tried x r (if_neg hnot |>.trans hr)
    exact hanswer hafter.refuses

namespace Sample

def caps : ReceiverCapacities where
  connectionCreditBytes := 500
  perActivationCreditBytes := 500
  maxConcurrentSeeds := 1

def refusal : List CreditEvent :=
  [.openAccount "a", .openAccount "b", .tryAdmit "a" 450 .urgent, .tryAdmit "b" 100 .urgent]

def asked : List CreditEvent :=
  refusal ++
    [.canAdmit "b" 10 .urgent,
      .returned
        { creditEpoch := 1, creditSequence := 1, connectionBytesReturned := 450, accounts := [] }]

def revived : List CreditEvent :=
  [.openAccount "b", .tryAdmit "b" 100 .urgent, .tryAdmit "b" 450 .urgent, .closeAccount "b",
    .returned
      { creditEpoch := 1, creditSequence := 1, connectionBytesReturned := 50,
        accounts := [⟨"b", 50⟩] },
    .openAccount "b"]

end Sample

/-- An activation that was refused for the connection's sake. -/
theorem noLostWake_refused :
    ∃ s : WakeRun, (s.refused "b").isSome = true ∧ NoLostWake s := by
  obtain ⟨s, hreach, hp⟩ := Machine.exists_of_run (M := machine 1 Sample.caps 200)
    (fun s => (s.refused "b").isSome) Sample.refusal (by decide)
  exact ⟨s, hp, noLostWake hreach⟩

/-- An answer to `canAdmit` takes the mark a refused `tryAdmit` has left, and the next
report wakes no one. -/
theorem mark_taken :
    ¬ ∀ s, (machine 1 Sample.caps 200).Reachable s → ∀ x r a, s.tried x = some r →
      s.ledger.accounts.lookup x = some a → a.draining = false →
        a.window.returned = r.own ∧ s.ledger.connection.returned = r.connection := by
  intro hall
  obtain ⟨s, hreach, hp⟩ := Machine.exists_of_run (M := machine 1 Sample.caps 200)
    (fun s => s.tried "b" == some ⟨100, .urgent, 0, 0⟩ &&
      ((s.ledger.accounts.lookup "b").any fun a => !a.draining) &&
      s.ledger.connection.returned == 450) Sample.asked (by decide)
  simp only [Bool.and_eq_true, beq_iff_eq] at hp
  obtain ⟨⟨htried, hlive⟩, hmoved⟩ := hp
  obtain ⟨a, ha, hlive⟩ := Option.any_eq_true .. |>.mp hlive
  have hstill := (hall s hreach "b" _ a htried ha (Bool.not_eq_true' _ |>.mp hlive)).2
  rw [hmoved] at hstill
  cases hstill

end WakeRun
end VibeField.Tp
