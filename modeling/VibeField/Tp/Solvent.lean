import VibeField.Base.Machine
import VibeField.Base.Sums
import VibeField.Tp.Credit

/-!
# The ledger stays solvent

A run of one connection's ledger: accounts open and close, units are admitted and
reports come back, none of which returns more than was admitted.  The run keeps,
beside the ledger, what every account admitted that has closed since, and the
largest connection total a report carried.
-/

namespace VibeField.Tp

open List Option Dict CreditLedger

structure CreditRun where
  ledger : CreditLedger
  /-- the accounts that closed, with what they had admitted -/
  closed : List (ActivationId × Nat)
  /-- the largest connection total of the reports heeded -/
  reported : Nat

inductive CreditEvent where
  | openAccount (activationId : ActivationId)
  | closeAccount (activationId : ActivationId)
  | canAdmit (activationId : ActivationId) (bytes : Nat) (cls : UnitClass)
  | tryAdmit (activationId : ActivationId) (bytes : Nat) (cls : UnitClass)
  | returned (credit : TransportCredit)

namespace CreditLedger

def heeds (l : CreditLedger) (credit : TransportCredit) : Bool :=
  credit.creditEpoch == l.creditEpoch && l.lastSequence.all fun s => s < credit.creditSequence

def honest (l : CreditLedger) (credit : TransportCredit) : Bool :=
  credit.connectionBytesReturned ≤ l.connection.admitted &&
    credit.accounts.all fun named =>
      (l.accounts.lookup named.activationId).all fun a => named.bytesReturned ≤ a.window.admitted

end CreditLedger

def Account.returnedBy (a : Account) (x : ActivationId) (accounts : List CreditAccountReturn) :
    Nat :=
  accounts.foldl
    (fun held named => if named.activationId = x then max held named.bytesReturned else held)
    a.window.returned

namespace CreditRun

def start (creditEpoch : Nat) (windows : ReceiverCapacities) (urgentReserve : Nat) :
    CreditRun where
  ledger := .new creditEpoch windows urgentReserve
  closed := []
  reported := 0

def departed (before after : Dict ActivationId Account) : List (ActivationId × Nat) :=
  (before.retain fun x _ => (after.lookup x).isNone).alist.entries.map fun e =>
    (e.1, e.2.window.admitted)

def onto (s : CreditRun) (l : CreditLedger) : CreditRun :=
  { s with ledger := l, closed := s.closed ++ departed s.ledger.accounts l.accounts }

def next (s : CreditRun) : CreditEvent → Option CreditRun
  | .openAccount x => some (s.onto (s.ledger.openAccount x))
  | .closeAccount x => some (s.onto (s.ledger.closeAccount x))
  | .canAdmit x bytes cls => some (s.onto (s.ledger.canAdmit x bytes cls).1)
  | .tryAdmit x bytes cls => some (s.onto (s.ledger.tryAdmit x bytes cls).1)
  | .returned credit =>
    if s.ledger.honest credit then
      some
        { s.onto (s.ledger.returned credit).1 with
          reported :=
            if s.ledger.heeds credit then max s.reported credit.connectionBytesReturned
            else s.reported }
    else
      none

def machine (creditEpoch : Nat) (windows : ReceiverCapacities) (urgentReserve : Nat) :
    Machine CreditRun CreditEvent where
  start := start creditEpoch windows urgentReserve
  next := next

def admittedByClosed (s : CreditRun) : Nat := (s.closed.map Prod.snd).sum

end CreditRun

/-! ## What each operation does to one account -/

namespace CreditLedger

variable {l : CreditLedger} {accounts : Dict ActivationId Account} {x : ActivationId}

structure Repaid (a : Account) (returned : Nat) (b : Account) : Prop where
  window : b.window = { a.window with returned := returned }
  draining : b.draining = a.draining

theorem repaid_takeWake (a : Account) : Repaid a a.window.returned a.takeWake.1 := by
  rw [Account.takeWake]
  split <;> exact ⟨rfl, rfl⟩

theorem lookup_applyReturn_none (named : CreditAccountReturn) (h : accounts.lookup x = none) :
    (applyReturn accounts named).1.lookup x = none := by
  rw [applyReturn]
  split
  · exact h
  · split
    · rw [lookup_modify, h]
      split <;> rfl
    · exact h

theorem lookup_applyReturn {a : Account} (named : CreditAccountReturn)
    (h : accounts.lookup x = some a) :
    ∃ b, (applyReturn accounts named).1.lookup x = some b ∧
      Repaid a
        (if named.activationId = x then max a.window.returned named.bytesReturned
          else a.window.returned) b := by
  rw [applyReturn]
  split
  · next hnone =>
    have hne : named.activationId ≠ x := fun he => by rw [he, h] at hnone; cases hnone
    exact ⟨a, h, by rw [if_neg hne]; exact ⟨rfl, rfl⟩⟩
  · next account haccount =>
    by_cases hx : named.activationId = x
    · rw [hx] at haccount
      obtain rfl := some.inj (h.symm.trans haccount)
      rw [if_pos hx]
      split
      · next hmore =>
        have hmax : max a.window.returned named.bytesReturned = named.bytesReturned :=
          Nat.max_eq_right (Nat.le_of_lt hmore)
        have hwoken := repaid_takeWake
          { a with window := { a.window with returned := named.bytesReturned } }
        refine ⟨_, by rw [lookup_modify, if_pos hx.symm, h]; rfl, ?_⟩
        rw [hmax]
        exact ⟨hwoken.window, hwoken.draining⟩
      · next hless =>
        refine ⟨a, h, ?_⟩
        rw [Nat.max_eq_left (Nat.le_of_not_lt hless)]
        exact ⟨rfl, rfl⟩
    · rw [if_neg hx]
      split
      · exact ⟨a, by rw [lookup_modify, if_neg (Ne.symm hx)]; exact h, ⟨rfl, rfl⟩⟩
      · exact ⟨a, h, ⟨rfl, rfl⟩⟩

theorem lookup_applyReturns_none :
    ∀ (named : List CreditAccountReturn) {accounts : Dict ActivationId Account},
      accounts.lookup x = none → (applyReturns accounts named).1.lookup x = none
  | [], _, h => h
  | r :: rest, _, h => lookup_applyReturns_none rest (lookup_applyReturn_none r h)

theorem lookup_applyReturns :
    ∀ (named : List CreditAccountReturn) {accounts : Dict ActivationId Account} {a : Account},
      accounts.lookup x = some a →
        ∃ b, (applyReturns accounts named).1.lookup x = some b ∧ Repaid a (a.returnedBy x named) b
  | [], _, a, h => ⟨a, h, ⟨rfl, rfl⟩⟩
  | r :: rest, _, a, h => by
    obtain ⟨b, hb, hab⟩ := lookup_applyReturn r h
    obtain ⟨c, hc, hbc⟩ := lookup_applyReturns rest hb
    refine ⟨c, hc, ?_, hbc.draining.trans hab.draining⟩
    rw [hbc.window, hab.window, Account.returnedBy, Account.returnedBy, hab.window]
    rfl

theorem returnedBy_le {a : Account} {bound : Nat} :
    ∀ {named : List CreditAccountReturn},
      (∀ r ∈ named, r.activationId = x → r.bytesReturned ≤ bound) → a.window.returned ≤ bound →
        a.returnedBy x named ≤ bound := by
  intro named
  unfold Account.returnedBy
  generalize a.window.returned = held
  induction named generalizing held with
  | nil => exact fun _ hheld => hheld
  | cons r rest ih =>
    intro hall hheld
    refine ih _ (fun r' hr' => hall r' (mem_cons_of_mem _ hr')) ?_
    dsimp only
    split
    · next hx => exact max_le hheld (hall r mem_cons_self hx)
    · exact hheld

def keeps (a : Account) : Bool := !a.draining || a.window.inFlight > 0

variable {bytes : Nat} {cls : UnitClass} {credit : TransportCredit} {y : ActivationId}

theorem heeds_iff :
    l.heeds credit = true ↔ credit.creditEpoch = l.creditEpoch ∧
      (l.lastSequence.any fun s => credit.creditSequence ≤ s) = false := by
  rw [heeds, Bool.and_eq_true, beq_iff_eq]
  refine and_congr_right fun _ => ?_
  cases l.lastSequence <;> simp

theorem returned_of_stale (h : l.heeds credit = false) : l.returned credit = (l, []) := by
  unfold returned
  split
  · rfl
  · next hepoch =>
    refine if_pos ?_
    have hepoch' : credit.creditEpoch = l.creditEpoch := not_not.mp hepoch
    cases hseq : l.lastSequence with
    | none => simp [heeds, hepoch', hseq] at h
    | some seq => simpa [heeds, hepoch', hseq] using h

theorem lookup_returned (h : l.heeds credit = true) (x : ActivationId) :
    ((l.accounts.lookup x = none ∧ (l.returned credit).1.accounts.lookup x = none) ∨
      ∃ a b, l.accounts.lookup x = some a ∧ Repaid a (a.returnedBy x credit.accounts) b ∧
        (l.returned credit).1.accounts.lookup x = if keeps b then some b else none) := by
  obtain ⟨hepoch, hnew⟩ := heeds_iff.mp h
  cases hx : l.accounts.lookup x with
  | none =>
    refine .inl ⟨rfl, ?_⟩
    have hnone := lookup_applyReturns_none credit.accounts hx
    simp only [returned, hepoch, ne_eq, not_true, if_false, hnew, Bool.false_eq_true]
    split <;> simp [hnone]
  | some a =>
    refine .inr ⟨a, ?_⟩
    obtain ⟨b, hb, hab⟩ := lookup_applyReturns credit.accounts hx
    simp only [returned, hepoch, ne_eq, not_true, if_false, hnew, Bool.false_eq_true]
    have hfilter : Option.filter (fun a => !a.draining || a.window.inFlight > 0) (some b) =
        if keeps b then some b else none := by
      simp [Option.filter, keeps]
    split
    · refine ⟨b.takeWake.1, trivial, ?_, ?_⟩
      · have hwake := repaid_takeWake b
        exact ⟨by rw [hwake.window, hab.window], hwake.draining.trans hab.draining⟩
      · have hsame : keeps b.takeWake.1 = keeps b := by
          have hwake := repaid_takeWake b
          rw [keeps, keeps, hwake.window, hwake.draining]
        rw [lookup_mapVals, lookup_retain, hb, hfilter, hsame]
        split <;> rfl
    · exact ⟨b, trivial, hab, by rw [lookup_retain, hb, hfilter]⟩

theorem fields_returned (h : l.heeds credit = true) :
    ∃ accounts, (l.returned credit).1 =
      { l with
        lastSequence := some credit.creditSequence
        connection :=
          { l.connection with
            returned := max l.connection.returned credit.connectionBytesReturned }
        accounts := accounts } := by
  obtain ⟨hepoch, hnew⟩ := heeds_iff.mp h
  simp only [returned, hepoch, ne_eq, not_true, if_false, hnew, Bool.false_eq_true]
  split <;> exact ⟨_, rfl⟩

theorem le_returnedBy (a : Account) (x : ActivationId) (named : List CreditAccountReturn) :
    a.window.returned ≤ a.returnedBy x named := by
  unfold Account.returnedBy
  generalize a.window.returned = held
  induction named generalizing held with
  | nil => exact Nat.le_refl _
  | cons r rest ih =>
    refine Nat.le_trans ?_ (ih _)
    dsimp only
    split
    · exact Nat.le_max_left _ _
    · exact Nat.le_refl _

theorem lookup_canAdmit (l : CreditLedger) (x y : ActivationId) (bytes : Nat) (cls : UnitClass) :
    (l.accounts.lookup x = none ∧ (l.canAdmit y bytes cls).1.accounts.lookup x = none) ∨
      ∃ a b, l.accounts.lookup x = some a ∧ Repaid a a.window.returned b ∧
        (l.canAdmit y bytes cls).1.accounts.lookup x = some b := by
  have hsame : (l.accounts.lookup x = none ∧ l.accounts.lookup x = none) ∨
      ∃ a b, l.accounts.lookup x = some a ∧ Repaid a a.window.returned b ∧
        l.accounts.lookup x = some b := by
    cases hx : l.accounts.lookup x with
    | none => exact .inl ⟨rfl, rfl⟩
    | some a => exact .inr ⟨a, a, rfl, ⟨rfl, rfl⟩, rfl⟩
  simp only [canAdmit]
  split
  · exact hsame
  · split
    · exact hsame
    · rw [lookup_modify]
      split
      · cases hx : l.accounts.lookup x with
        | none => exact .inl ⟨rfl, rfl⟩
        | some a =>
          refine .inr ⟨a, _, rfl, ?_, rfl⟩
          exact ⟨rfl, rfl⟩
      · exact hsame

theorem fields_canAdmit (l : CreditLedger) (y : ActivationId) (bytes : Nat) (cls : UnitClass) :
    (l.canAdmit y bytes cls).1 =
      { l with accounts := (l.canAdmit y bytes cls).1.accounts } := by
  simp only [canAdmit]
  split
  · rfl
  · split <;> rfl

theorem canAdmit_some_true (h : (l.canAdmit y bytes cls).2 = some true) :
    l.connection.inFlight + bytes ≤ l.connectionLimitFor cls ∧
      ∃ a, l.accounts.lookup y = some a ∧ a.draining = false ∧
        a.window.inFlight + bytes ≤ a.window.limit := by
  simp only [canAdmit] at h
  split at h
  · cases h
  · next a ha =>
    split at h
    · cases h
    · next hlive =>
      have hboth := some.inj h
      rw [Bool.and_eq_true] at hboth
      exact ⟨of_decide_eq_true hboth.1, a, ha, Bool.eq_false_iff.mpr hlive,
        of_decide_eq_true hboth.2⟩

theorem connectionLimitFor_le (l : CreditLedger) (cls : UnitClass) :
    l.connectionLimitFor cls ≤ l.connection.limit := by
  cases cls with
  | urgent => exact Nat.le_refl _
  | bulk => exact Nat.sub_le _ _

theorem tryAdmit_of_refused (h : (l.canAdmit y bytes cls).2 ≠ some true) :
    l.tryAdmit y bytes cls = ((l.canAdmit y bytes cls).1, false) := by
  unfold tryAdmit
  split
  · next hr => exact absurd (congrArg Prod.snd hr) h
  · next hr => rw [hr]

def charge (bytes : Nat) (a : Account) : Account :=
  { a with window := { a.window with admitted := a.window.admitted + bytes } }

theorem tryAdmit_of_admitted (h : (l.canAdmit y bytes cls).2 = some true) :
    l.tryAdmit y bytes cls =
      ({ l with
          accounts := (l.canAdmit y bytes cls).1.accounts.modify y (charge bytes)
          connection := { l.connection with admitted := l.connection.admitted + bytes } },
        true) := by
  obtain ⟨-, a, ha, -⟩ := canAdmit_some_true h
  have hfields := fields_canAdmit l y bytes cls
  have hlookup := lookup_canAdmit l y y bytes cls
  unfold tryAdmit
  generalize l.canAdmit y bytes cls = r at h hfields hlookup
  obtain ⟨l', verdict⟩ := r
  obtain rfl : verdict = some true := h
  rcases hlookup with ⟨hnone, -⟩ | ⟨-, b, -, -, hb⟩
  · rw [ha] at hnone
    cases hnone
  · simp only at hb hfields
    simp only [hb]
    rw [hfields]
    rfl

end CreditLedger

namespace CreditRun

open CreditLedger (Repaid charge)

/-! ## The totals -/

theorem sum_departed (before after : Dict ActivationId Account) :
    ((departed before after).map Prod.snd).sum =
      (before.retain fun x _ => (after.lookup x).isNone).sum (·.window.admitted) := by
  rw [departed, Dict.sum, values, List.map_map, List.map_map]
  rfl

theorem sum_uncharged {before after : Dict ActivationId Account}
    (h : ∀ x b, after.lookup x = some b → ∃ a, before.lookup x = some a ∧
      b.window.admitted = a.window.admitted) :
    before.sum (·.window.admitted) =
      after.sum (·.window.admitted) + ((departed before after).map Prod.snd).sum := by
  rw [sum_departed, sum_retain before fun x _ => !(after.lookup x).isNone]
  simp only [Bool.not_not]
  congr 1
  refine sum_congr fun x => ?_
  rw [lookup_retain]
  cases hx : after.lookup x with
  | none =>
    cases before.lookup x <;> simp [Option.filter]
  | some b =>
    obtain ⟨a, ha, hab⟩ := h x b hx
    simp [ha, hab, Option.filter]

theorem departed_eq_nil {before after : Dict ActivationId Account}
    (h : ∀ x a, before.lookup x = some a → ∃ b, after.lookup x = some b) :
    departed before after = [] := by
  rw [departed, map_eq_nil_iff]
  refine filter_eq_nil_iff.mpr fun e he hnone => ?_
  obtain ⟨b, hb⟩ := h e.1 e.2 (mem_entries_iff.mp he)
  simp [hb] at hnone

/-! ## The invariant -/

structure Solvent (windows : ReceiverCapacities) (urgentReserve : Nat) (s : CreditRun) :
    Prop where
  limit : s.ledger.connection.limit = windows.connectionCreditBytes
  perActivation : s.ledger.perActivationLimit = windows.perActivationCreditBytes
  reserve : s.ledger.urgentReserve = min urgentReserve (windows.connectionCreditBytes / 2)
  returned : s.ledger.connection.returned ≤ s.ledger.connection.admitted
  connection : s.ledger.connection.inFlight ≤ s.ledger.connection.limit
  account : ∀ x a, s.ledger.accounts.lookup x = some a →
    a.window.limit = windows.perActivationCreditBytes ∧
      a.window.returned ≤ a.window.admitted ∧ a.window.inFlight ≤ a.window.limit ∧
      (a.draining = true → a.window.returned < a.window.admitted)
  admitted : s.ledger.connection.admitted =
    s.ledger.accounts.sum (·.window.admitted) + s.admittedByClosed
  reported : s.ledger.connection.returned = s.reported

theorem solvent_start (creditEpoch : Nat) (windows : ReceiverCapacities) (urgentReserve : Nat) :
    Solvent windows urgentReserve (start creditEpoch windows urgentReserve) :=
  ⟨rfl, rfl, rfl, Nat.le_refl _, Nat.zero_le _, nofun, rfl, rfl⟩

variable {windows : ReceiverCapacities} {urgentReserve : Nat} {s : CreditRun}

theorem Solvent.accounts (h : Solvent windows urgentReserve s) {l : CreditLedger}
    (hl : l = { s.ledger with accounts := l.accounts })
    (hfrom : ∀ x b, l.accounts.lookup x = some b → ∃ a, s.ledger.accounts.lookup x = some a ∧
      b.window = a.window ∧ (b.draining = true → a.window.returned < a.window.admitted)) :
    Solvent windows urgentReserve (s.onto l) := by
  rw [hl]
  refine ⟨h.limit, h.perActivation, h.reserve, h.returned, h.connection, fun x b hb => ?_, ?_,
    h.reported⟩
  · obtain ⟨a, ha, hab, hdraining⟩ := hfrom x b hb
    obtain ⟨hlimit, hle, hin, -⟩ := h.account x a ha
    rw [hab]
    exact ⟨hlimit, hle, hin, hdraining⟩
  · have hsum := @sum_uncharged s.ledger.accounts l.accounts
      fun x b hb => by
        obtain ⟨a, ha, hab, -⟩ := hfrom x b hb
        exact ⟨a, ha, by rw [hab]⟩
    have hadmitted := h.admitted
    simp only [onto, admittedByClosed, map_append, sum_append] at hadmitted ⊢
    omega

theorem Solvent.openAccount (h : Solvent windows urgentReserve s) (x : ActivationId) :
    Solvent windows urgentReserve (s.onto (s.ledger.openAccount x)) := by
  cases hx : s.ledger.accounts.lookup x with
  | some a =>
    refine h.accounts rfl fun y b hb => ?_
    rw [CreditLedger.openAccount, hx, lookup_insert] at hb
    split at hb
    · next he =>
      obtain rfl := some.inj hb
      exact ⟨a, he ▸ hx, rfl, fun hd => by cases hd⟩
    · exact ⟨b, hb, rfl, (h.account y b hb).2.2.2⟩
  | none =>
    have hopen : s.ledger.openAccount x =
        { s.ledger with
          accounts := s.ledger.accounts.insert x
            { window := { admitted := 0, returned := 0, limit := s.ledger.perActivationLimit }
              draining := false
              starved := false } } := by
      rw [CreditLedger.openAccount, hx]
      rfl
    rw [hopen]
    refine ⟨h.limit, h.perActivation, h.reserve, h.returned, h.connection, fun y b hb => ?_, ?_,
      h.reported⟩
    · simp only [onto, lookup_insert] at hb
      split at hb
      · obtain rfl := some.inj hb
        exact ⟨h.perActivation, Nat.le_refl _, Nat.zero_le _, fun hd => by cases hd⟩
      · exact h.account y b hb
    · have hgone := @departed_eq_nil s.ledger.accounts
        (s.ledger.accounts.insert x
          { window := { admitted := 0, returned := 0, limit := s.ledger.perActivationLimit }
            draining := false
            starved := false })
        fun y a ha => by
          rw [lookup_insert]
          split
          · exact ⟨_, rfl⟩
          · exact ⟨a, ha⟩
      have hadmitted := h.admitted
      simp only [onto, admittedByClosed, hgone, append_nil,
        sum_insert_new hx] at hadmitted ⊢
      omega

theorem Solvent.closeAccount (h : Solvent windows urgentReserve s) (x : ActivationId) :
    Solvent windows urgentReserve (s.onto (s.ledger.closeAccount x)) := by
  unfold CreditLedger.closeAccount
  split
  · exact h.accounts rfl fun y b hb => ⟨b, hb, rfl, (h.account y b hb).2.2.2⟩
  · next a ha =>
    split
    · next hin =>
      refine h.accounts rfl fun y b hb => ?_
      rw [lookup_modify] at hb
      split at hb
      · next he =>
        rw [he, ha] at hb
        obtain rfl := some.inj hb
        exact ⟨a, he ▸ ha, rfl, fun _ => Nat.lt_of_sub_pos hin⟩
      · exact ⟨b, hb, rfl, (h.account y b hb).2.2.2⟩
    · refine h.accounts rfl fun y b hb => ?_
      rw [lookup_erase] at hb
      split at hb
      · cases hb
      · exact ⟨b, hb, rfl, (h.account y b hb).2.2.2⟩

theorem Solvent.canAdmit (h : Solvent windows urgentReserve s) (x : ActivationId) (bytes : Nat)
    (cls : UnitClass) :
    Solvent windows urgentReserve (s.onto (s.ledger.canAdmit x bytes cls).1) := by
  refine h.accounts (fields_canAdmit _ _ _ _) fun y b hb => ?_
  rcases lookup_canAdmit s.ledger y x bytes cls with ⟨-, hnone⟩ | ⟨a, b', ha, hab, hb'⟩
  · rw [hnone] at hb
    cases hb
  · obtain rfl := some.inj (hb.symm.trans hb')
    exact ⟨a, ha, hab.window, fun hd => (h.account y a ha).2.2.2 (hab.draining ▸ hd)⟩

theorem Solvent.tryAdmit (h : Solvent windows urgentReserve s) (x : ActivationId) (bytes : Nat)
    (cls : UnitClass) :
    Solvent windows urgentReserve (s.onto (s.ledger.tryAdmit x bytes cls).1) := by
  by_cases hadmit : (s.ledger.canAdmit x bytes cls).2 = some true
  · obtain ⟨hconn, a, ha, hlive, hroom⟩ := canAdmit_some_true hadmit
    rw [tryAdmit_of_admitted hadmit]
    have hlookup := fun y => lookup_canAdmit s.ledger y x bytes cls
    generalize (s.ledger.canAdmit x bytes cls).1.accounts = asked at hlookup
    have hreturned := h.returned
    have hle := s.ledger.connectionLimitFor_le cls
    refine ⟨h.limit, h.perActivation, h.reserve, Nat.le_add_right_of_le hreturned, ?_,
      fun y b hb => ?_, ?_, h.reported⟩
    · simp only [onto, Window.inFlight] at hconn ⊢
      omega
    · simp only [onto, lookup_modify] at hb
      rcases hlookup y with ⟨-, hnone⟩ | ⟨a', b', ha', hab, hb'⟩
      · rw [hnone] at hb
        split at hb <;> cases hb
      · obtain ⟨hlimit, hrepaid, hin, hdraining⟩ := h.account y a' ha'
        rw [hb'] at hb
        split at hb
        · next he =>
          subst he
          obtain rfl := some.inj (ha.symm.trans ha')
          obtain rfl := some.inj hb
          simp only [charge, hab.window, hab.draining, Window.inFlight] at hroom ⊢
          refine ⟨hlimit, Nat.le_add_right_of_le hrepaid, by omega, fun hd => ?_⟩
          rw [hlive] at hd
          cases hd
        · obtain rfl := some.inj hb
          rw [hab.window]
          exact ⟨hlimit, hrepaid, hin, fun hd => hdraining (hab.draining ▸ hd)⟩
    · have hkept : ∀ y a, s.ledger.accounts.lookup y = some a →
          ∃ b, (asked.modify x (charge bytes)).lookup y = some b := by
        intro y a' ha'
        rw [lookup_modify]
        rcases hlookup y with ⟨hnone, -⟩ | ⟨-, b', -, -, hb'⟩
        · rw [ha'] at hnone
          cases hnone
        · rw [hb']
          split <;> exact ⟨_, rfl⟩
      have hsame : asked.sum (·.window.admitted) =
          s.ledger.accounts.sum (·.window.admitted) := by
        refine sum_congr fun y => ?_
        rcases hlookup y with ⟨hnone, hnone'⟩ | ⟨a', b', ha', hab, hb'⟩
        · rw [hnone, hnone']
        · rw [ha', hb', map_some, map_some, hab.window]
      have hadmitted := h.admitted
      rcases hlookup x with ⟨hnone, -⟩ | ⟨a', b', ha', hab, hb'⟩
      · rw [ha] at hnone
        cases hnone
      · have hcharged := sum_modify hb' (charge bytes) (·.window.admitted)
        simp only [charge] at hcharged
        simp only [onto, admittedByClosed, departed_eq_nil hkept, append_nil] at hadmitted ⊢
        omega
  · rw [tryAdmit_of_refused hadmit]
    exact h.canAdmit x bytes cls

theorem Solvent.report (h : Solvent windows urgentReserve s) {credit : TransportCredit}
    (hhonest : s.ledger.honest credit = true) :
    Solvent windows urgentReserve
      { s.onto (s.ledger.returned credit).1 with
        reported :=
          if s.ledger.heeds credit then max s.reported credit.connectionBytesReturned
          else s.reported } := by
  simp only [honest, Bool.and_eq_true, decide_eq_true_eq, List.all_eq_true,
    Option.all_eq_true] at hhonest
  obtain ⟨hconn, hnamed⟩ := hhonest
  cases hheeds : s.ledger.heeds credit with
  | false =>
    rw [returned_of_stale hheeds]
    exact h.accounts rfl fun y b hb => ⟨b, hb, rfl, (h.account y b hb).2.2.2⟩
  | true =>
    have hlookup := lookup_returned hheeds
    obtain ⟨accounts, hfields⟩ := fields_returned hheeds
    rw [hfields] at hlookup ⊢
    have hreturned := h.returned
    have hin := h.connection
    refine ⟨h.limit, h.perActivation, h.reserve, max_le hreturned hconn, ?_, fun y b hb => ?_, ?_,
      ?_⟩
    · simp only [onto, Window.inFlight] at hin ⊢
      omega
    · rcases hlookup y with ⟨-, hnone⟩ | ⟨a, b', ha, hab, hb'⟩
      · simp only [onto, hnone] at hb
        cases hb
      · simp only [onto, hb'] at hb
        split at hb
        · next hkeeps =>
          obtain rfl := some.inj hb
          obtain ⟨hlimit, hrepaid, hroom, -⟩ := h.account y a ha
          have hle : a.returnedBy y credit.accounts ≤ a.window.admitted :=
            returnedBy_le (fun r hr he => hnamed r hr a (he ▸ ha)) hrepaid
          have hge := le_returnedBy a y credit.accounts
          rw [hab.window]
          refine ⟨hlimit, hle, ?_, fun hd => ?_⟩
          · simp only [Window.inFlight] at hroom ⊢
            omega
          · simp only [CreditLedger.keeps, hd, Bool.not_true, Bool.false_or, decide_eq_true_eq,
              hab.window] at hkeeps
            exact Nat.lt_of_sub_pos hkeeps
        · cases hb
    · have hsum := @sum_uncharged s.ledger.accounts accounts
        fun x b hb => by
          rcases hlookup x with ⟨-, hnone⟩ | ⟨a, b', ha, hab, hb'⟩
          · rw [hnone] at hb
            cases hb
          · rw [hb'] at hb
            split at hb
            · obtain rfl := some.inj hb
              exact ⟨a, ha, by rw [hab.window]⟩
            · cases hb
      have hadmitted := h.admitted
      simp only [onto, admittedByClosed, map_append, sum_append] at hadmitted ⊢
      omega
    · simp only [onto, if_true, h.reported]

theorem solvent_of_reachable {creditEpoch : Nat}
    (h : (machine creditEpoch windows urgentReserve).Reachable s) :
    Solvent windows urgentReserve s := by
  refine h.invariant (solvent_start creditEpoch windows urgentReserve) fun s e s' hs hnext => ?_
  cases e with
  | openAccount x =>
    obtain rfl := some.inj hnext
    exact hs.openAccount x
  | closeAccount x =>
    obtain rfl := some.inj hnext
    exact hs.closeAccount x
  | canAdmit x bytes cls =>
    obtain rfl := some.inj hnext
    exact hs.canAdmit x bytes cls
  | tryAdmit x bytes cls =>
    obtain rfl := some.inj hnext
    exact hs.tryAdmit x bytes cls
  | returned credit =>
    simp only [machine, next] at hnext
    split at hnext
    · next hhonest =>
      obtain rfl := some.inj hnext
      exact hs.report hhonest
    · cases hnext

/-! ## Safety -/

structure CreditSafe (windows : ReceiverCapacities) (s : CreditRun) : Prop where
  connection : s.ledger.connection.inFlight ≤ windows.connectionCreditBytes
  account : ∀ x a, s.ledger.accounts.lookup x = some a →
    a.window.inFlight ≤ windows.perActivationCreditBytes
  /-- a bulk admission leaves the urgent reserve free -/
  reserve : ∀ x bytes l, s.ledger.tryAdmit x bytes .bulk = (l, true) →
    l.connection.inFlight + l.urgentReserve ≤ windows.connectionCreditBytes
  admitted : s.ledger.connection.admitted =
    s.ledger.accounts.sum (·.window.admitted) + s.admittedByClosed
  returned : s.ledger.connection.returned = s.reported
  draining : ∀ x a bytes cls, s.ledger.accounts.lookup x = some a → a.draining = true →
    s.ledger.tryAdmit x bytes cls = (s.ledger, false)
  /-- a draining account leaves with the report that returns the last of its bytes -/
  dropped : ∀ x a e s', s.ledger.accounts.lookup x = some a → a.draining = true →
    s.next e = some s' →
      (s'.ledger.accounts.lookup x = none ↔
        ∃ credit, e = .returned credit ∧ s.ledger.heeds credit = true ∧
          a.returnedBy x credit.accounts = a.window.admitted)
  stale : ∀ credit, s.ledger.heeds credit = false → s.ledger.returned credit = (s.ledger, [])

variable {x : ActivationId}

theorem tryAdmit_draining {a : Account}
    (ha : s.ledger.accounts.lookup x = some a) (hd : a.draining = true) (bytes : Nat)
    (cls : UnitClass) : s.ledger.tryAdmit x bytes cls = (s.ledger, false) := by
  simp [CreditLedger.tryAdmit, CreditLedger.canAdmit, ha, hd]

theorem Solvent.reserve_free (h : Solvent windows urgentReserve s)
    {bytes : Nat} {l : CreditLedger} (hl : s.ledger.tryAdmit x bytes .bulk = (l, true)) :
    l.connection.inFlight + l.urgentReserve ≤ windows.connectionCreditBytes := by
  by_cases hadmit : (s.ledger.canAdmit x bytes .bulk).2 = some true
  · obtain ⟨hconn, -⟩ := canAdmit_some_true hadmit
    rw [tryAdmit_of_admitted hadmit] at hl
    obtain ⟨rfl, -⟩ := Prod.mk.inj hl
    have hlimit := h.limit
    have hreserve := h.reserve
    have hreturned := h.returned
    simp only [connectionLimitFor, Window.inFlight] at hconn ⊢
    omega
  · rw [tryAdmit_of_refused hadmit] at hl
    cases (Prod.mk.inj hl).2

theorem Solvent.kept_draining (h : Solvent windows urgentReserve s)
    {a : Account} (ha : s.ledger.accounts.lookup x = some a) (hd : a.draining = true)
    {e : CreditEvent} {s' : CreditRun} (hnext : s.next e = some s')
    (he : ∀ credit, e ≠ .returned credit) :
    ∃ b, s'.ledger.accounts.lookup x = some b := by
  have hask : ∀ y bytes cls, ∃ b,
      (s.ledger.canAdmit y bytes cls).1.accounts.lookup x = some b := by
    intro y bytes cls
    rcases lookup_canAdmit s.ledger x y bytes cls with ⟨hnone, -⟩ | ⟨-, b, -, -, hb⟩
    · rw [ha] at hnone
      cases hnone
    · exact ⟨b, hb⟩
  cases e with
  | openAccount y =>
    obtain rfl := some.inj hnext
    simp only [onto, CreditLedger.openAccount, lookup_insert]
    split
    · exact ⟨_, rfl⟩
    · exact ⟨a, ha⟩
  | closeAccount y =>
    obtain rfl := some.inj hnext
    simp only [onto, CreditLedger.closeAccount]
    split
    · exact ⟨a, ha⟩
    · next b hb =>
      split
      · rw [lookup_modify, ha]
        split <;> exact ⟨_, rfl⟩
      · next hin =>
        rw [lookup_erase, if_neg fun hxy => ?_]
        · exact ⟨a, ha⟩
        · -- it has bytes in flight
          rw [← hxy, ha] at hb
          obtain rfl := some.inj hb
          exact hin (Nat.sub_pos_of_lt ((h.account x a ha).2.2.2 hd))
  | canAdmit y bytes cls =>
    obtain rfl := some.inj hnext
    exact hask y bytes cls
  | tryAdmit y bytes cls =>
    obtain rfl := some.inj hnext
    by_cases hadmit : (s.ledger.canAdmit y bytes cls).2 = some true
    · simp only [onto, tryAdmit_of_admitted hadmit, lookup_modify]
      obtain ⟨b, hb⟩ := hask y bytes cls
      rw [hb]
      split <;> exact ⟨_, rfl⟩
    · simp only [onto, tryAdmit_of_refused hadmit]
      exact hask y bytes cls
  | returned credit => exact absurd rfl (he credit)

theorem Solvent.dropped (h : Solvent windows urgentReserve s) {a : Account}
    (ha : s.ledger.accounts.lookup x = some a) (hd : a.draining = true) {e : CreditEvent}
    {s' : CreditRun} (hnext : s.next e = some s') :
    s'.ledger.accounts.lookup x = none ↔
      ∃ credit, e = .returned credit ∧ s.ledger.heeds credit = true ∧
        a.returnedBy x credit.accounts = a.window.admitted := by
  by_cases he : ∃ credit, e = .returned credit
  · obtain ⟨credit, rfl⟩ := he
    simp only [next] at hnext
    split at hnext
    · next hhonest =>
      obtain rfl := some.inj hnext
      cases hheeds : s.ledger.heeds credit with
      | false =>
        simp only [onto, returned_of_stale hheeds, ha]
        refine iff_of_false (fun hnone => by cases hnone) ?_
        rintro ⟨credit', hcredit, htrue, -⟩
        cases hcredit
        rw [hheeds] at htrue
        cases htrue
      | true =>
        rcases lookup_returned hheeds x with ⟨hnone, -⟩ | ⟨a', b, ha', hab, hb⟩
        · rw [ha] at hnone
          cases hnone
        · obtain rfl := some.inj (ha.symm.trans ha')
          simp only [honest, Bool.and_eq_true, decide_eq_true_eq, List.all_eq_true,
            Option.all_eq_true] at hhonest
          have hle : a.returnedBy x credit.accounts ≤ a.window.admitted :=
            returnedBy_le
              (fun r hr he => hhonest.2 r hr a (he ▸ ha)) (h.account x a ha).2.1
          have hkeeps : CreditLedger.keeps b = true ↔
              a.returnedBy x credit.accounts < a.window.admitted := by
            simp only [CreditLedger.keeps, hab.draining, hd, Bool.not_true, Bool.false_or,
              hab.window, Window.inFlight, decide_eq_true_eq]
            exact Nat.sub_pos_iff_lt
          simp only [onto, hb]
          constructor
          · intro hnone
            split at hnone
            · cases hnone
            · next hnot =>
              exact ⟨credit, rfl, hheeds, Nat.le_antisymm hle
                (Nat.le_of_not_lt fun hlt => hnot (hkeeps.mpr hlt))⟩
          · rintro ⟨credit', hcredit, -, heq⟩
            cases hcredit
            exact if_neg fun hk => Nat.ne_of_lt (hkeeps.mp hk) heq
    · cases hnext
  · have hnot : ∀ credit, e ≠ .returned credit := fun credit hc => he ⟨credit, hc⟩
    obtain ⟨b, hb⟩ := h.kept_draining ha hd hnext hnot
    refine iff_of_false (fun hnone => ?_) fun hreturned => ?_
    · rw [hb] at hnone
      cases hnone
    · obtain ⟨credit, hc, -⟩ := hreturned
      exact hnot credit hc

/-- Every ledger of every run is safe.  The connection's returned total is the largest
one reported, whatever the accounts were returned. -/
theorem creditSafe {creditEpoch : Nat}
    (h : (machine creditEpoch windows urgentReserve).Reachable s) : CreditSafe windows s := by
  have hs := solvent_of_reachable h
  refine ⟨hs.limit ▸ hs.connection, fun x a ha => ?_, fun x bytes l hl => hs.reserve_free hl,
    hs.admitted, hs.reported, fun x a bytes cls ha hd => tryAdmit_draining ha hd bytes cls,
    fun x a e s' ha hd hnext => hs.dropped ha hd hnext,
    fun credit hstale => CreditLedger.returned_of_stale hstale⟩
  obtain ⟨hlimit, -, hin, -⟩ := hs.account x a ha
  exact hlimit ▸ hin

namespace Sample

def caps : ReceiverCapacities where
  connectionCreditBytes := 1000
  perActivationCreditBytes := 500
  maxConcurrentSeeds := 1

def events : List CreditEvent :=
  [.openAccount "a", .openAccount "b", .tryAdmit "a" 300 .bulk, .tryAdmit "b" 100 .urgent,
    .closeAccount "b",
    .returned
      { creditEpoch := 1, creditSequence := 1, connectionBytesReturned := 50, accounts := [] }]

end Sample

/-- A draining account beside a live one, both with bytes in flight. -/
theorem creditSafe_draining :
    ∃ s, s.ledger.connection.admitted = 400 ∧
      ((s.ledger.accounts.lookup "b").any Account.draining) = true ∧
      CreditSafe Sample.caps s := by
  obtain ⟨s, hreach, hp⟩ := Machine.exists_of_run (M := machine 1 Sample.caps 200)
    (fun s => s.ledger.connection.admitted == 400 &&
      (s.ledger.accounts.lookup "b").any Account.draining) Sample.events (by decide)
  rw [Bool.and_eq_true, beq_iff_eq] at hp
  exact ⟨s, hp.1, hp.2, creditSafe hreach⟩

/-- A report may return to the connection before it returns to any account.  An
account that closed had everything back. -/
theorem returned_apart :
    ¬ ∀ s, (machine 1 Sample.caps 200).Reachable s →
      s.ledger.connection.returned =
        s.ledger.accounts.sum (·.window.returned) + s.admittedByClosed := by
  intro hall
  obtain ⟨s, hreach, hp⟩ := Machine.exists_of_run (M := machine 1 Sample.caps 200)
    (fun s => s.ledger.connection.returned == 50 &&
      s.ledger.accounts.sum (·.window.returned) + s.admittedByClosed == 0)
    Sample.events (by decide)
  simp only [Bool.and_eq_true, beq_iff_eq] at hp
  have hsum := hall s hreach
  rw [hp.1, hp.2] at hsum
  cases hsum

end CreditRun
end VibeField.Tp
