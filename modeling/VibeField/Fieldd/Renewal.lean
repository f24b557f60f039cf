import VibeField.Fieldd.Minter

/-!
# Renewals

Calls reach a minter in some order, from any number of clients for any number of sessions.
A renewal names the generation it holds and a request id.  A request id that is still
remembered gets the grant it got before.  Any other renewal is granted if the generation
it names is the last one minted.

The renewals remembered for a client and a session are the last eight that were granted:
this is the invariant the retries rest on.
-/

namespace VibeField.Fieldd

open Ledger List

/-! ## Runs of a minter -/

inductive MinterCall where
  | mintTransport (key : CellGrantKey) (principal : GrantPrincipal)
      (forwardedFor : Option ForwardedFor) (w : Moment)
  | mintAttach (input : AttachInput) (w : Moment)
  | mintTicket (input : MintTicketInput) (w w' : Moment)
  | renewAttach (input : RenewAttachInput) (w : Moment)

/-- A renewal that was granted anew. -/
structure Renewal where
  ledger : String
  requestId : String
  grant : SessionAttachGrant
  deriving DecidableEq, Repr

/-- A minter, and what it handed out so far, in order. -/
structure MinterRun where
  minter : TerminalGrantMinter
  transports : List CellTransportGrant := []
  attaches : List SessionAttachGrant := []
  renewed : List Renewal := []

namespace MinterRun

variable (sign : SignGrant)

def next (s : MinterRun) : MinterCall → MinterRun
  | .mintTransport key principal forwardedFor w =>
    let (minter, grant) := s.minter.mintTransport sign key principal forwardedFor w
    { s with minter := minter, transports := s.transports ++ [grant] }
  | .mintAttach input w =>
    let (minter, grant) := s.minter.mintAttach sign input w
    { s with minter := minter, attaches := s.attaches ++ [grant] }
  | .mintTicket input w w' =>
    let (minter, ticket) := s.minter.mintTicket sign input w w'
    { s with
      minter := minter
      transports := s.transports ++ [ticket.transportGrant]
      attaches := s.attaches ++ [ticket.attachGrant] }
  | .renewAttach input w =>
    let ledger := s.minter.ledgerOf input.toAttachInput
    match s.minter.remembered ledger input.requestId, s.minter.renewAttach sign input w with
    | none, (minter, .ok grant) =>
      { s with
        minter := minter
        attaches := s.attaches ++ [grant]
        renewed := s.renewed ++ [⟨ledger, input.requestId, grant⟩] }
    | _, (minter, _) => { s with minter := minter }

def machine (epoch : String) : Machine MinterRun MinterCall where
  start := { minter := .new epoch }
  next s call := some (s.next sign call)

/-! ## The invariant -/

def answersOf (renewed : List Renewal) (ledger : String) : List (String × SessionAttachGrant) :=
  (renewed.filter fun r => r.ledger = ledger).map fun r => (r.requestId, r.grant)

structure Inv (s : MinterRun) : Prop where
  transports : Counts s.minter.transportGenerations
    (s.transports.map fun g => (g.ledger, g.claims.transportGrantGeneration))
  attaches : Counts s.minter.attachGenerations
    (s.attaches.map fun g => (g.ledger, g.claims.grantGeneration))
  renewals : ∀ ledger, (s.minter.renewals.lookup ledger).getD [] =
    recent renewalMemory (answersOf s.renewed ledger)
  apart : ∀ ledger,
    (((s.minter.renewals.lookup ledger).getD []).map fun e => e.1).Nodup

theorem answersOf_append (renewed : List Renewal) (r : Renewal) (ledger : String) :
    answersOf (renewed ++ [r]) ledger =
      if ledger = r.ledger then answersOf renewed ledger ++ [(r.requestId, r.grant)]
      else answersOf renewed ledger := by
  unfold answersOf
  rw [filter_append, map_append]
  by_cases h : ledger = r.ledger
  · rw [if_pos h, filter_cons_of_pos (by simpa using h.symm)]
    rfl
  · rw [if_neg h, filter_cons_of_neg (by simpa using Ne.symm h)]
    simp

theorem inv_start (epoch : String) : Inv { minter := .new epoch } where
  transports := Counts.empty
  attaches := Counts.empty
  renewals _ := rfl
  apart _ := nodup_nil

variable {sign} {s : MinterRun}

theorem Inv.mintTransport (h : Inv s) (key : CellGrantKey)
    (principal : GrantPrincipal) (forwardedFor : Option ForwardedFor) (w : Moment) :
    Inv (s.next sign (.mintTransport key principal forwardedFor w)) where
  __ := h
  transports := by
    show Counts (bump _ _) (List.map _ (s.transports ++ [_]))
    rw [map_append]
    exact h.transports.bump _

theorem Inv.mintAttach (h : Inv s) (input : AttachInput) (w : Moment) :
    Inv (s.next sign (.mintAttach input w)) where
  __ := h
  attaches := by
    show Counts (bump _ _) (List.map _ (s.attaches ++ [_]))
    rw [map_append]
    exact h.attaches.bump _

theorem next_mintTicket (s : MinterRun) (input : MintTicketInput) (w w' : Moment) :
    s.next sign (.mintTicket input w w') =
      (s.next sign (.mintTransport input.key input.principal input.forwardedFor w)).next sign
        (.mintAttach input.toAttachInput w') := rfl

theorem next_renewAttach_of_unchanged {input : RenewAttachInput} {w : Moment}
    (h : (∃ grant, s.minter.remembered (s.minter.ledgerOf input.toAttachInput)
        input.requestId = some grant ∧ s.minter.renewAttach sign input w = (s.minter, .ok grant)) ∨
      ∃ e, s.minter.renewAttach sign input w = (s.minter, .error e)) :
    s.next sign (.renewAttach input w) = s := by
  simp only [next]
  rcases h with ⟨grant, hrem, hr⟩ | ⟨e, hr⟩
  · rw [hrem, hr]
  · rw [hr]
    cases s.minter.remembered (s.minter.ledgerOf input.toAttachInput) input.requestId <;> rfl

theorem Inv.renewAttach (h : Inv s) (input : RenewAttachInput) (w : Moment) :
    Inv (s.next sign (.renewAttach input w)) := by
  rcases s.minter.renewAttach_cases sign input w with
    ⟨grant, hrem, hr⟩ | ⟨hrem, hcur, hr⟩ | ⟨hrem, hcur, hr⟩
  · rw [next_renewAttach_of_unchanged (.inl ⟨grant, hrem, hr⟩)]
    exact h
  · rw [next_renewAttach_of_unchanged (.inr ⟨_, hr⟩)]
    exact h
  · -- granted anew: the answer joins the memory of its ledger and of no other
    have hnew := answerTo_eq_none.mp hrem
    simp only [next]
    rw [hrem, hr]
    refine ⟨h.transports, ?_, ?_, ?_⟩
    · show Counts (bump _ _) (List.map _ (s.attaches ++ [_]))
      rw [map_append]
      exact h.attaches.bump _
    · intro ledger
      show ((s.minter.renewals.insert _ _).lookup ledger).getD [] = _
      rw [Dict.lookup_insert, answersOf_append]
      by_cases hl : ledger = s.minter.ledgerOf input.toAttachInput
      · rw [if_pos hl, if_pos hl, ← remember_recent, hl, ← h.renewals]
        rfl
      · rw [if_neg hl, if_neg hl]
        exact h.renewals ledger
    · intro ledger
      show ((((s.minter.renewals.insert _ _).lookup ledger).getD []).map _).Nodup
      rw [Dict.lookup_insert]
      by_cases hl : ledger = s.minter.ledgerOf input.toAttachInput
      · rw [if_pos hl]
        exact nodup_remember (h.apart _) hnew
      · rw [if_neg hl]
        exact h.apart ledger

theorem Inv.next (h : Inv s) (call : MinterCall) : Inv (s.next sign call) := by
  cases call with
  | mintTransport key principal forwardedFor w => exact h.mintTransport key principal forwardedFor w
  | mintAttach input w => exact h.mintAttach input w
  | mintTicket input w w' =>
    rw [next_mintTicket]
    exact (h.mintTransport _ _ _ w).mintAttach _ w'
  | renewAttach input w => exact h.renewAttach input w

theorem inv_of_reachable {epoch : String}
    (h : (machine sign epoch).Reachable s) : Inv s := by
  refine h.invariant (inv_start epoch) fun s call s' hs hnext => ?_
  obtain rfl : s.next sign call = s' := Option.some.inj hnext
  exact hs.next call

/-! ## Generations -/

def generationsOf (grants : List SessionAttachGrant) (clientId sessionId : String) : List Nat :=
  (grants.filter fun g => g.claims.clientId = clientId ∧ g.claims.sessionId = sessionId).map
    fun g => g.claims.grantGeneration

theorem generationsOf_sublist (grants : List SessionAttachGrant) (clientId sessionId : String) :
    (generationsOf grants clientId sessionId).Sublist
      (numbersOf (grants.map fun g => (g.ledger, g.claims.grantGeneration))
        (ledgerKey clientId sessionId)) := by
  induction grants with
  | nil => exact List.Sublist.slnil
  | cons g rest ih =>
    unfold generationsOf numbersOf at ih ⊢
    rw [map_cons]
    by_cases h : g.claims.clientId = clientId ∧ g.claims.sessionId = sessionId
    · have hl : g.ledger = ledgerKey clientId sessionId := by
        rw [SessionAttachGrant.ledger, h.1, h.2]
      rw [filter_cons_of_pos (by simpa using h), filter_cons_of_pos (by simpa using hl)]
      exact ih.cons_cons _
    · rw [filter_cons_of_neg (by simpa using h)]
      by_cases hl : g.ledger = ledgerKey clientId sessionId
      · rw [filter_cons_of_pos (by simpa using hl)]
        exact ih.cons _
      · rw [filter_cons_of_neg (by simpa using hl)]
        exact ih

/-! ## Retries -/

theorem mem_answersOf {renewed : List Renewal} {ledger requestId : String}
    {grant : SessionAttachGrant} (h : (requestId, grant) ∈ answersOf renewed ledger) :
    (⟨ledger, requestId, grant⟩ : Renewal) ∈ renewed := by
  obtain ⟨r, hr, heq⟩ := mem_map.mp h
  obtain ⟨hmem, hl⟩ := mem_filter.mp hr
  obtain ⟨rfl, rfl⟩ := Prod.mk.inj heq
  obtain rfl : r.ledger = ledger := of_decide_eq_true hl
  exact hmem

theorem answersOf_split (pre post : List Renewal) (r : Renewal) :
    answersOf (pre ++ r :: post) r.ledger =
      answersOf pre r.ledger ++ (r.requestId, r.grant) :: answersOf post r.ledger := by
  unfold answersOf
  rw [filter_append, map_append, filter_cons_of_pos (by simp)]
  rfl

theorem Inv.remembered (h : Inv s) {pre post : List Renewal} {r : Renewal}
    (hsplit : s.renewed = pre ++ r :: post)
    (hfew : (answersOf post r.ledger).length < renewalMemory) :
    s.minter.remembered r.ledger r.requestId = some r.grant := by
  refine answerTo_of_mem (h.apart r.ledger) ?_
  rw [h.renewals, hsplit, answersOf_split]
  exact mem_recent hfew

theorem Inv.mem_of_remembered (h : Inv s) {ledger requestId : String}
    {grant : SessionAttachGrant} (hr : s.minter.remembered ledger requestId = some grant) :
    (⟨ledger, requestId, grant⟩ : Renewal) ∈ s.renewed := by
  have hmem := mem_of_answerTo hr
  rw [h.renewals] at hmem
  exact mem_answersOf (mem_of_mem_recent hmem)

/-- In every run the generations of a client and a session are minted once each and in
order.  A request id gets the grant it got before, while fewer than eight renewals of its
client and session were granted since.  A renewal that names another generation than the
current one changes nothing and mints nothing. -/
theorem renewAttach_once {epoch : String} {s : MinterRun}
    (h : (machine sign epoch).Reachable s) :
    (∀ ledger, numbersOf (s.attaches.map fun g => (g.ledger, g.claims.grantGeneration)) ledger =
      List.range' 1 (count s.minter.attachGenerations ledger)) ∧
    (∀ clientId sessionId, (generationsOf s.attaches clientId sessionId).Pairwise (· < ·)) ∧
    (∀ (input : RenewAttachInput) (w : Moment) (pre post : List Renewal) (r : Renewal),
      s.renewed = pre ++ r :: post →
      r.ledger = s.minter.ledgerOf input.toAttachInput → r.requestId = input.requestId →
      (answersOf post r.ledger).length < renewalMemory →
      s.minter.renewAttach sign input w = (s.minter, .ok r.grant) ∧
        s.next sign (.renewAttach input w) = s) ∧
    (∀ (input : RenewAttachInput) (w : Moment) (grant : SessionAttachGrant),
      (s.minter.renewAttach sign input w).2 = .ok grant →
      (⟨s.minter.ledgerOf input.toAttachInput, input.requestId, grant⟩ : Renewal) ∈ s.renewed ∨
        s.minter.attachGeneration input.principal input.sessionId input.forwardedFor =
            input.expectGeneration ∧
          grant.ledger = s.minter.ledgerOf input.toAttachInput ∧
          grant.claims.grantGeneration = input.expectGeneration + 1) ∧
    (∀ (input : RenewAttachInput) (w : Moment),
      s.minter.attachGeneration input.principal input.sessionId input.forwardedFor ≠
        input.expectGeneration →
      (s.minter.renewAttach sign input w).1 = s.minter ∧
        s.next sign (.renewAttach input w) = s) := by
  have hinv := inv_of_reachable h
  refine ⟨hinv.attaches, ?_, ?_, ?_, ?_⟩
  · intro clientId sessionId
    exact hinv.attaches.rising _ (generationsOf_sublist s.attaches clientId sessionId)
  · intro input w pre post r hsplit hledger hid hfew
    have hrem := hinv.remembered hsplit hfew
    rw [hledger, hid] at hrem
    have hr : s.minter.renewAttach sign input w = (s.minter, .ok r.grant) := by
      rcases s.minter.renewAttach_cases sign input w with
        ⟨grant, hgrant, hr⟩ | ⟨hnone, hcur, hr⟩ | ⟨hnone, hcur, hr⟩
      · obtain rfl : r.grant = grant := Option.some.inj (hrem.symm.trans hgrant)
        exact hr
      · cases hrem.symm.trans hnone
      · cases hrem.symm.trans hnone
    exact ⟨hr, next_renewAttach_of_unchanged (.inl ⟨r.grant, hrem, hr⟩)⟩
  · intro input w grant hok
    rcases s.minter.renewAttach_cases sign input w with
      ⟨old, hold, hr⟩ | ⟨hnone, hcur, hr⟩ | ⟨hnone, hcur, hr⟩
    · rw [hr] at hok
      obtain rfl : old = grant := Except.ok.inj hok
      exact .inl (hinv.mem_of_remembered hold)
    · rw [hr] at hok
      cases hok
    · rw [hr] at hok
      obtain rfl := Except.ok.inj hok
      refine .inr ⟨hcur, s.minter.mintAttach_ledger sign _ w, ?_⟩
      rw [s.minter.mintAttach_generation sign _ w, hcur]
  · intro input w hstale
    rcases s.minter.renewAttach_cases sign input w with
      ⟨old, hold, hr⟩ | ⟨hnone, hcur, hr⟩ | ⟨hnone, hcur, hr⟩
    · exact ⟨by rw [hr], next_renewAttach_of_unchanged (.inl ⟨old, hold, hr⟩)⟩
    · exact ⟨by rw [hr], next_renewAttach_of_unchanged (.inr ⟨_, hr⟩)⟩
    · exact absurd hcur hstale

/-! ## A window that renews -/

def after (sign : SignGrant) (epoch : String) (calls : List MinterCall) : MinterRun :=
  calls.foldl (fun s call => s.next sign call) { minter := .new epoch }

theorem reachable_after (sign : SignGrant) (epoch : String) (calls : List MinterCall) :
    (machine sign epoch).Reachable (after sign epoch calls) := by
  suffices hrun : ∀ s, (machine sign epoch).Reachable s →
      (machine sign epoch).Reachable (calls.foldl (fun s call => s.next sign call) s) from
    hrun _ .start
  induction calls with
  | nil => exact fun s hs => hs
  | cons call rest ih =>
    intro s hs
    rw [foldl_cons]
    exact ih _ (hs.next rfl)

def cellKey : CellGrantKey where
  cellBootId := "cell-boot-A"
  keyHex := "5e5e"
  keyGeneration := 1

def window : AttachInput where
  key := cellKey
  principal :=
    { kind := "local-token"
      tokenId := some "tok-1"
      rendererParticipant := some ⟨"p-3c4d", "doc-2"⟩ }
  sessionId := "s-1"
  route := { cellBootId := "cell-boot-A", routeRevision := 1 }

def renewal (expectGeneration : Nat) (requestId : String) : RenewAttachInput :=
  { window with expectGeneration, requestId }

def reopened : MinterRun :=
  after (fun _ _ _ => "mac") "epochA"
    [.mintAttach window { now := 0 }, .renewAttach (renewal 1 "r-1") { now := 1 },
      .mintAttach window { now := 2 }, .renewAttach (renewal 3 "r-2") { now := 3 }]

/-- A retry that comes after a newer renewal gets its own grant again. -/
theorem renewAttach_once_retry :
    ∃ grant, grant.claims.grantGeneration = 2 ∧
      reopened.minter.renewAttach (fun _ _ _ => "mac") (renewal 1 "r-1") { now := 4 } =
        (reopened.minter, .ok grant) := by
  obtain ⟨r, r', hrenewed, hledger, hid, hgen⟩ :
      ∃ r r', reopened.renewed = [] ++ r :: [r'] ∧
        r.ledger = reopened.minter.ledgerOf (renewal 1 "r-1").toAttachInput ∧
        r.requestId = "r-1" ∧ r.grant.claims.grantGeneration = 2 :=
    ⟨_, _, rfl, rfl, rfl, rfl⟩
  have hfew : (answersOf [r'] r.ledger).length < renewalMemory := by
    have hle : ([r'].filter fun x => x.ledger = r.ledger).length ≤ 1 := List.length_filter_le _ _
    rw [answersOf, List.length_map]
    show _ < 8
    omega
  have honce := (renewAttach_once (reachable_after (fun _ _ _ => "mac") "epochA" _)).2.2.1
    (renewal 1 "r-1") { now := 4 } [] [r'] r hrenewed hledger hid hfew
  exact ⟨r.grant, hgen, honce.1⟩

def nineRenewals : List MinterCall :=
  .mintAttach window { now := 0 } ::
    (List.range 9).map fun i =>
      .renewAttach (renewal (i + 1) ("r-" ++ toString i)) { now := i + 1 }

/-- The ninth renewal pushes the first request id out.  Used again with the generation then
held, it gets a new grant. -/
theorem request_forgotten :
    ∃ s, (machine (fun _ _ _ => "mac") "epochA").Reachable s ∧
      ∃ (input : RenewAttachInput) (w : Moment) (r : Renewal) (grant : SessionAttachGrant),
        r ∈ s.renewed ∧ r.ledger = s.minter.ledgerOf input.toAttachInput ∧
        r.requestId = input.requestId ∧
        (s.minter.renewAttach (fun _ _ _ => "mac") input w).2 = .ok grant ∧ grant ≠ r.grant := by
  refine ⟨_, reachable_after _ _ nineRenewals, renewal 10 "r-0", { now := 20 }, ?_⟩
  have hold : ∃ r ∈ (after (fun _ _ _ => "mac") "epochA" nineRenewals).renewed,
      r.ledger = (after (fun _ _ _ => "mac") "epochA" nineRenewals).minter.ledgerOf window ∧
      r.requestId = "r-0" ∧ r.grant.claims.grantGeneration = 2 := by
    decide +kernel
  have hnew : ((after (fun _ _ _ => "mac") "epochA" nineRenewals).minter.renewAttach
      (fun _ _ _ => "mac") (renewal 10 "r-0") { now := 20 }).2.toOption.map
        (fun g => g.claims.grantGeneration) = some 11 := by
    decide +kernel
  obtain ⟨r, hr, hledger, hid, hgen⟩ := hold
  cases hanswer : ((after (fun _ _ _ => "mac") "epochA" nineRenewals).minter.renewAttach
      (fun _ _ _ => "mac") (renewal 10 "r-0") { now := 20 }).2 with
  | error e =>
    rw [hanswer] at hnew
    cases hnew
  | ok grant =>
    refine ⟨r, grant, hr, hledger, hid, rfl, ?_⟩
    rintro rfl
    rw [hanswer] at hnew
    have heleven : r.grant.claims.grantGeneration = 11 := Option.some.inj hnew
    omega

end MinterRun
end VibeField.Fieldd
