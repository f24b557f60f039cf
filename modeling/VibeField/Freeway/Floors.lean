import VibeField.Base.Ahead
import VibeField.Base.Machine
import VibeField.Freeway.Keyring

/-!
# The keyring and a cell's floor

A `FloorRun` is one client's keyring, one cell that receives the keyring's floors in
order, and a log of what was minted, handed out, revoked and reopened.  Of any two
entries of the log the later one knows the earlier: `Entry.Agrees` says how, and every
statement about generations is read off it.
-/

namespace VibeField.Freeway

open Tp List Option Dict

inductive Grant where
  | transport (claims : TransportClaims)
  | attach (claims : AttachGrant)
  deriving DecidableEq, Repr

/-- What a generation is counted for. -/
inductive MintKey where
  | cell (cellBootId : CellBootId)
  | session (sessionId : SessionId)
  deriving DecidableEq, Repr

namespace Grant

def key : Grant → MintKey
  | transport claims => .cell claims.audienceCellBootId
  | attach claims => .session claims.sessionId

def generation : Grant → Nat
  | transport claims => claims.transportGrantGeneration
  | attach claims => claims.grantGeneration

def clientId : Grant → ClientId
  | transport claims => claims.clientId
  | attach claims => claims.clientId

def issuedAt : Grant → Nat
  | transport claims => claims.issuedAt
  | attach claims => claims.issuedAt

def expiresAt : Grant → Nat
  | transport claims => claims.expiresAt
  | attach claims => claims.expiresAt

end Grant

inductive Entry where
  | minted (grant : Grant)
  | handed (grant : Grant)
  | revoked (before : Nat)
  | reopened
  deriving DecidableEq, Repr

namespace Entry

def Agrees : Entry → Entry → Prop
  | minted g, minted g' => g.key = g'.key → g.generation < g'.generation
  | minted g, revoked before => g.generation < before
  | revoked before, minted g => before ≤ g.generation
  | revoked before, handed g => before ≤ g.generation
  | _, _ => True

def shut : Bool → List Entry → Bool
  | closed, [] => closed
  | _, revoked _ :: rest => shut true rest
  | _, reopened :: rest => shut false rest
  | closed, _ :: rest => shut closed rest

def gated : Bool → List Entry → Bool
  | _, [] => true
  | _, revoked _ :: rest => gated true rest
  | _, reopened :: rest => gated false rest
  | closed, _ :: rest => !closed && gated closed rest

theorem shut_append (es fs : List Entry) :
    ∀ closed, shut closed (es ++ fs) = shut (shut closed es) fs := by
  induction es with
  | nil => exact fun _ => rfl
  | cons e rest ih =>
    intro closed
    cases e <;> exact ih _

theorem gated_append (es fs : List Entry) :
    ∀ closed, gated closed (es ++ fs) = (gated closed es && gated (shut closed es) fs) := by
  induction es with
  | nil => exact fun _ => rfl
  | cons e rest ih =>
    intro closed
    cases e <;> simp [gated, shut, ih, Bool.and_assoc]

end Entry

namespace Keyring

variable {k k' : Keyring} {log : List Entry} {g : Grant}

def generationOf (k : Keyring) : MintKey → Option Nat
  | .cell cellBootId => k.transportGenerations.lookup cellBootId
  | .session sessionId => k.attachGenerations.lookup sessionId

/-- One grant is minted, and nothing else of the keyring moves. -/
structure Mints (k k' : Keyring) (g : Grant) : Prop where
  floor : k'.floor = k.floor
  revoked : k'.revoked = k.revoked
  renewals : k'.renewals = k.renewals
  clientId : k'.clientId = k.clientId
  client : g.clientId = k.clientId
  generation : g.generation = max ((k.generationOf g.key).getD 0) k.floor + 1
  generations : ∀ key, k'.generationOf key =
    if key = g.key then some g.generation else k.generationOf key

theorem attach_of_route {session : SessionId} {placement : Placement}
    {place : SessionRoute × CellRoute} (hroute : route session placement = .ok place)
    (k : Keyring) (now : Nat) :
    ∃ k' grant, k.attach session placement now = (k', .ok grant) ∧ Mints k k' (.attach grant) := by
  rw [attach, hroute]
  refine ⟨_, _, rfl, rfl, rfl, rfl, rfl, rfl, rfl, fun key => ?_⟩
  cases key with
  | cell c => rfl
  | session s =>
    simp only [generationOf, Grant.key, attachGrant, Grant.generation, MintKey.session.injEq]
    exact lookup_insert _ _ _ _

theorem attach_cases (k : Keyring) (session : SessionId) (placement : Placement) (now : Nat) :
    (∃ refusal, k.attach session placement now = (k, .error refusal)) ∨
    ∃ k' grant, k.attach session placement now = (k', .ok grant) ∧ Mints k k' (.attach grant) := by
  cases hroute : route session placement with
  | error refusal => exact .inl ⟨refusal, by rw [attach, hroute]⟩
  | ok place => exact .inr (attach_of_route hroute k now)

theorem ticket_cases (k : Keyring) (session : SessionId) (placement : Placement) (nonce : Nonce)
    (now : Nat) :
    (∃ refusal, k.ticket session placement nonce now = (k, .error refusal)) ∨
    ∃ mid k' t, k.ticket session placement nonce now = (k', .ok t) ∧ k.revoked = false ∧
      Mints k mid (.transport t.transportGrant) ∧ Mints mid k' (.attach t.attachGrant) := by
  rw [ticket]
  split
  · exact .inl ⟨_, rfl⟩
  · next hopen =>
    split
    · exact .inl ⟨_, rfl⟩
    · next place cell hroute =>
      let bumped := bump k.transportGenerations cell.cellBootId k.floor
      let mid : Keyring := { k with transportGenerations := bumped.1 }
      obtain ⟨k', grant, hattach, hmints⟩ := attach_of_route hroute mid now
      dsimp only
      rw [show ({ k with transportGenerations :=
        (bump k.transportGenerations cell.cellBootId k.floor).1 } : Keyring) = mid from rfl,
        hattach]
      refine .inr ⟨mid, k', _, rfl, by simpa using hopen, ?_, hmints⟩
      refine ⟨rfl, rfl, rfl, rfl, rfl, rfl, fun key => ?_⟩
      cases key with
      | session s => rfl
      | cell c =>
        simp only [generationOf, Grant.key, transportGrant, Grant.generation, MintKey.cell.injEq]
        exact lookup_insert _ _ _ _

theorem renew_cases (k : Keyring) (session : SessionId) (expect : Nat) (request : RequestId)
    (placement : Placement) (now : Nat) :
    (∃ refusal, k.renew session expect request placement now = (k, .error refusal)) ∨
    k.revoked = false ∧
      ((∃ grant, k.remembered session request = some grant ∧
        k.renew session expect request placement now = (k, .ok grant)) ∨
      ∃ mid grant, k.remembered session request = none ∧
        k.renew session expect request placement now =
          (mid.remember session request grant, .ok grant) ∧ Mints k mid (.attach grant)) := by
  rw [renew]
  split
  · exact .inl ⟨_, rfl⟩
  · next hopen =>
    have hopen : k.revoked = false := by simpa using hopen
    split
    · next grant hremembered => exact .inr ⟨hopen, .inl ⟨grant, hremembered, rfl⟩⟩
    · next hremembered =>
      split
      · exact .inl ⟨_, rfl⟩
      · dsimp only
        rcases attach_cases k session placement now with ⟨refusal, heq⟩ | ⟨mid, grant, heq, hmints⟩
        · rw [heq]
          exact .inl ⟨refusal, rfl⟩
        · rw [heq]
          exact .inr ⟨hopen, .inr ⟨mid, grant, hremembered, rfl, hmints⟩⟩

theorem le_foldl_max {n : Nat} {l : List Nat} {start : Nat} (h : n ∈ l ∨ n ≤ start) :
    n ≤ l.foldl max start := by
  induction l generalizing start with
  | nil => exact h.resolve_left not_mem_nil
  | cons a rest ih => exact ih (by grind)

theorem generationOf_le_minted {key : MintKey} {n : Nat} (h : k.generationOf key = some n) :
    n ≤ k.minted := by
  refine le_foldl_max (.inl (mem_append.mpr ?_))
  cases key with
  | cell c => exact .inl (mem_values.mpr ⟨c, h⟩)
  | session s => exact .inr (mem_values.mpr ⟨s, h⟩)

/-! ## The log of a keyring -/

/-- What a keyring knows of its log. -/
structure Logged (k : Keyring) (log : List Entry) : Prop where
  agrees : log.Pairwise Entry.Agrees
  counted : ∀ g, .minted g ∈ log → ∃ n, k.generationOf g.key = some n ∧ g.generation ≤ n
  floored : ∀ before, .revoked before ∈ log → before ≤ k.floor + 1
  remembered : ∀ session request grant,
    (request, grant) ∈ (k.renewals.lookup session).getD [] → k.floor < grant.grantGeneration
  shut : Entry.shut false log = k.revoked
  gated : Entry.gated false log = true
  client : ∀ g, .minted g ∈ log → g.clientId = k.clientId

namespace Logged

theorem new (clientId : ClientId) (rights : List AttachRight) : Logged (.new clientId rights) [] :=
  ⟨.nil, fun _ h => (by cases h), fun _ h => (by cases h), fun _ _ _ h => (by cases h), rfl, rfl,
    fun _ h => (by cases h)⟩

theorem mint (h : Logged k log) (hopen : k.revoked = false) (hm : Mints k k' g) :
    Logged k' (log ++ [.minted g]) := by
  have hfloor : k.floor < g.generation := by rw [hm.generation]; omega
  refine ⟨?_, ?_, ?_, ?_, ?_, ?_, ?_⟩
  · refine pairwise_append.mpr ⟨h.agrees, pairwise_singleton _ _, fun e he e' he' => ?_⟩
    rw [mem_singleton.mp he']
    cases e with
    | minted g₀ =>
      intro hkey
      obtain ⟨n, hn, hle⟩ := h.counted g₀ he
      have hgen := hm.generation
      rw [← hkey, hn, getD_some] at hgen
      omega
    | revoked before =>
      have := h.floored before he
      show before ≤ g.generation
      omega
    | handed _ | reopened => trivial
  · intro g₀ hg₀
    rw [hm.generations]
    rcases mem_snoc.mp hg₀ with hg₀ | hg₀
    · obtain ⟨n, hn, hle⟩ := h.counted g₀ hg₀
      split
      · next hkey =>
        have hgen := hm.generation
        rw [← hkey, hn, getD_some] at hgen
        exact ⟨_, rfl, by omega⟩
      · exact ⟨n, hn, hle⟩
    · obtain rfl := Entry.minted.inj hg₀
      exact ⟨_, if_pos rfl, Nat.le_refl _⟩
  · intro before hbefore
    rw [hm.floor]
    rcases mem_snoc.mp hbefore with hbefore | hbefore
    · exact h.floored before hbefore
    · cases hbefore
  · rw [hm.renewals, hm.floor]
    exact h.remembered
  · rw [Entry.shut_append, h.shut, hm.revoked]
    rfl
  · rw [Entry.gated_append, h.gated, h.shut, hopen]
    rfl
  · intro g₀ hg₀
    rw [hm.clientId]
    rcases mem_snoc.mp hg₀ with hg₀ | hg₀
    · exact h.client g₀ hg₀
    · obtain rfl := Entry.minted.inj hg₀
      exact hm.client

theorem hand (h : Logged k log) (hopen : k.revoked = false) (hfloor : k.floor < g.generation) :
    Logged k (log ++ [.handed g]) := by
  refine ⟨?_, ?_, ?_, h.remembered, ?_, ?_, ?_⟩
  · refine pairwise_append.mpr ⟨h.agrees, pairwise_singleton _ _, fun e he e' he' => ?_⟩
    rw [mem_singleton.mp he']
    cases e with
    | revoked before =>
      have := h.floored before he
      show before ≤ g.generation
      omega
    | minted _ | handed _ | reopened => trivial
  · intro g₀ hg₀
    rcases mem_snoc.mp hg₀ with hg₀ | hg₀
    · exact h.counted g₀ hg₀
    · cases hg₀
  · intro before hbefore
    rcases mem_snoc.mp hbefore with hbefore | hbefore
    · exact h.floored before hbefore
    · cases hbefore
  · rw [Entry.shut_append, h.shut]
    rfl
  · rw [Entry.gated_append, h.gated, h.shut, hopen]
    rfl
  · intro g₀ hg₀
    rcases mem_snoc.mp hg₀ with hg₀ | hg₀
    · exact h.client g₀ hg₀
    · cases hg₀

theorem revoke (h : Logged k log) : Logged k.revoke.1 (log ++ [.revoked k.revoke.2]) := by
  have habove : ∀ g, .minted g ∈ log → g.generation < k.revoke.2 := fun g hg => by
    obtain ⟨n, hn, hle⟩ := h.counted g hg
    have := generationOf_le_minted hn
    show g.generation < max k.minted k.floor + 1
    omega
  have hfloor : k.floor ≤ k.revoke.1.floor := by
    show k.floor ≤ max k.minted k.floor + 1 - 1
    omega
  refine ⟨?_, ?_, ?_, ?_, ?_, ?_, ?_⟩
  · refine pairwise_append.mpr ⟨h.agrees, pairwise_singleton _ _, fun e he e' he' => ?_⟩
    rw [mem_singleton.mp he']
    cases e with
    | minted g => exact habove g he
    | revoked _ | handed _ | reopened => trivial
  · intro g hg
    rcases mem_snoc.mp hg with hg | hg
    · exact h.counted g hg
    · cases hg
  · intro before hbefore
    rcases mem_snoc.mp hbefore with hbefore | hbefore
    · have := h.floored before hbefore
      omega
    · obtain rfl := Entry.revoked.inj hbefore
      exact Nat.le_refl _
  · intro session request grant hmem
    cases hmem
  · rw [Entry.shut_append]
    rfl
  · rw [Entry.gated_append, h.gated]
    rfl
  · intro g hg
    rcases mem_snoc.mp hg with hg | hg
    · exact h.client g hg
    · cases hg

theorem reopen (h : Logged k log) : Logged k.reopen (log ++ [.reopened]) := by
  refine ⟨?_, ?_, ?_, h.remembered, ?_, ?_, ?_⟩
  · refine pairwise_append.mpr ⟨h.agrees, pairwise_singleton _ _, fun e he e' he' => ?_⟩
    rw [mem_singleton.mp he']
    cases e <;> trivial
  · intro g hg
    rcases mem_snoc.mp hg with hg | hg
    · exact h.counted g hg
    · cases hg
  · intro before hbefore
    rcases mem_snoc.mp hbefore with hbefore | hbefore
    · exact h.floored before hbefore
    · cases hbefore
  · rw [Entry.shut_append]
    rfl
  · rw [Entry.gated_append, h.gated]
    rfl
  · intro g hg
    rcases mem_snoc.mp hg with hg | hg
    · exact h.client g hg
    · cases hg

theorem setRights (h : Logged k log) (rights : List AttachRight) :
    Logged (k.setRights rights) log :=
  ⟨h.agrees, fun g hg => by
    obtain ⟨n, hn, hle⟩ := h.counted g hg
    refine ⟨n, ?_, hle⟩
    rw [← hn]
    cases g.key <;> rfl, h.floored, h.remembered, h.shut, h.gated, h.client⟩

theorem remember (h : Logged k log) (session : SessionId) (request : RequestId)
    {grant : AttachGrant} (hfloor : k.floor < grant.grantGeneration) :
    Logged (k.remember session request grant) log := by
  refine ⟨h.agrees, fun g hg => ?_, h.floored, ?_, h.shut, h.gated, h.client⟩
  · obtain ⟨n, hn, hle⟩ := h.counted g hg
    refine ⟨n, ?_, hle⟩
    rw [← hn]
    cases g.key <;> rfl
  · intro session' request' grant' hmem
    have hlookup : (k.remember session request grant).renewals.lookup session' = _ :=
      lookup_insert _ _ _ _
    rw [hlookup] at hmem
    split at hmem
    · rw [getD_some] at hmem
      rcases mem_snoc.mp (mem_of_mem_drop hmem) with hmem | hmem
      · exact h.remembered session request' grant' hmem
      · obtain ⟨-, rfl⟩ := Prod.mk.inj hmem
        exact hfloor
    · exact h.remembered session' request' grant' hmem

end Logged

/-! ## What a call logs -/

def loggedTicket : Except Refusal Ticket → List Entry
  | .error _ => []
  | .ok t =>
    [.minted (.transport t.transportGrant), .minted (.attach t.attachGrant),
      .handed (.transport t.transportGrant), .handed (.attach t.attachGrant)]

def loggedTickets (rows : List (SessionId × Except Refusal Ticket)) : List Entry :=
  rows.flatMap fun row => loggedTicket row.2

def loggedRenewal (remembered : Bool) : Except Refusal AttachGrant → List Entry
  | .error _ => []
  | .ok grant =>
    (if remembered then [] else [.minted (.attach grant)]) ++ [.handed (.attach grant)]

namespace Logged

theorem ticket (h : Logged k log) (session : SessionId) (placement : Placement) (nonce : Nonce)
    (now : Nat) :
    Logged (k.ticket session placement nonce now).1
      (log ++ loggedTicket (k.ticket session placement nonce now).2) := by
  rcases ticket_cases k session placement nonce now with
    ⟨refusal, heq⟩ | ⟨mid, k', t, heq, hopen, htransport, hattach⟩
  · rw [heq]
    simpa [loggedTicket] using h
  · rw [heq]
    have hmid : mid.revoked = false := htransport.revoked.trans hopen
    have hlast : k'.revoked = false := hattach.revoked.trans hmid
    have hminted := (h.mint hopen htransport).mint hmid hattach
    have hfloor : k'.floor = k.floor := hattach.floor.trans htransport.floor
    have hfirst := hminted.hand (g := .transport t.transportGrant) hlast (by
      rw [hfloor, htransport.generation]; omega)
    have hsecond := hfirst.hand (g := .attach t.attachGrant) hlast (by
      rw [hfloor, hattach.generation, htransport.floor]; omega)
    simpa [loggedTicket] using hsecond

theorem tickets (placement : Placement) (now : Nat) :
    ∀ (ids : List (SessionId × Nonce)) {k : Keyring} {log : List Entry}, Logged k log →
      Logged (k.tickets placement now ids).1
        (log ++ loggedTickets (k.tickets placement now ids).2)
  | [], _, _, h => by simpa [loggedTickets, Keyring.tickets] using h
  | (session, nonce) :: rest, k, log, h => by
    have hrest := tickets placement now rest (h.ticket session placement nonce now)
    simpa [loggedTickets, Keyring.tickets, append_assoc] using hrest

theorem renew (h : Logged k log) (session : SessionId) (expect : Nat) (request : RequestId)
    (placement : Placement) (now : Nat) :
    Logged (k.renew session expect request placement now).1
      (log ++ loggedRenewal (k.remembered session request).isSome
        (k.renew session expect request placement now).2) := by
  rcases renew_cases k session expect request placement now with
    ⟨refusal, heq⟩ | ⟨hopen, ⟨grant, hremembered, heq⟩ | ⟨mid, grant, hremembered, heq, hmints⟩⟩
  · rw [heq]
    simpa [loggedRenewal] using h
  · rw [heq, hremembered]
    have hfloor : k.floor < grant.grantGeneration := by
      unfold Keyring.remembered at hremembered
      obtain ⟨memory, hmemory, hremembered⟩ := bind_eq_some_iff.mp hremembered
      obtain ⟨answer, hfind, rfl⟩ := map_eq_some_iff.mp hremembered
      refine h.remembered session answer.1 answer.2 ?_
      rw [hmemory, getD_some]
      exact List.mem_of_find?_eq_some hfind
    exact h.hand (g := .attach grant) hopen hfloor
  · rw [heq, hremembered]
    have hmid : mid.revoked = false := hmints.revoked.trans hopen
    have hfloor : mid.floor < grant.grantGeneration := by
      have hgen : grant.grantGeneration = _ := hmints.generation
      rw [hgen, hmints.floor]
      omega
    have hhanded := ((h.mint hopen hmints).remember session request hfloor).hand
      (g := .attach grant) hmid hfloor
    simpa [loggedRenewal] using hhanded

end Logged
end Keyring

/-! ## A cell beside the keyring -/

/-- A floor a cell received, and when by the cell's clock. -/
structure Floor where
  before : Nat
  receivedAt : Nat
  deriving DecidableEq, Repr

structure FloorRun where
  keyring : Keyring
  cell : TransportLedger
  log : List Entry
  /-- the floors the cell has yet to receive, in their order -/
  inFlight : List Nat
  received : List Floor
  /-- the latest instant of a prune -/
  prunedAt : Nat

namespace FloorRun

inductive Event where
  | tickets (sessions : List (SessionId × Nonce)) (placement : Placement) (now : Nat)
  | renew (session : SessionId) (expectGeneration : Nat) (request : RequestId)
      (placement : Placement) (now : Nat)
  | setRights (rights : List AttachRight)
  | revoke
  | reopen
  | receive (now : Nat)
  /-- the cell receives the floor of another client -/
  | otherFloor (client : ClientId) (before now : Nat)
  | commit (claims : TransportClaims) (channel : Channel) (now : Nat)
  | accept (client : ClientId) (session : SessionId) (generation now : Nat)
  | prune (now : Nat)

def next (s : FloorRun) : Event → Option FloorRun
  | .tickets sessions placement now =>
    let r := s.keyring.tickets placement now sessions
    some { s with keyring := r.1, log := s.log ++ Keyring.loggedTickets r.2 }
  | .renew session expect request placement now =>
    let r := s.keyring.renew session expect request placement now
    some { s with
      keyring := r.1
      log := s.log ++
        Keyring.loggedRenewal (s.keyring.remembered session request).isSome r.2 }
  | .setRights rights => some { s with keyring := s.keyring.setRights rights }
  | .revoke =>
    let r := s.keyring.revoke
    some { s with
      keyring := r.1
      log := s.log ++ [.revoked r.2]
      inFlight := s.inFlight ++ [r.2] }
  | .reopen => some { s with keyring := s.keyring.reopen, log := s.log ++ [.reopened] }
  | .receive now =>
    match s.inFlight with
    | [] => none
    | before :: rest => some { s with
        cell := s.cell.revokeClient s.keyring.clientId before now
        inFlight := rest
        received := s.received ++ [⟨before, now⟩] }
  | .otherFloor client before now =>
    if client = s.keyring.clientId then none
    else some { s with cell := s.cell.revokeClient client before now }
  | .commit claims channel now =>
    some { s with cell := s.cell.commitTransport claims channel now }
  | .accept client session generation now =>
    some { s with cell := (s.cell.acceptAttachGeneration client session generation now).1 }
  | .prune now =>
    some { s with cell := s.cell.prune now, prunedAt := max s.prunedAt now }

def machine (clientId : ClientId) (rights : List AttachRight) (skew lifetime : Nat) :
    Machine FloorRun Event where
  start :=
    { keyring := .new clientId rights
      cell := .new skew lifetime
      log := []
      inFlight := []
      received := []
      prunedAt := 0 }
  next := next

/-- The cell refuses every grant of the client at the generation. -/
def Refuses (cell : TransportLedger) (client : ClientId) (generation : Nat) : Prop :=
  (∀ session now, (cell.acceptAttachGeneration client session generation now).2 = false) ∧
    ∀ claims channel current, claims.clientId = client →
      claims.transportGrantGeneration = generation →
      ∃ refusal, cell.checkTransport claims channel current = .error refusal

theorem refuses_of_below {cell : TransportLedger} {client : ClientId} {generation : Nat}
    (h : cell.belowFloor client generation = true) : Refuses cell client generation := by
  constructor
  · intro session now
    rw [TransportLedger.acceptAttachGeneration, if_pos h]
  · rintro claims channel current rfl rfl
    unfold TransportLedger.checkTransport
    rw [h]
    split
    · exact ⟨_, rfl⟩
    · split <;> exact ⟨_, rfl⟩

def tombstone (cell : TransportLedger) : Nat := cell.maxGrantLifetimeMs + cell.maxClockSkewMs

variable {s : FloorRun}

/-- The floors of the log are those the cell received, then those in flight.  The cell
holds the highest it received, unless a floor at least as high has served its time. -/
structure Kept (s : FloorRun) : Prop where
  logged : Keyring.Logged s.keyring s.log
  floors : s.log.filterMap (fun e => match e with | .revoked before => some before | _ => none) =
    s.received.map Floor.before ++ s.inFlight
  marked : ∀ mark, s.cell.clientFloors.lookup s.keyring.clientId = some mark →
    ⟨mark.generation, mark.firstAcceptedAtMs⟩ ∈ s.received
  stands : ∀ f ∈ s.received,
    (∃ mark, s.cell.clientFloors.lookup s.keyring.clientId = some mark ∧
      f.before ≤ mark.generation) ∨
    ∃ f' ∈ s.received, f.before ≤ f'.before ∧ f'.receivedAt + tombstone s.cell ≤ s.prunedAt

theorem Kept.keyring (h : s.Kept) {k : Keyring} {es : List Entry}
    (hlogged : Keyring.Logged k (s.log ++ es)) (hclient : k.clientId = s.keyring.clientId)
    (hes : ∀ before, .revoked before ∉ es) :
    Kept { s with keyring := k, log := s.log ++ es } := by
  refine ⟨hlogged, ?_, by simpa only [hclient] using h.marked,
    by simpa only [hclient] using h.stands⟩
  have hnil : es.filterMap (fun e => match e with | .revoked before => some before | _ => none) =
      [] := by
    refine filterMap_eq_nil_iff.mpr fun e he => ?_
    cases e with
    | revoked before => exact absurd he (hes before)
    | _ => rfl
  rw [filterMap_append, hnil, append_nil]
  exact h.floors

theorem Kept.cell (h : s.Kept) {c : TransportLedger}
    (hfloor : c.clientFloors.lookup s.keyring.clientId =
      s.cell.clientFloors.lookup s.keyring.clientId)
    (hlimits : c.limits = s.cell.limits) : Kept { s with cell := c } := by
  have htombstone : tombstone c = tombstone s.cell := by
    simp only [TransportLedger.limits, GrantValidityLimits.mk.injEq] at hlimits
    simp only [tombstone, hlimits]
  refine ⟨h.logged, h.floors, by simpa only [hfloor] using h.marked, fun f hf => ?_⟩
  simpa only [hfloor, htombstone] using h.stands f hf

theorem Kept.receive (h : s.Kept) {before : Nat} {rest : List Nat}
    (hflight : s.inFlight = before :: rest) (now : Nat) :
    Kept { s with
      cell := s.cell.revokeClient s.keyring.clientId before now
      inFlight := rest
      received := s.received ++ [⟨before, now⟩] } := by
  have hlookup : (s.cell.revokeClient s.keyring.clientId before now).clientFloors.lookup
      s.keyring.clientId = some (HighWater.raised
        (s.cell.clientFloors.lookup s.keyring.clientId) ⟨before, now⟩) := by
    rw [TransportLedger.revokeClient, Watermarks.lookup_raise, if_pos rfl]
  refine ⟨h.logged, ?_, ?_, ?_⟩
  · rw [h.floors, hflight, map_append, append_assoc]
    rfl
  · intro mark hmark
    rw [hlookup] at hmark
    obtain rfl := some.inj hmark
    cases hold : s.cell.clientFloors.lookup s.keyring.clientId with
    | none => exact mem_append_right _ mem_cons_self
    | some old =>
      rw [HighWater.raised]
      dsimp only
      split
      · exact mem_append_right _ mem_cons_self
      · exact mem_append_left _ (h.marked old hold)
  · intro f hf
    rcases mem_snoc.mp hf with hf | hf
    · rcases h.stands f hf with ⟨mark, hmark, hle⟩ | ⟨f', hf', hle, htime⟩
      · refine .inl ⟨_, hlookup, Nat.le_trans hle ?_⟩
        rw [hmark]
        exact HighWater.raised_mono _
      · exact .inr ⟨f', mem_append_left _ hf', hle, htime⟩
    · rw [hf]
      exact .inl ⟨_, hlookup, HighWater.le_raised _ ⟨before, now⟩⟩

theorem Kept.prune (h : s.Kept) (now : Nat) :
    Kept { s with cell := s.cell.prune now, prunedAt := max s.prunedAt now } := by
  have hlookup : (s.cell.prune now).clientFloors.lookup s.keyring.clientId =
      (s.cell.clientFloors.lookup s.keyring.clientId).filter fun mark =>
        decide (now < mark.firstAcceptedAtMs + tombstone s.cell) :=
    Watermarks.lookup_prune _ _ _ _
  refine ⟨h.logged, h.floors, fun mark hmark => ?_, fun f hf => ?_⟩
  · rw [hlookup] at hmark
    exact h.marked mark (filter_eq_some_iff.mp hmark).1
  · rcases h.stands f hf with ⟨mark, hmark, hle⟩ | ⟨f', hf', hle, htime⟩
    · by_cases hkept : now < mark.firstAcceptedAtMs + tombstone s.cell
      · refine .inl ⟨mark, ?_, hle⟩
        rw [hlookup, hmark, filter_some_pos (by simpa using hkept)]
      · refine .inr ⟨⟨mark.generation, mark.firstAcceptedAtMs⟩, h.marked mark hmark, hle, ?_⟩
        show mark.firstAcceptedAtMs + tombstone s.cell ≤ max s.prunedAt now
        omega
    · refine .inr ⟨f', hf', hle, ?_⟩
      show f'.receivedAt + tombstone s.cell ≤ max s.prunedAt now
      omega

/-! ## Every event keeps both ledgers in step -/

theorem clientId_ticket (k : Keyring) (session : SessionId) (placement : Placement)
    (nonce : Nonce) (now : Nat) :
    (k.ticket session placement nonce now).1.clientId = k.clientId := by
  rcases Keyring.ticket_cases k session placement nonce now with
    ⟨refusal, heq⟩ | ⟨mid, k', t, heq, -, htransport, hattach⟩
  · rw [heq]
  · rw [heq]
    exact hattach.clientId.trans htransport.clientId

theorem clientId_tickets (placement : Placement) (now : Nat) :
    ∀ (ids : List (SessionId × Nonce)) (k : Keyring),
      (k.tickets placement now ids).1.clientId = k.clientId
  | [], _ => rfl
  | (session, nonce) :: rest, k =>
    (clientId_tickets placement now rest _).trans (clientId_ticket k session placement nonce now)

theorem clientId_renew (k : Keyring) (session : SessionId) (expect : Nat) (request : RequestId)
    (placement : Placement) (now : Nat) :
    (k.renew session expect request placement now).1.clientId = k.clientId := by
  rcases Keyring.renew_cases k session expect request placement now with
    ⟨refusal, heq⟩ | ⟨-, ⟨grant, -, heq⟩ | ⟨mid, grant, -, heq, hmints⟩⟩
  · rw [heq]
  · rw [heq]
  · rw [heq]
    exact hmints.clientId

theorem revoked_notMem_ticket (before : Nat) (r : Except Refusal Ticket) :
    .revoked before ∉ Keyring.loggedTicket r := by
  cases r <;> simp [Keyring.loggedTicket]

theorem revoked_notMem_renewal (before : Nat) (remembered : Bool)
    (r : Except Refusal AttachGrant) : .revoked before ∉ Keyring.loggedRenewal remembered r := by
  cases r <;> cases remembered <;> simp [Keyring.loggedRenewal]

theorem Kept.start (clientId : ClientId) (rights : List AttachRight) (skew lifetime : Nat) :
    (machine clientId rights skew lifetime).start.Kept :=
  ⟨.new clientId rights, rfl, fun mark h => (by cases h), fun f h => (by cases h)⟩

theorem Kept.next (h : s.Kept) {e : Event} {s' : FloorRun} (hs : s.next e = some s') :
    s'.Kept := by
  cases e with
  | tickets sessions placement now =>
    obtain rfl := some.inj hs
    refine h.keyring (h.logged.tickets placement now sessions) (clientId_tickets _ _ _ _) ?_
    intro before hmem
    obtain ⟨row, -, hrow⟩ := mem_flatMap.mp hmem
    exact revoked_notMem_ticket before row.2 hrow
  | renew session expect request placement now =>
    obtain rfl := some.inj hs
    exact h.keyring (h.logged.renew session expect request placement now)
      (clientId_renew _ _ _ _ _ _) fun before => revoked_notMem_renewal before _ _
  | setRights rights =>
    obtain rfl := some.inj hs
    exact ⟨h.logged.setRights rights, h.floors, h.marked, h.stands⟩
  | revoke =>
    obtain rfl := some.inj hs
    refine ⟨h.logged.revoke, ?_, h.marked, h.stands⟩
    rw [filterMap_append, h.floors, append_assoc]
    rfl
  | reopen =>
    obtain rfl := some.inj hs
    exact h.keyring h.logged.reopen rfl fun before hmem => by cases mem_singleton.mp hmem
  | receive now =>
    simp only [FloorRun.next] at hs
    split at hs
    · cases hs
    · next before rest hflight =>
      obtain rfl := some.inj hs
      exact h.receive hflight now
  | otherFloor client before now =>
    simp only [FloorRun.next] at hs
    split at hs
    · cases hs
    · next hother =>
      obtain rfl := some.inj hs
      refine h.cell ?_ rfl
      rw [TransportLedger.revokeClient, Watermarks.lookup_raise, if_neg (Ne.symm hother)]
  | commit claims channel now =>
    obtain rfl := some.inj hs
    exact h.cell rfl rfl
  | accept client session generation now =>
    obtain rfl := some.inj hs
    obtain ⟨hlimits, -, -, hfloors⟩ :=
      TransportLedger.acceptAttachGeneration_frame s.cell client session generation now
    exact h.cell (by rw [hfloors]) hlimits
  | prune now =>
    obtain rfl := some.inj hs
    exact h.prune now

theorem Kept.reachable {clientId : ClientId} {rights : List AttachRight} {skew lifetime : Nat}
    (h : (machine clientId rights skew lifetime).Reachable s) : s.Kept :=
  h.invariant (P := Kept) (.start _ _ _ _) fun _ _ _ hs hnext => hs.next hnext

theorem Kept.ahead (h : s.Kept) {e e' : Entry} (hahead : Ahead s.log e e') : e.Agrees e' := by
  have := h.logged.agrees.sublist hahead
  simpa using this

def generations (log : List Entry) (key : MintKey) : List Nat :=
  log.filterMap fun e =>
    match e with
    | .minted g => if g.key = key then some g.generation else none
    | _ => none

/-- The keyring and the cell agree on what a revoke ends. -/
structure Agree (s : FloorRun) : Prop where
  /-- a grant minted before a revoke whose floor the cell received is refused, until a
  prune drops the floor of a revoke that followed the grant after its time, when the
  grant is out of its validity window -/
  refused : ∀ g f, Ahead s.log (.minted g) (.revoked f.before) → f ∈ s.received →
    Refuses s.cell s.keyring.clientId g.generation ∨
    ∃ f' ∈ s.received, Ahead s.log (.minted g) (.revoked f'.before) ∧
      f'.receivedAt + tombstone s.cell ≤ s.prunedAt ∧
      (g.issuedAt ≤ f'.receivedAt → ∀ now, s.prunedAt ≤ now →
        s.cell.limits.checkValidity g.issuedAt g.expiresAt now ≠ .ok ())
  /-- a floor is at most the generations minted after its revoke -/
  above : ∀ g before, Ahead s.log (.revoked before) (.minted g) → before ≤ g.generation
  /-- a grant below the cell's floor was minted before the revoke of a received floor -/
  admitted : ∀ g, .minted g ∈ s.log → s.cell.belowFloor s.keyring.clientId g.generation = true →
    ∃ f ∈ s.received, Ahead s.log (.minted g) (.revoked f.before)
  gated : Entry.gated false s.log = true
  forgotten : ∀ g before, Ahead s.log (.minted g) (.revoked before) →
    ¬ Ahead s.log (.revoked before) (.handed g)
  increasing : ∀ key, (generations s.log key).Pairwise (· < ·)

theorem expired_after_tombstone {cell : TransportLedger} {issuedAt expiresAt at_ now : Nat}
    (hissued : issuedAt ≤ at_) (hnow : at_ + tombstone cell ≤ now) :
    cell.limits.checkValidity issuedAt expiresAt now ≠ .ok () := by
  intro hok
  obtain ⟨-, hlifetime, -, hlate⟩ := GrantValidityLimits.of_checkValidity hok
  have hdeadline := saturatingAdd_le expiresAt cell.limits.maxClockSkewMs
  simp only [TransportLedger.limits, GrantValidityLimits.deadline, tombstone] at *
  omega

theorem agree_of_reachable {clientId : ClientId} {rights : List AttachRight} {skew lifetime : Nat}
    (h : (machine clientId rights skew lifetime).Reachable s) : s.Agree := by
  have hs := Kept.reachable h
  have hlogged : ∀ f ∈ s.received, .revoked f.before ∈ s.log := by
    intro f hf
    have hmem : f.before ∈ s.received.map Floor.before ++ s.inFlight :=
      List.mem_append_left _ (List.mem_map_of_mem hf)
    rw [← hs.floors] at hmem
    obtain ⟨e, he, hsome⟩ := List.mem_filterMap.mp hmem
    cases e with
    | revoked before =>
      obtain rfl := Option.some.inj hsome
      exact he
    | _ => cases hsome
  refine ⟨?_, fun _ _ hahead => hs.ahead hahead, ?_, hs.logged.gated, ?_, ?_⟩
  · intro g f hahead hf
    have hbelow : g.generation < f.before := hs.ahead hahead
    rcases hs.stands f hf with ⟨mark, hmark, hle⟩ | ⟨f', hf', hle, htime⟩
    · refine .inl (refuses_of_below (Watermarks.below_iff.mpr ⟨mark, hmark, ?_⟩))
      omega
    · refine .inr ⟨f', hf', ?_, htime, fun hissued now hnow =>
        expired_after_tombstone hissued (Nat.le_trans htime hnow)⟩
      rcases Ahead.total hahead.left_mem (hlogged f' hf') (by simp) with hbefore | hafter
      · exact hbefore
      · have : f'.before ≤ g.generation := hs.ahead hafter
        omega
  · intro g hminted hbelow
    obtain ⟨mark, hmark, hlt⟩ := Watermarks.below_iff.mp hbelow
    have hreceived := hs.marked mark hmark
    refine ⟨_, hreceived, ?_⟩
    rcases Ahead.total hminted (hlogged _ hreceived) (by simp) with hbefore | hafter
    · exact hbefore
    · have : mark.generation ≤ g.generation := hs.ahead hafter
      omega
  · intro g before hminted hhanded
    have hlt : g.generation < before := hs.ahead hminted
    have hle : before ≤ g.generation := hs.ahead hhanded
    omega
  · intro key
    refine List.Pairwise.filterMap _ ?_ hs.logged.agrees
    intro e e' hagrees n hn n' hn'
    cases e with
    | minted g =>
      cases e' with
      | minted g' =>
        simp only at hn hn'
        split at hn
        · next hkey =>
          split at hn'
          · next hkey' =>
            obtain rfl := Option.some.inj hn
            obtain rfl := Option.some.inj hn'
            exact hagrees (hkey.trans hkey'.symm)
          · cases hn'
        · cases hn
      | _ => cases hn'
    | _ => cases hn

/-! ## A cell that forgets a floor -/

def onlyPlacement : Placement where
  cells := (∅ : Dict CellBootId CellRoute).insert "cell" ⟨"cell", 1⟩
  sessions := (∅ : Dict SessionId SessionRoute).insert "s1" ⟨"cell", none⟩

/-- Two grants below a floor and two above it, all four still known to the cell. -/
theorem agree_reopened :
    ∃ s : FloorRun, s.Agree ∧ s.cell.belowFloor "client" 1 = true ∧
      s.cell.belowFloor "client" 2 = false ∧
      generations s.log (.session "s1") = [1, 2] := by
  obtain ⟨s, hreach, hp⟩ := Machine.exists_of_run (M := machine "client" [.read] 5000 600000)
    (fun s => s.cell.belowFloor "client" 1 && !s.cell.belowFloor "client" 2 &&
      generations s.log (.session "s1") == [1, 2])
    [.tickets [("s1", "n1")] onlyPlacement 0, .revoke, .receive 10, .reopen,
      .tickets [("s1", "n2")] onlyPlacement 20] (by decide)
  simp only [Bool.and_eq_true, Bool.not_eq_true', beq_iff_eq] at hp
  exact ⟨s, agree_of_reachable hreach, hp.1.1, hp.1.2, hp.2⟩

def firstAttach : AttachGrant where
  audienceCellBootId := "cell"
  clientId := "client"
  sessionId := "s1"
  routeRevision := 1
  grantGeneration := 1
  rights := [.read]
  issuedAt := 0
  expiresAt := 120000
  leaseEpoch := none

/-- A prune drops a floor the cell received, and the grant it refused is accepted
again. -/
theorem floor_forgotten :
    ¬ ∀ s, (machine "client" [.read] 5000 600000).Reachable s →
      ∀ g f, Ahead s.log (.minted g) (.revoked f.before) → f ∈ s.received →
        Refuses s.cell s.keyring.clientId g.generation := by
  intro hall
  obtain ⟨s, hreach, hp⟩ := Machine.exists_of_run (M := machine "client" [.read] 5000 600000)
    (fun s => s.keyring.clientId == "client" && decide (⟨2, 10⟩ ∈ s.received) &&
      decide ([.minted (.attach firstAttach), .revoked 2].Sublist s.log) &&
      (s.cell.acceptAttachGeneration "client" "s1" 1 605010).2)
    [.tickets [("s1", "n1")] onlyPlacement 0, .revoke, .receive 10, .prune 605010] (by decide)
  simp only [Bool.and_eq_true, beq_iff_eq, decide_eq_true_eq] at hp
  obtain ⟨⟨⟨hclient, hreceived⟩, hahead⟩, haccepted⟩ := hp
  have hrefused := (hall s hreach (.attach firstAttach) ⟨2, 10⟩ hahead hreceived).1 "s1" 605010
  rw [hclient] at hrefused
  rw [show Grant.generation (.attach firstAttach) = 1 from rfl, haccepted] at hrefused
  cases hrefused

end FloorRun
end VibeField.Freeway
