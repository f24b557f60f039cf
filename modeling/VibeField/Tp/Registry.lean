import VibeField.Tp.Presentations

/-!
# Connection sets and their legs

The door's registry: the transport ledger and, for every connection set, the leg
that holds each channel.  A hello is verified, decided against the leg there and
the ledger, and an admitted one takes the channel.  The minter is the daemon's,
which signs each grant one generation above the last of its client and cell.

A run of the registry is a run of presentations, so what holds of those holds
here.
-/

namespace VibeField.Tp

structure LegEntry where
  connectionId : ConnectionId
  legGeneration : Nat
  transportGrantGeneration : Nat
  grantIssuedAt : Nat
  deriving DecidableEq, Repr

def LegEntry.currentLeg (l : LegEntry) : CurrentLeg where
  transportGrantGeneration := l.transportGrantGeneration
  grantIssuedAt := l.grantIssuedAt

structure ConnectionSet where
  clientId : ClientId
  legs : Dict Channel LegEntry
  nextLegGeneration : Dict Channel Nat

inductive HelloOutcome where
  | refused (refusal : HelloRefusal)
  | accepted (legGeneration : Nat) (superseded : Option LegEntry)
  deriving DecidableEq, Repr

structure Registry where
  ledger : TransportLedger
  sets : Dict ConnectionSetId ConnectionSet
  maxConnectionSets : Nat

namespace Registry

def leg (r : Registry) (set : ConnectionSetId) (channel : Channel) : Option LegEntry :=
  (r.sets.lookup set).bind fun s => s.legs.lookup channel

def verdict (r : Registry) (claims : TransportClaims) (channel : Channel) :
    Except TransportRefusal Admission :=
  if (r.sets.lookup claims.connectionSetId).isNone && r.sets.len ≥ r.maxConnectionSets then
    .error .capacity
  else
    r.ledger.checkTransport claims channel
      ((r.leg claims.connectionSetId channel).map LegEntry.currentLeg)

/-- Give the channel to the connection. -/
def seat (r : Registry) (claims : TransportClaims) (channel : Channel)
    (connectionId : ConnectionId) : Registry × Nat :=
  let set := (r.sets.lookup claims.connectionSetId).getD
    { clientId := claims.clientId, legs := ∅, nextLegGeneration := ∅ }
  let legGeneration := (set.nextLegGeneration.lookup channel).getD 0 + 1
  let entry : LegEntry :=
    { connectionId := connectionId
      legGeneration := legGeneration
      transportGrantGeneration := claims.transportGrantGeneration
      grantIssuedAt := claims.issuedAt }
  ({ r with
      sets := r.sets.insert claims.connectionSetId
        { set with
          legs := set.legs.insert channel entry
          nextLegGeneration := set.nextLegGeneration.insert channel legGeneration } },
    legGeneration)

def recordHello (r : Registry) (claims : TransportClaims) (channel : Channel)
    (connectionId : ConnectionId) (now : Nat) : Registry × Nat :=
  let ledger := (r.ledger.commitTransport claims channel now).prune now
  { r with ledger := ledger }.seat claims channel connectionId

def hello (v : GrantVerifier) (r : Registry) (grant : TransportClaims) (channel : Channel)
    (connectionId : ConnectionId) (now : Nat) : Registry × HelloOutcome :=
  match v.verifyTransport grant now with
  | .error failure => (r, .refused (.silent failure))
  | .ok claims =>
    match r.verdict claims channel with
    | .error refusal => (r, .refused (.structured refusal))
    | .ok _ =>
      let previous := r.leg claims.connectionSetId channel
      let (r, legGeneration) := r.recordHello claims channel connectionId now
      (r, .accepted legGeneration previous)

def deregister (r : Registry) (setId : ConnectionSetId) (channel : Channel)
    (connectionId : ConnectionId) : Registry :=
  match r.sets.lookup setId with
  | none => r
  | some set =>
    let mine := (set.legs.lookup channel).any fun l => l.connectionId == connectionId
    let legs := if mine then set.legs.erase channel else set.legs
    { r with
      sets :=
        if legs.len = 0 then r.sets.erase setId
        else r.sets.insert setId { set with legs := legs } }

@[simp]
theorem ledger_seat (r : Registry) (claims : TransportClaims) (channel : Channel)
    (connectionId : ConnectionId) : (r.seat claims channel connectionId).1.ledger = r.ledger := rfl

@[simp]
theorem ledger_recordHello (r : Registry) (claims : TransportClaims) (channel : Channel)
    (connectionId : ConnectionId) (now : Nat) :
    (r.recordHello claims channel connectionId now).1.ledger =
      (r.ledger.commitTransport claims channel now).prune now := rfl

@[simp]
theorem ledger_deregister (r : Registry) (setId : ConnectionSetId) (channel : Channel)
    (connectionId : ConnectionId) :
    (r.deregister setId channel connectionId).ledger = r.ledger := by
  unfold deregister
  split <;> rfl

theorem leg_seat (r : Registry) (claims : TransportClaims) (channel : Channel)
    (connectionId : ConnectionId) :
    (r.seat claims channel connectionId).1.leg claims.connectionSetId channel =
      some
        { connectionId := connectionId
          legGeneration := (r.seat claims channel connectionId).2
          transportGrantGeneration := claims.transportGrantGeneration
          grantIssuedAt := claims.issuedAt } := by
  simp only [leg, seat, Dict.lookup_insert, if_pos, Option.bind_some]

theorem verdict_of_leg {r : Registry} {claims : TransportClaims} {channel : Channel}
    {current : LegEntry} (h : r.leg claims.connectionSetId channel = some current) :
    r.verdict claims channel =
      r.ledger.checkTransport claims channel (some current.currentLeg) := by
  have hset : (r.sets.lookup claims.connectionSetId).isNone = false := by
    cases hs : r.sets.lookup claims.connectionSetId with
    | none =>
      rw [leg, hs] at h
      cases h
    | some set => rfl
  rw [verdict, hset, h]
  rfl

end Registry

/-! ## The daemon's minter -/

def transportGrantTtlMs : Nat := 60000
def maxConnectionSets : Nat := 256

def connectionSetIdFor (clientId : ClientId) (cellBootId : CellBootId) : ConnectionSetId :=
  clientId ++ "@" ++ cellBootId

structure TerminalGrantMinter where
  transportGenerations : Dict (ClientId × CellBootId) Nat

def TerminalGrantMinter.mintTransport (m : TerminalGrantMinter) (cellBootId : CellBootId)
    (clientId : ClientId) (issuedAt : Nat) (nonce : Nonce) :
    TerminalGrantMinter × TransportClaims :=
  let generation := (m.transportGenerations.lookup (clientId, cellBootId)).getD 0 + 1
  ({ transportGenerations := m.transportGenerations.insert (clientId, cellBootId) generation },
    { audienceCellBootId := cellBootId
      clientId := clientId
      connectionSetId := connectionSetIdFor clientId cellBootId
      allowedChannels := [.control, .frames]
      transportGrantGeneration := generation
      issuedAt := issuedAt
      expiresAt := issuedAt + transportGrantTtlMs
      nonce := nonce })

theorem connectionSetIdFor_inj {a b : ClientId} {cellBootId : CellBootId}
    (h : connectionSetIdFor a cellBootId = connectionSetIdFor b cellBootId) : a = b := by
  have h' := (String.append_left_inj _).mp h
  exact (String.append_left_inj _).mp h'

/-! ## The cell and its clients -/

/-- A daemon's minter, a cell's registry, and the history of both. -/
structure Cell where
  registry : Registry
  minter : TerminalGrantMinter
  now : Nat
  minted : List TransportClaims
  admitted : List Presented

inductive CellOp where
  | mint (cellBootId : CellBootId) (clientId : ClientId) (issuedAt : Nat) (nonce : Nonce)
  | hello (grant : TransportClaims) (channel : Channel) (connectionId : ConnectionId)
  | legClosed (setId : ConnectionSetId) (channel : Channel) (connectionId : ConnectionId)
  | revokeClient (clientId : ClientId) (beforeGeneration : Nat)
  | acceptAttach (clientId : ClientId) (sessionId : SessionId) (grantGeneration : Nat)
  deriving DecidableEq, Repr

namespace Cell

def start (v : GrantVerifier) : Cell where
  registry :=
    { ledger := .new v.limits.maxClockSkewMs v.limits.maxGrantLifetimeMs
      sets := ∅
      maxConnectionSets := maxConnectionSets }
  minter := { transportGenerations := ∅ }
  now := 0
  minted := []
  admitted := []

def apply (v : GrantVerifier) (s : Cell) (now : Nat) : CellOp → Cell
  | .mint cellBootId clientId issuedAt nonce =>
    let (minter, claims) := s.minter.mintTransport cellBootId clientId issuedAt nonce
    { s with now := now, minter := minter, minted := claims :: s.minted }
  | .hello grant channel connectionId =>
    match s.registry.hello v grant channel connectionId now with
    | (registry, .refused _) => { s with now := now, registry := registry }
    | (registry, .accepted _ _) =>
      { s with
        now := now
        registry := registry
        admitted := { claims := grant, channel := channel } :: s.admitted }
  | .legClosed setId channel connectionId =>
    { s with now := now, registry := s.registry.deregister setId channel connectionId }
  | .revokeClient clientId generation =>
    { s with
      now := now
      registry :=
        { s.registry with ledger := s.registry.ledger.revokeClient clientId generation now } }
  | .acceptAttach clientId sessionId generation =>
    { s with
      now := now
      registry :=
        { s.registry with
          ledger := (s.registry.ledger.acceptAttachGeneration clientId sessionId generation
            now).1 } }

def enabled (s : Cell) (e : Nat × CellOp) : Bool :=
  s.now ≤ e.1 &&
    match e.2 with
    | .hello grant _ _ => s.minted.contains grant
    | _ => true

def machine (v : GrantVerifier) : Machine Cell (Nat × CellOp) where
  start := start v
  next s e := if s.enabled e then some (s.apply v e.1 e.2) else none

variable {v : GrantVerifier}

theorem of_next {s s' : Cell} {e : Nat × CellOp}
    (h : (machine v).next s e = some s') :
    s.now ≤ e.1 ∧ s' = s.apply v e.1 e.2 ∧
      ∀ grant channel connectionId, e.2 = .hello grant channel connectionId → grant ∈ s.minted := by
  simp only [machine] at h
  split at h
  · next hen =>
    obtain ⟨hnow, hop⟩ := Bool.and_eq_true_iff.mp hen
    refine ⟨of_decide_eq_true hnow, by injection h with h; exact h.symm, ?_⟩
    intro grant channel connectionId he
    rw [he] at hop
    simpa using hop
  · cases h

/-! ## A run of the registry is a run of presentations -/

def presentations (s : Cell) : Presentations where
  ledger := s.registry.ledger
  now := s.now
  minted := s.minted
  admitted := s.admitted

theorem hello_cases (v : GrantVerifier) (r : Registry) (grant : TransportClaims)
    (channel : Channel) (connectionId : ConnectionId) (now : Nat) :
    (∃ refusal, r.hello v grant channel connectionId now = (r, .refused refusal)) ∨
    r.ledger.present v grant channel
        ((r.leg grant.connectionSetId channel).map LegEntry.currentLeg) now =
          .ok (r.ledger.commitTransport grant channel now) ∧
      r.hello v grant channel connectionId now =
        ((r.recordHello grant channel connectionId now).1,
          .accepted (r.recordHello grant channel connectionId now).2
            (r.leg grant.connectionSetId channel)) := by
  cases hverify : v.verifyTransport grant now with
  | error failure => exact .inl ⟨.silent failure, by simp only [Registry.hello, hverify]⟩
  | ok claims =>
    obtain ⟨rfl, -⟩ := GrantVerifier.of_verifyTransport hverify
    cases hverdict : r.verdict claims channel with
    | error refusal =>
      exact .inl ⟨.structured refusal, by simp only [Registry.hello, hverify, hverdict]⟩
    | ok admission =>
      right
      have hcheck : r.ledger.checkTransport claims channel
          ((r.leg claims.connectionSetId channel).map LegEntry.currentLeg) = .ok admission := by
        unfold Registry.verdict at hverdict
        split at hverdict
        · cases hverdict
        · exact hverdict
      exact ⟨by simp only [TransportLedger.present, hverify, hcheck],
        by simp only [Registry.hello, hverify, hverdict]⟩

theorem presentations_apply {s : Cell} {now : Nat} (hnow : s.now ≤ now)
    (op : CellOp) (h : (Presentations.machine v).Reachable s.presentations) :
    (Presentations.machine v).Reachable (s.apply v now op).presentations := by
  have hone : ∀ op', (Presentations.machine v).Reachable
      (s.presentations.apply v now op') := fun op' =>
    h.next (e := (now, op')) (if_neg (Nat.not_lt.mpr hnow))
  cases op with
  | mint cellBootId clientId issuedAt nonce =>
    exact hone (.mint (s.minter.mintTransport cellBootId clientId issuedAt nonce).2)
  | legClosed setId channel connectionId =>
    have hsame : (s.apply v now (.legClosed setId channel connectionId)).presentations =
        s.presentations.apply v now .tick := by
      simp only [presentations, apply, Presentations.apply, Registry.ledger_deregister]
    rw [hsame]
    exact hone .tick
  | revokeClient clientId generation => exact hone (.revokeClient clientId generation)
  | acceptAttach clientId sessionId generation =>
    exact hone (.acceptAttach clientId sessionId generation)
  | hello grant channel connectionId =>
    rcases hello_cases v s.registry grant channel connectionId now with
      ⟨refusal, hr⟩ | ⟨hpresent, hr⟩
    · have hsame : (s.apply v now (.hello grant channel connectionId)).presentations =
          s.presentations.apply v now .tick := by
        simp only [presentations, apply, Presentations.apply, hr]
      rw [hsame]
      exact hone .tick
    · have hp := hone (.present grant channel
        ((s.registry.leg grant.connectionSetId channel).map LegEntry.currentLeg))
      have hsame : (s.apply v now (.hello grant channel connectionId)).presentations =
          (s.presentations.apply v now (.present grant channel
            ((s.registry.leg grant.connectionSetId channel).map LegEntry.currentLeg))).apply v now
              .prune := by
        simp only [presentations, apply, Presentations.apply, hr, hpresent,
          Registry.ledger_recordHello]
      rw [hsame]
      exact hp.next (e := (now, .prune))
        (if_neg (by rw [Presentations.now_apply]; exact Nat.lt_irrefl _))

theorem presentations_reachable {s : Cell} (h : (machine v).Reachable s) :
    (Presentations.machine v).Reachable s.presentations := by
  refine Machine.Reachable.invariant
    (M := machine v) (P := fun s => (Presentations.machine v).Reachable s.presentations)
    Machine.Reaches.start ?_ h
  intro s e s' hs hnext
  obtain ⟨hnow, rfl, -⟩ := of_next hnext
  exact presentations_apply hnow e.2 hs

end Cell
end VibeField.Tp
