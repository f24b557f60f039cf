import VibeField.Base.Machine
import VibeField.Tp.Ledger

/-!
# Presentations of transport grants

An issuer signs grants, clients present them on a channel, and the cell's ledger
admits or refuses them at a clock that never runs backwards.  The leg that holds
the channel is whatever the presentation finds there.  Every admission is kept in
a history the ledger does not read.

A grant is one-shot per channel.  The ledger keeps a consumed `(nonce, channel)`
pair until the instant from which the verifier refuses its grant, so a pair the
ledger has forgotten belongs to a grant no presentation can revive.
-/

namespace VibeField.Tp

open List

/-- A refusal of a hello: without a body, or with a structured code. -/
inductive HelloRefusal where
  | silent (failure : PreAuthFailure)
  | structured (refusal : TransportRefusal)
  deriving DecidableEq, Repr

def TransportLedger.present (v : GrantVerifier) (l : TransportLedger) (grant : TransportClaims)
    (channel : Channel) (current : Option CurrentLeg) (now : Nat) :
    Except HelloRefusal TransportLedger :=
  match v.verifyTransport grant now with
  | .error failure => .error (.silent failure)
  | .ok claims =>
    match l.checkTransport claims channel current with
    | .error refusal => .error (.structured refusal)
    | .ok _ => .ok (l.commitTransport claims channel now)

/-- An admitted presentation. -/
structure Presented where
  claims : TransportClaims
  channel : Channel
  deriving DecidableEq, Repr

structure Presentations where
  ledger : TransportLedger
  now : Nat
  /-- Every grant signed so far, newest first. -/
  minted : List TransportClaims
  /-- Every admission so far, newest first. -/
  admitted : List Presented

inductive PresentationOp where
  | tick
  | mint (claims : TransportClaims)
  | present (claims : TransportClaims) (channel : Channel) (current : Option CurrentLeg)
  | prune
  | revokeClient (clientId : ClientId) (beforeGeneration : Nat)
  | acceptAttach (clientId : ClientId) (sessionId : SessionId) (grantGeneration : Nat)
  deriving DecidableEq, Repr

namespace Sample

def verifier : GrantVerifier where
  cellBootId := "boot"
  limits := .default

def grant (generation issuedAt : Nat) : TransportClaims where
  audienceCellBootId := "boot"
  clientId := "win:1"
  connectionSetId := "win:1@boot"
  allowedChannels := [.control, .frames]
  transportGrantGeneration := generation
  issuedAt := issuedAt
  expiresAt := issuedAt + maxGrantLifetimeMs
  nonce := if generation = 1 then "n1" else "n2"

end Sample

namespace Presentations

def start (v : GrantVerifier) : Presentations where
  ledger := .new v.limits.maxClockSkewMs v.limits.maxGrantLifetimeMs
  now := 0
  minted := []
  admitted := []

def apply (v : GrantVerifier) (s : Presentations) (now : Nat) : PresentationOp → Presentations
  | .tick => { s with now := now }
  | .mint claims => { s with now := now, minted := claims :: s.minted }
  | .present claims channel current =>
    match s.ledger.present v claims channel current now with
    | .error _ => { s with now := now }
    | .ok ledger =>
      { s with
        now := now
        ledger := ledger
        admitted := { claims := claims, channel := channel } :: s.admitted }
  | .prune => { s with now := now, ledger := s.ledger.prune now }
  | .revokeClient clientId generation =>
    { s with now := now, ledger := s.ledger.revokeClient clientId generation now }
  | .acceptAttach clientId sessionId generation =>
    { s with
      now := now
      ledger := (s.ledger.acceptAttachGeneration clientId sessionId generation now).1 }

def machine (v : GrantVerifier) : Machine Presentations (Nat × PresentationOp) where
  start := start v
  next s e := if e.1 < s.now then none else some (s.apply v e.1 e.2)

variable {a : Presented} {now : Nat} {s : Presentations} {v : GrantVerifier}

theorem of_next {s s' : Presentations} {e : Nat × PresentationOp}
    (h : (machine v).next s e = some s') : s.now ≤ e.1 ∧ s' = s.apply v e.1 e.2 := by
  simp only [machine] at h
  split at h
  · cases h
  · next hle => exact ⟨Nat.le_of_not_lt hle, by injection h with h; exact h.symm⟩

theorem of_present {l l' : TransportLedger} {claims : TransportClaims} {channel : Channel}
    {current : Option CurrentLeg} (h : l.present v claims channel current now = .ok l') :
    (claims.audienceCellBootId = v.cellBootId ∧
      v.limits.checkValidity claims.issuedAt claims.expiresAt now = .ok ()) ∧
      (∃ admission, l.checkTransport claims channel current = .ok admission) ∧
      l' = l.commitTransport claims channel now := by
  unfold TransportLedger.present at h
  split at h
  · cases h
  · next verified hverify =>
    obtain ⟨rfl, hvalid⟩ := GrantVerifier.of_verifyTransport hverify
    split at h
    · cases h
    · next admission hcheck =>
      injection h with h
      exact ⟨hvalid, ⟨admission, hcheck⟩, h.symm⟩

@[simp]
theorem now_apply (v : GrantVerifier) (s : Presentations) (now : Nat) (op : PresentationOp) :
    (s.apply v now op).now = now := by
  cases op with
  | present claims channel current => simp only [apply]; split <;> rfl
  | _ => rfl

theorem limits_of_reachable (h : (machine v).Reachable s) : s.ledger.limits = v.limits := by
  refine h.invariant (P := fun s => s.ledger.limits = v.limits) rfl ?_
  intro s e s' hs hnext
  obtain ⟨-, rfl⟩ := of_next hnext
  cases hop : e.2 with
  | tick => exact hs
  | mint claims => exact hs
  | present claims channel current =>
    simp only [apply]
    split
    · exact hs
    · next l' hpresent =>
      obtain ⟨-, -, rfl⟩ := of_present hpresent
      exact hs
  | prune => exact hs
  | revokeClient clientId generation => exact hs
  | acceptAttach clientId sessionId generation =>
    exact (TransportLedger.acceptAttachGeneration_frame _ _ _ _ _).1.trans hs

/-! ## One admission per grant and channel -/

/-- The ledger remembers the pair of an admission, or its grant can no longer
pass the validity check. -/
def Consumed (v : GrantVerifier) (s : Presentations) (a : Presented) : Prop :=
  s.ledger.nonces.lookup (a.claims.nonce, a.channel) = some (v.limits.deadline a.claims.expiresAt) ∨
    v.limits.deadline a.claims.expiresAt ≤ s.now

structure Spent (v : GrantVerifier) (s : Presentations) : Prop where
  consumed : ∀ a ∈ s.admitted, Consumed v s a
  once : s.admitted.Nodup

theorem Consumed.refused (h : Consumed v s a) (hnow : s.now ≤ now) (current : Option CurrentLeg) :
    ∀ l', s.ledger.present v a.claims a.channel current now ≠ .ok l' := by
  intro l' hok
  obtain ⟨⟨-, hvalid⟩, ⟨admission, hcheck⟩, -⟩ := of_present hok
  cases h with
  | inl hkept =>
    have hfree := (TransportLedger.of_checkTransport hcheck).2
    rw [hkept] at hfree
    cases hfree
  | inr hlate =>
    exact GrantValidityLimits.checkValidity_of_deadline (Nat.le_trans hlate hnow) hvalid

theorem Consumed.of_same_nonces {s s' : Presentations} (h : Consumed v s a)
    (hn : s'.ledger.nonces = s.ledger.nonces) (hnow : s.now ≤ s'.now) : Consumed v s' a :=
  h.imp (fun hk => by rw [hn]; exact hk) fun hd => Nat.le_trans hd hnow

theorem Consumed.commit (h : Consumed v s a) {claims : TransportClaims} {channel : Channel}
    (hnow : s.now ≤ now) (hfree : s.ledger.nonces.lookup (claims.nonce, channel) = none)
    (admitted : List Presented) :
    Consumed v { s with
      now := now
      ledger := s.ledger.commitTransport claims channel now
      admitted := admitted } a := by
  cases h with
  | inr hlate => exact .inr (Nat.le_trans hlate hnow)
  | inl hkept =>
    left
    have hne : (a.claims.nonce, a.channel) ≠ (claims.nonce, channel) := fun he => by
      rw [he, hfree] at hkept
      cases hkept
    rw [TransportLedger.lookup_nonces_commit, if_neg hne]
    exact hkept

theorem Consumed.prune (h : Consumed v s a) (hnow : s.now ≤ now) :
    Consumed v { s with now := now, ledger := s.ledger.prune now } a := by
  cases h with
  | inr hlate => exact .inr (Nat.le_trans hlate hnow)
  | inl hkept =>
    by_cases hd : now < v.limits.deadline a.claims.expiresAt
    · left
      rw [TransportLedger.lookup_nonces_prune, hkept]
      simp [hd]
    · exact .inr (Nat.le_of_not_lt hd)

theorem Spent.apply (h : Spent v s) (hlimits : s.ledger.limits = v.limits) (hnow : s.now ≤ now)
    (op : PresentationOp) : Spent v (s.apply v now op) := by
  cases op with
  | tick => exact ⟨fun a ha => (h.consumed a ha).of_same_nonces rfl hnow, h.once⟩
  | mint claims => exact ⟨fun a ha => (h.consumed a ha).of_same_nonces rfl hnow, h.once⟩
  | prune => exact ⟨fun a ha => (h.consumed a ha).prune hnow, h.once⟩
  | revokeClient clientId generation =>
    exact ⟨fun a ha => (h.consumed a ha).of_same_nonces rfl hnow, h.once⟩
  | acceptAttach clientId sessionId generation =>
    have hframe := TransportLedger.acceptAttachGeneration_frame s.ledger clientId sessionId
      generation now
    exact ⟨fun a ha => (h.consumed a ha).of_same_nonces hframe.2.2.1 hnow, h.once⟩
  | present claims channel current =>
    simp only [Presentations.apply]
    split
    · exact ⟨fun a ha => (h.consumed a ha).of_same_nonces rfl hnow, h.once⟩
    · next l' hpresent =>
      obtain ⟨-, ⟨admission, hcheck⟩, rfl⟩ := of_present hpresent
      have hfree := (TransportLedger.of_checkTransport hcheck).2
      refine ⟨fun a ha => ?_, ?_⟩
      · rcases mem_cons.mp ha with rfl | ha
        · left
          rw [TransportLedger.lookup_nonces_commit, if_pos rfl, hlimits]
        · exact (h.consumed a ha).commit hnow hfree _
      · refine nodup_cons.mpr ⟨fun hmem => ?_, h.once⟩
        exact (h.consumed _ hmem).refused hnow current _ hpresent

theorem spent_of_reachable (h : (machine v).Reachable s) : Spent v s := by
  refine Machine.Reaches.invariant_of (P := Spent v) 
    ⟨fun a ha => absurd ha not_mem_nil, nodup_nil⟩ ?_ h
  intro s e s' hr hs _ hnext
  obtain ⟨hnow, rfl⟩ := of_next hnext
  exact hs.apply (limits_of_reachable hr.reachable) hnow e.2

/-- Presenting a grant is one-shot per channel: no admission is made twice, a
pair is never admitted again unless another grant bears the same nonce, a
presentation of an admitted grant is refused from then on (by the validity window
alone, once the ledger has forgotten the pair), and a refused presentation
consumes nothing. -/
structure OneShot (v : GrantVerifier) (s : Presentations) : Prop where
  once : s.admitted.Nodup
  pairs : (∀ a ∈ s.admitted, ∀ b ∈ s.admitted,
      a.claims.nonce = b.claims.nonce → a.claims = b.claims) →
    (s.admitted.map fun a => (a.claims.nonce, a.channel)).Nodup
  refused : ∀ a ∈ s.admitted, ∀ now, s.now ≤ now → ∀ current,
    ∃ refusal, s.ledger.present v a.claims a.channel current now = .error refusal
  late : ∀ a ∈ s.admitted, s.ledger.nonces.lookup (a.claims.nonce, a.channel) = none →
    ∀ now, s.now ≤ now →
      v.limits.checkValidity a.claims.issuedAt a.claims.expiresAt now ≠ .ok ()
  unchanged : ∀ claims channel current now refusal,
    s.ledger.present v claims channel current now = .error refusal →
      s.apply v now (.present claims channel current) = { s with now := now }

theorem oneShot {v : GrantVerifier} {s : Presentations} (h : (machine v).Reachable s) :
    OneShot v s := by
  have hspent := spent_of_reachable h
  refine ⟨hspent.once, fun hinj => ?_, fun a ha now hnow current => ?_,
    fun a ha hnone now hnow => ?_, fun claims channel current now refusal hrefused => ?_⟩
  · refine (List.nodup_map_iff_inj_on hspent.once).mpr ?_
    intro a ha b hb he
    obtain ⟨hnonce, hchannel⟩ := Prod.mk.inj he
    have hclaims := hinj a ha b hb hnonce
    cases a
    cases b
    simp_all only
  · cases hp : s.ledger.present v a.claims a.channel current now with
    | error refusal => exact ⟨refusal, rfl⟩
    | ok l' => exact absurd hp ((hspent.consumed a ha).refused hnow current l')
  · rcases hspent.consumed a ha with hkept | hlate
    · rw [hnone] at hkept
      cases hkept
    · exact GrantValidityLimits.checkValidity_of_deadline (Nat.le_trans hlate hnow)
  · simp only [apply, hrefused]

/-- One grant establishes both channels, and its replay on the first is refused. -/
theorem oneShot_both_channels :
    ∃ s, (machine Sample.verifier).Reachable s ∧
      s.admitted = [⟨Sample.grant 1 1000, .frames⟩, ⟨Sample.grant 1 1000, .control⟩] ∧
      OneShot Sample.verifier s := by
  obtain ⟨s, hreach, hp⟩ := Machine.exists_of_run (M := machine Sample.verifier)
    (fun s => decide (s.admitted =
      [⟨Sample.grant 1 1000, .frames⟩, ⟨Sample.grant 1 1000, .control⟩]))
    [(1000, .mint (Sample.grant 1 1000)), (1100, .present (Sample.grant 1 1000) .control none),
      (1200, .present (Sample.grant 1 1000) .frames none),
      (1300, .present (Sample.grant 1 1000) .control none)] (by decide)
  exact ⟨s, hreach, of_decide_eq_true hp, oneShot hreach⟩

/-! ## What a pruned ledger remembers -/

/-- The ledger remembers pairs of admissions only. -/
def Remembers (v : GrantVerifier) (s : Presentations) : Prop :=
  ∀ key keepUntil, s.ledger.nonces.lookup key = some keepUntil →
    ∃ a ∈ s.admitted, (a.claims.nonce, a.channel) = key ∧
      keepUntil = v.limits.deadline a.claims.expiresAt

theorem Remembers.apply (h : Remembers v s) (hlimits : s.ledger.limits = v.limits) (now : Nat)
    (op : PresentationOp) : Remembers v (s.apply v now op) := by
  intro key keepUntil hkept
  cases op with
  | tick => exact h key keepUntil hkept
  | mint claims => exact h key keepUntil hkept
  | revokeClient clientId generation => exact h key keepUntil hkept
  | acceptAttach clientId sessionId generation =>
    obtain ⟨-, -, hnonces, -⟩ := TransportLedger.acceptAttachGeneration_frame s.ledger clientId
      sessionId generation now
    exact h key keepUntil (hnonces ▸ hkept)
  | prune =>
    have hkept : (s.ledger.prune now).nonces.lookup key = some keepUntil := hkept
    rw [TransportLedger.lookup_nonces_prune] at hkept
    exact h key keepUntil (Option.filter_eq_some_iff.mp hkept).1
  | present claims channel current =>
    simp only [Presentations.apply] at hkept ⊢
    split at hkept
    · next hrefused => exact h key keepUntil hkept
    · next l' hpresent =>
      obtain ⟨-, -, rfl⟩ := of_present hpresent
      rw [TransportLedger.lookup_nonces_commit, hlimits] at hkept
      split at hkept
      · next hkey =>
        exact ⟨_, mem_cons_self, hkey.symm, (Option.some.inj hkept).symm⟩
      · obtain ⟨a, ha, hold⟩ := h key keepUntil hkept
        exact ⟨a, mem_cons_of_mem _ ha, hold⟩

/-- A pruned ledger remembers a pair exactly while a grant that was admitted with it may still
pass the validity window. -/
theorem remembered_iff (h : (machine v).Reachable s) (hnow : s.now ≤ now) (nonce : Nonce)
    (channel : Channel) : ((s.ledger.prune now).nonces.lookup (nonce, channel)).isSome ↔
      ∃ a ∈ s.admitted, a.claims.nonce = nonce ∧ a.channel = channel ∧
        now < v.limits.deadline a.claims.expiresAt := by
  have hremembers : Remembers v s := by
    refine Machine.Reaches.invariant_of (P := Remembers v) (fun _ _ hkept => by cases hkept) ?_ h
    intro s e s' hr hs _ hnext
    obtain ⟨-, rfl⟩ := of_next hnext
    exact hs.apply (limits_of_reachable hr.reachable) e.1 e.2
  rw [TransportLedger.lookup_nonces_prune]
  constructor
  · intro hsome
    obtain ⟨keepUntil, hkept⟩ := Option.isSome_iff_exists.mp hsome
    obtain ⟨hkept, hlive⟩ := Option.filter_eq_some_iff.mp hkept
    obtain ⟨a, ha, hkey, rfl⟩ := hremembers _ _ hkept
    obtain ⟨rfl, rfl⟩ := Prod.mk.inj hkey
    exact ⟨a, ha, rfl, rfl, of_decide_eq_true hlive⟩
  · rintro ⟨a, ha, rfl, rfl, hlive⟩
    rcases (spent_of_reachable h).consumed a ha with hkept | hlate
    · rw [hkept]
      simp [hlive]
    · omega

theorem remembered_iff_one : ∃ s, (machine Sample.verifier).Reachable s ∧
    s.admitted = [⟨Sample.grant 1 1000, .control⟩] ∧
      ((s.ledger.prune 1100).nonces.lookup ("n1", .control)).isSome := by
  obtain ⟨s, hreach, hp⟩ := Machine.exists_of_run (M := machine Sample.verifier)
    (fun s => decide (s.now = 1100 ∧ s.admitted = [⟨Sample.grant 1 1000, .control⟩]))
    [(1000, .mint (Sample.grant 1 1000)), (1100, .present (Sample.grant 1 1000) .control none)]
    (by decide)
  obtain ⟨hnow, hadmitted⟩ := of_decide_eq_true hp
  refine ⟨s, hreach, hadmitted, (remembered_iff hreach (Nat.le_of_eq hnow) "n1" .control).mpr
    ⟨_, hadmitted ▸ mem_cons_self, rfl, rfl, by decide⟩⟩

end Presentations
end VibeField.Tp
