import VibeField.Tp.Presentations

/-!
# No rollback of a connection set's generation

Once a generation of a set is admitted, a lower one should never be again.  The
set's mark refuses it while the ledger keeps the mark, and the validity window is
to refuse it from then on.  The tombstone time counts one skew, from the cell's
clock, and a grant below the mark may outlive it: its issuer's clock may lead by
one skew, and the verifier honours it for one skew past its expiry.
-/

namespace VibeField.Tp.Presentations

open List

/-- The issuer raises a set's generation before each grant, and its clock leads
the cell's by at most the skew.  What is presented is what it signed. -/
def Issued (v : GrantVerifier) (s : Presentations) (e : Nat × PresentationOp) : Prop :=
  match e.2 with
  | .mint claims =>
    (∀ g ∈ s.minted, g.connectionSetId = claims.connectionSetId →
      g.transportGrantGeneration < claims.transportGrantGeneration) ∧
    claims.issuedAt ≤ e.1 + v.limits.maxClockSkewMs
  | .present claims _ _ => claims ∈ s.minted
  | _ => True

instance (v : GrantVerifier) (s : Presentations) (e : Nat × PresentationOp) :
    Decidable (Issued v s e) := by
  unfold Issued
  split <;> infer_instance

/-- A grant that raises its set's mark comes when every grant the issuer signed
below it expires within one lifetime. -/
def Timely (v : GrantVerifier) (s : Presentations) (e : Nat × PresentationOp) : Prop :=
  match e.2 with
  | .present claims _ _ =>
    HighWater.raises (s.ledger.transportHighWater.lookup claims.connectionSetId)
        claims.transportGrantGeneration = true →
      ∀ g ∈ s.minted, g.connectionSetId = claims.connectionSetId →
        g.transportGrantGeneration < claims.transportGrantGeneration →
          g.expiresAt ≤ e.1 + v.limits.maxGrantLifetimeMs
  | _ => True

instance (v : GrantVerifier) (s : Presentations) (e : Nat × PresentationOp) :
    Decidable (Timely v s e) := by
  unfold Timely
  split <;> infer_instance

/-- No admission is below an earlier one of its set, and a prune never drops a
mark above a grant that could still pass the validity check. -/
structure NoRollback (v : GrantVerifier) (s : Presentations) : Prop where
  admitted : s.admitted.Pairwise fun later earlier =>
    later.claims.connectionSetId = earlier.claims.connectionSetId →
      earlier.claims.transportGrantGeneration ≤ later.claims.transportGrantGeneration
  pruned : ∀ now, s.now ≤ now → ∀ set mark, s.ledger.transportHighWater.lookup set = some mark →
    (s.ledger.prune now).transportHighWater.lookup set = none →
      ∀ g ∈ s.minted, g.connectionSetId = set → g.transportGrantGeneration < mark.generation →
        v.limits.checkValidity g.issuedAt g.expiresAt now ≠ .ok ()

/-! ## What a run keeps -/

/-- A lower grant of an admitted set is refused by the mark, or has expired. -/
structure Guarded (v : GrantVerifier) (s : Presentations) : Prop where
  signed : ∀ a ∈ s.admitted, a.claims ∈ s.minted
  marked : ∀ set mark, s.ledger.transportHighWater.lookup set = some mark →
    (∃ g ∈ s.minted, g.connectionSetId = set ∧ g.transportGrantGeneration = mark.generation) ∧
    ∀ g ∈ s.minted, g.connectionSetId = set → g.transportGrantGeneration < mark.generation →
      g.expiresAt ≤ mark.firstAcceptedAtMs + v.limits.maxGrantLifetimeMs
  covered : ∀ a ∈ s.admitted, ∀ g ∈ s.minted,
    g.connectionSetId = a.claims.connectionSetId →
      g.transportGrantGeneration < a.claims.transportGrantGeneration →
        (∃ mark, s.ledger.transportHighWater.lookup g.connectionSetId = some mark ∧
          g.transportGrantGeneration < mark.generation) ∨
        v.limits.deadline g.expiresAt ≤ s.now
  monotone : s.admitted.Pairwise fun later earlier =>
    later.claims.connectionSetId = earlier.claims.connectionSetId →
      earlier.claims.transportGrantGeneration ≤ later.claims.transportGrantGeneration

variable {claims : TransportClaims} {now : Nat} {s : Presentations} {v : GrantVerifier}

theorem Guarded.expired (h : Guarded v s) (hlimits : s.ledger.limits = v.limits)
    {set : ConnectionSetId} {mark : HighWater}
    (hm : s.ledger.transportHighWater.lookup set = some mark)
    (hgone : (s.ledger.prune now).transportHighWater.lookup set = none) {g : TransportClaims}
    (hg : g ∈ s.minted) (hset : g.connectionSetId = set)
    (hlt : g.transportGrantGeneration < mark.generation) : v.limits.deadline g.expiresAt ≤ now := by
  have hold : mark.firstAcceptedAtMs + (s.ledger.maxGrantLifetimeMs + s.ledger.maxClockSkewMs) ≤
      now := Watermarks.expired_of_prune hm hgone
  have hlife : s.ledger.maxGrantLifetimeMs = v.limits.maxGrantLifetimeMs :=
    congrArg GrantValidityLimits.maxGrantLifetimeMs hlimits
  have hskew : s.ledger.maxClockSkewMs = v.limits.maxClockSkewMs :=
    congrArg GrantValidityLimits.maxClockSkewMs hlimits
  have hexp := (h.marked set mark hm).2 g hg hset hlt
  calc v.limits.deadline g.expiresAt
      ≤ g.expiresAt + v.limits.maxClockSkewMs := saturatingAdd_le _ _
    _ ≤ now := by omega

theorem Guarded.of_same_marks {s s' : Presentations} (h : Guarded v s) (hnow : s.now ≤ s'.now)
    (hm : s'.minted = s.minted) (ha : s'.admitted = s.admitted)
    (hw : s'.ledger.transportHighWater = s.ledger.transportHighWater) : Guarded v s' := by
  constructor
  · rw [ha, hm]
    exact h.signed
  · rw [hw, hm]
    exact h.marked
  · rw [ha, hm, hw]
    intro a ha g hg hset hlt
    exact (h.covered a ha g hg hset hlt).imp_right fun hd => Nat.le_trans hd hnow
  · rw [ha]
    exact h.monotone

theorem Guarded.mint (h : Guarded v s)
    (hnow : s.now ≤ now)
    (habove : ∀ g ∈ s.minted, g.connectionSetId = claims.connectionSetId →
      g.transportGrantGeneration < claims.transportGrantGeneration) :
    Guarded v { s with now := now, minted := claims :: s.minted } := by
  refine ⟨fun a ha => mem_cons_of_mem _ (h.signed a ha), fun set mark hm => ?_,
    fun a ha g hg hset hlt => ?_, h.monotone⟩
  · obtain ⟨⟨top, htop, hts, htg⟩, hlow⟩ := h.marked set mark hm
    refine ⟨⟨top, mem_cons_of_mem _ htop, hts, htg⟩, fun g hg hset hlt => ?_⟩
    rcases mem_cons.mp hg with rfl | hg
    · have hgt := habove top htop (hts.trans hset.symm)
      omega
    · exact hlow g hg hset hlt
  · rcases mem_cons.mp hg with rfl | hg
    · have hgt := habove a.claims (h.signed a ha) hset.symm
      omega
    · exact (h.covered a ha g hg hset hlt).imp_right fun hd => Nat.le_trans hd hnow

theorem Guarded.prune (h : Guarded v s) (hlimits : s.ledger.limits = v.limits)
    (hnow : s.now ≤ now) : Guarded v { s with now := now, ledger := s.ledger.prune now } := by
  refine ⟨h.signed, fun set mark hm => h.marked set mark (Watermarks.lookup_of_prune hm),
    fun a ha g hg hset hlt => ?_, h.monotone⟩
  rcases h.covered a ha g hg hset hlt with ⟨mark, hm, hlow⟩ | hd
  · cases hgone : (s.ledger.prune now).transportHighWater.lookup g.connectionSetId with
    | none => exact .inr (h.expired hlimits hm hgone hg rfl hlow)
    | some kept =>
      have hk := Watermarks.lookup_of_prune hgone
      rw [hm] at hk
      obtain rfl := Option.some.inj hk
      exact .inl ⟨mark, rfl, hlow⟩
  · exact .inr (Nat.le_trans hd hnow)

theorem Guarded.admits (h : Guarded v s) (hnow : s.now ≤ now) {channel : Channel}
    {current : Option CurrentLeg} {l' : TransportLedger} (hsigned : claims ∈ s.minted)
    (hok : s.ledger.present v claims channel current now = .ok l') :
    ∀ a ∈ s.admitted, claims.connectionSetId = a.claims.connectionSetId →
      a.claims.transportGrantGeneration ≤ claims.transportGrantGeneration := by
  intro a ha hset
  refine Nat.le_of_not_lt fun hlt => ?_
  obtain ⟨⟨-, hvalid⟩, ⟨admission, hcheck⟩, -⟩ := of_present hok
  rcases h.covered a ha claims hsigned hset hlt with ⟨mark, hm, hlow⟩ | hd
  · have hle := (TransportLedger.of_checkTransport hcheck).1 mark hm
    omega
  · exact GrantValidityLimits.checkValidity_of_deadline (Nat.le_trans hd hnow) hvalid

theorem Guarded.commit (h : Guarded v s)
    (hnow : s.now ≤ now) {channel : Channel}
    {current : Option CurrentLeg} {l' : TransportLedger} (hsigned : claims ∈ s.minted)
    (htimely : HighWater.raises (s.ledger.transportHighWater.lookup claims.connectionSetId)
        claims.transportGrantGeneration = true →
      ∀ g ∈ s.minted, g.connectionSetId = claims.connectionSetId →
        g.transportGrantGeneration < claims.transportGrantGeneration →
          g.expiresAt ≤ now + v.limits.maxGrantLifetimeMs)
    (hok : s.ledger.present v claims channel current now = .ok l') :
    Guarded v
      { s with
        now := now
        ledger := s.ledger.commitTransport claims channel now
        admitted := { claims := claims, channel := channel } :: s.admitted } := by
  refine ⟨?_, fun set mark hm => ?_, fun a ha g hg hset hlt => ?_,
    pairwise_cons.mpr ⟨h.admits hnow hsigned hok, h.monotone⟩⟩
  · intro a ha
    rcases mem_cons.mp ha with rfl | ha
    · exact hsigned
    · exact h.signed a ha
  · -- either the grant's own mark stands, or the one already there
    rw [TransportLedger.lookup_highWater_commit] at hm
    split at hm
    · next hset =>
      obtain rfl := Option.some.inj hm
      rw [hset]
      cases hr : HighWater.raises (s.ledger.transportHighWater.lookup claims.connectionSetId)
          claims.transportGrantGeneration with
      | true =>
        rw [HighWater.raised_of_raises hr]
        exact ⟨⟨claims, hsigned, rfl, rfl⟩, htimely hr⟩
      | false => exact h.marked _ _ (HighWater.raised_of_not_raises hr)
    · exact h.marked set mark hm
  · -- the mark of the set covers the new admission and stays above the old ones
    by_cases hgs : g.connectionSetId = claims.connectionSetId
    · rcases mem_cons.mp ha with rfl | ha
      · left
        rw [TransportLedger.lookup_highWater_commit, if_pos hgs]
        have hle := HighWater.le_raised
          (s.ledger.transportHighWater.lookup claims.connectionSetId)
          { generation := claims.transportGrantGeneration, firstAcceptedAtMs := now }
        exact ⟨_, rfl, Nat.lt_of_lt_of_le hlt hle⟩
      · rcases h.covered a ha g hg hset hlt with ⟨mark, hm, hlow⟩ | hd
        · left
          rw [TransportLedger.lookup_highWater_commit, if_pos hgs, ← hgs, hm]
          exact ⟨_, rfl, Nat.lt_of_lt_of_le hlow (HighWater.raised_mono _)⟩
        · exact .inr (Nat.le_trans hd hnow)
    · rcases mem_cons.mp ha with rfl | ha
      · exact absurd hset hgs
      · rcases h.covered a ha g hg hset hlt with ⟨mark, hm, hlow⟩ | hd
        · left
          rw [TransportLedger.lookup_highWater_commit, if_neg hgs]
          exact ⟨mark, hm, hlow⟩
        · exact .inr (Nat.le_trans hd hnow)

theorem Guarded.apply (h : Guarded v s) (hlimits : s.ledger.limits = v.limits) (hnow : s.now ≤ now)
    {op : PresentationOp} (hissued : Issued v s (now, op)) (htimely : Timely v s (now, op)) :
    Guarded v (s.apply v now op) := by
  cases op with
  | tick => exact h.of_same_marks hnow rfl rfl rfl
  | mint claims => exact h.mint hnow hissued.1
  | prune => exact h.prune hlimits hnow
  | revokeClient clientId generation => exact h.of_same_marks hnow rfl rfl rfl
  | acceptAttach clientId sessionId generation =>
    exact h.of_same_marks hnow rfl rfl
      (TransportLedger.acceptAttachGeneration_frame _ _ _ _ _).2.1
  | present claims channel current =>
    simp only [Presentations.apply]
    split
    · exact h.of_same_marks hnow rfl rfl rfl
    · next l' hok =>
      obtain ⟨-, -, rfl⟩ := of_present hok
      exact h.commit hnow hissued htimely hok

theorem guarded_of_reaches (h : (machine v).Reaches (fun s e => Issued v s e ∧ Timely v s e) s) :
    Guarded v s := by
  refine Machine.Reaches.invariant_of (P := Guarded v) ?_ ?_ h
  · refine ⟨fun a ha => absurd ha not_mem_nil, fun set mark hm => ?_,
      fun a ha => absurd ha not_mem_nil, List.Pairwise.nil⟩
    cases hm
  · intro s e s' hr hs hok hnext
    obtain ⟨hnow, rfl⟩ := of_next hnext
    exact hs.apply (limits_of_reachable hr.reachable) hnow hok.1 hok.2

/-- In a run whose marks rise in time, no set's generation rolls back. -/
theorem noRollback_of_timely {v : GrantVerifier} {s : Presentations}
    (h : (machine v).Reaches (fun s e => Issued v s e ∧ Timely v s e) s) : NoRollback v s := by
  have hg := guarded_of_reaches h
  refine ⟨hg.monotone, fun now _ set mark hm hgone g hmem hset hlt => ?_⟩
  exact GrantValidityLimits.checkValidity_of_deadline
    (hg.expired (limits_of_reachable h.reachable) hm hgone hmem hset hlt)

/-- The second grant of a set comes while the first still has a lifetime to run. -/
theorem noRollback_second_grant :
    ∃ s, s.admitted.length = 2 ∧ NoRollback Sample.verifier s := by
  obtain ⟨s, hreach, hp⟩ := Machine.exists_of_orderly_run (M := machine Sample.verifier)
    (fun s e => Issued Sample.verifier s e ∧ Timely Sample.verifier s e)
    (fun s => s.admitted.length == 2)
    [(1000, .mint (Sample.grant 1 1000)), (1100, .present (Sample.grant 1 1000) .control none),
      (2000, .mint (Sample.grant 2 2000)), (2100, .present (Sample.grant 2 2000) .control none),
      (700000, .prune)] (by decide)
  exact ⟨s, by simpa using hp, noRollback_of_timely hreach⟩

/-- The issuer's clock leads by one skew.  The second grant's mark is pruned while
the first grant, never presented, is still honoured. -/
theorem rolled_back :
    ¬ ∀ s, (machine Sample.verifier).Reaches (Issued Sample.verifier) s →
      NoRollback Sample.verifier s := by
  intro hall
  obtain ⟨s, hreach, hp⟩ := Machine.exists_of_orderly_run (M := machine Sample.verifier)
    (Issued Sample.verifier)
    (fun s => decide (s.admitted =
      [⟨Sample.grant 1 10000, .control⟩, ⟨Sample.grant 2 10000, .control⟩]))
    [(5000, .mint (Sample.grant 1 10000)), (5000, .mint (Sample.grant 2 10000)),
      (5000, .present (Sample.grant 2 10000) .control none), (610000, .prune),
      (610001, .present (Sample.grant 1 10000) .control none)] (by decide)
  have hmono := (hall s hreach).admitted
  rw [of_decide_eq_true hp] at hmono
  have hle := (List.pairwise_cons.mp hmono).1 ⟨Sample.grant 2 10000, .control⟩
    (List.mem_singleton_self _) rfl
  exact absurd hle (by decide)

/-! ## Short grants -/

/-- Every grant is signed for at most `ttl`. -/
def ShortLived (ttl : Nat) (e : Nat × PresentationOp) : Prop :=
  match e.2 with
  | .mint claims => claims.expiresAt ≤ claims.issuedAt + ttl
  | _ => True

end VibeField.Tp.Presentations
