import VibeField.Tp.Registry

/-!
# Which grant takes a channel over

A grant newer than the one that admitted a channel's leg is to replace that leg.
The ledger decides by the set's mark, which the other channel may have raised to
the grant's own generation.  From then on only the instant of issue counts, and
the generation of the leg, which the ledger is handed, is not read.
-/

namespace VibeField.Tp

open List Option

theorem TransportLedger.checkTransport_fresh {l : TransportLedger} {claims : TransportClaims}
    {channel : Channel} (hallowed : channel ∈ claims.allowedChannels)
    (hmark : ∀ mark, l.transportHighWater.lookup claims.connectionSetId = some mark →
      mark.generation ≤ claims.transportGrantGeneration)
    (hfree : l.nonces.lookup (claims.nonce, channel) = none) (leg : CurrentLeg) :
    l.checkTransport claims channel (some leg) =
      if l.belowFloor claims.clientId claims.transportGrantGeneration then
        .error .grantGenerationRollback
      else if HighWater.raises (l.transportHighWater.lookup claims.connectionSetId)
          claims.transportGrantGeneration || claims.grantIssuedAtNewerThan leg then
        .ok
          { raisesHighWater := HighWater.raises
              (l.transportHighWater.lookup claims.connectionSetId)
              claims.transportGrantGeneration
            replacesCurrentLeg := true }
      else
        .error .setChannelBusy := by
  have hbelow : l.transportHighWater.below claims.connectionSetId
      claims.transportGrantGeneration = false := by
    refine Bool.eq_false_iff.mpr fun hb => ?_
    obtain ⟨mark, hm, hlt⟩ := Watermarks.below_iff.mp hb
    have hle := hmark mark hm
    omega
  simp [checkTransport, hallowed, hbelow, hfree]

namespace Presentations

/-- Every admitted grant is of this cell, and a mark is the generation of one. -/
structure Marked (v : GrantVerifier) (s : Presentations) : Prop where
  audience : ∀ a ∈ s.admitted, a.claims.audienceCellBootId = v.cellBootId
  marks : ∀ set mark, s.ledger.transportHighWater.lookup set = some mark →
    ∃ a ∈ s.admitted, a.claims.connectionSetId = set ∧
      a.claims.transportGrantGeneration = mark.generation

theorem Marked.apply {v : GrantVerifier} {s : Presentations} (h : Marked v s) (now : Nat)
    (op : PresentationOp) : Marked v (s.apply v now op) := by
  cases op with
  | tick => exact ⟨h.audience, h.marks⟩
  | mint claims => exact ⟨h.audience, h.marks⟩
  | revokeClient clientId generation => exact ⟨h.audience, h.marks⟩
  | prune =>
    exact ⟨h.audience, fun set mark hm => h.marks set mark (Watermarks.lookup_of_prune hm)⟩
  | acceptAttach clientId sessionId generation =>
    refine ⟨h.audience, fun set mark hm => h.marks set mark ?_⟩
    have hframe := TransportLedger.acceptAttachGeneration_frame s.ledger clientId sessionId
      generation now
    exact (congrArg (fun d => d.lookup set) hframe.2.1).symm.trans hm
  | present claims channel current =>
    simp only [Presentations.apply]
    split
    · exact ⟨h.audience, h.marks⟩
    · next l' hok =>
      obtain ⟨⟨haudience, -⟩, -, rfl⟩ := of_present hok
      refine ⟨fun a ha => ?_, fun set mark hm => ?_⟩
      · rcases mem_cons.mp ha with rfl | ha
        · exact haudience
        · exact h.audience a ha
      · have hold : ∀ m, s.ledger.transportHighWater.lookup set = some m → m = mark →
            ∃ a ∈ (⟨claims, channel⟩ :: s.admitted : List Presented),
              a.claims.connectionSetId = set ∧
                a.claims.transportGrantGeneration = mark.generation := by
          rintro m hm' rfl
          obtain ⟨a, ha, has, hag⟩ := h.marks set m hm'
          exact ⟨a, mem_cons_of_mem _ ha, has, hag⟩
        rw [TransportLedger.lookup_highWater_commit] at hm
        split at hm
        · next hset =>
          have hm := some.inj hm
          cases hr : HighWater.raises (s.ledger.transportHighWater.lookup claims.connectionSetId)
              claims.transportGrantGeneration with
          | true =>
            rw [HighWater.raised_of_raises hr] at hm
            exact ⟨⟨claims, channel⟩, mem_cons_self, hset.symm, by rw [← hm]⟩
          | false =>
            refine hold _ ?_ hm
            rw [hset]
            exact HighWater.raised_of_not_raises hr
        · exact hold mark hm rfl

theorem marked_of_reachable {v : GrantVerifier} {s : Presentations}
    (h : (machine v).Reachable s) : Marked v s := by
  refine Machine.Reachable.invariant (P := Marked v) ?_ ?_ h
  · exact ⟨fun a ha => absurd ha not_mem_nil, fun set mark hm => nomatch hm⟩
  · intro s e s' hs hnext
    obtain ⟨-, rfl⟩ := of_next hnext
    exact hs.apply e.1 e.2

end Presentations

namespace Cell

/-! ## A generation names one grant -/

/-- The minter's grants: named after their client and cell, and no two of one
client and cell of the same generation. -/
structure MintsOnce (s : Cell) : Prop where
  named : ∀ g ∈ s.minted, g.connectionSetId = connectionSetIdFor g.clientId g.audienceCellBootId
  counted : ∀ g ∈ s.minted, g.transportGrantGeneration ≤
    (s.minter.transportGenerations.lookup (g.clientId, g.audienceCellBootId)).getD 0
  distinct : ∀ g ∈ s.minted, ∀ g' ∈ s.minted, g.clientId = g'.clientId →
    g.audienceCellBootId = g'.audienceCellBootId →
      g.transportGrantGeneration = g'.transportGrantGeneration → g = g'
  signed : ∀ a ∈ s.admitted, a.claims ∈ s.minted

variable {channel : Channel} {grant : TransportClaims} {leg : LegEntry} {now : Nat} {s : Cell}
  {v : GrantVerifier}

theorem MintsOnce.mint (h : MintsOnce s) (cellBootId : CellBootId) (clientId : ClientId)
    (issuedAt : Nat) (nonce : Nonce) (now : Nat) :
    MintsOnce
      { s with
        now := now
        minter := (s.minter.mintTransport cellBootId clientId issuedAt nonce).1
        minted := (s.minter.mintTransport cellBootId clientId issuedAt nonce).2 :: s.minted } := by
  have hnew : ∀ g ∈ s.minted, g.clientId = clientId → g.audienceCellBootId = cellBootId →
      g.transportGrantGeneration <
        (s.minter.mintTransport cellBootId clientId issuedAt nonce).2.transportGrantGeneration := by
    rintro g hg rfl rfl
    exact Nat.lt_succ_of_le (h.counted g hg)
  refine ⟨fun g hg => ?_, fun g hg => ?_, fun g hg g' hg' hc ha hgen => ?_,
    fun a ha => mem_cons_of_mem _ (h.signed a ha)⟩
  · rcases mem_cons.mp hg with rfl | hg
    · rfl
    · exact h.named g hg
  · simp only [TerminalGrantMinter.mintTransport, Dict.lookup_insert]
    rcases mem_cons.mp hg with rfl | hg
    · simp [TerminalGrantMinter.mintTransport]
    · have hle := h.counted g hg
      split
      · next hkey =>
        rw [← hkey]
        exact Nat.le_succ_of_le hle
      · exact hle
  · rcases mem_cons.mp hg with rfl | hg <;> rcases mem_cons.mp hg' with rfl | hg'
    · rfl
    · exact absurd hgen (Nat.ne_of_gt (hnew g' hg' hc.symm ha.symm))
    · exact absurd hgen (Nat.ne_of_lt (hnew g hg hc ha))
    · exact h.distinct g hg g' hg' hc ha hgen

theorem mintsOnce (h : (machine v).Reachable s) : MintsOnce s := by
  refine Machine.Reachable.invariant (P := MintsOnce) ?_ ?_ h
  · exact ⟨fun g hg => absurd hg not_mem_nil, fun g hg => absurd hg not_mem_nil,
      fun g hg => absurd hg not_mem_nil, fun a ha => absurd ha not_mem_nil⟩
  · rintro s ⟨now, op⟩ s' hs hnext
    obtain ⟨-, rfl, hsigned⟩ := of_next hnext
    cases op with
    | mint cellBootId clientId issuedAt nonce => exact hs.mint _ _ _ _ _
    | legClosed setId channel connectionId =>
      exact { hs with }
    | revokeClient clientId generation => exact { hs with }
    | acceptAttach clientId sessionId generation =>
      exact { hs with }
    | hello grant channel connectionId =>
      have hgrant := hsigned grant channel connectionId rfl
      simp only [apply]
      split
      · exact { hs with }
      · refine ⟨hs.named, hs.counted, hs.distinct, fun a ha => ?_⟩
        rcases mem_cons.mp ha with rfl | ha
        · exact hgrant
        · exact hs.signed a ha

/-! ## The grant that takes a channel over -/

/-- A verified grant of the channel whose pair is unconsumed, at or above the mark
of its set and above the grant that admitted the leg there. -/
structure Qualifies (v : GrantVerifier) (s : Cell) (grant : TransportClaims) (channel : Channel)
    (leg : LegEntry) (now : Nat) : Prop where
  minted : grant ∈ s.minted
  clock : s.now ≤ now
  verified : v.verifyTransport grant now = .ok grant
  allowed : channel ∈ grant.allowedChannels
  unconsumed : s.registry.ledger.nonces.lookup (grant.nonce, channel) = none
  mark : ∀ mark, s.registry.ledger.transportHighWater.lookup grant.connectionSetId = some mark →
    mark.generation ≤ grant.transportGrantGeneration
  live : s.registry.leg grant.connectionSetId channel = some leg
  above : leg.transportGrantGeneration < grant.transportGrantGeneration

/-- The hello is accepted in the leg's place. -/
def Supersedes (v : GrantVerifier) (s : Cell) (grant : TransportClaims) (channel : Channel)
    (connectionId : ConnectionId) (leg : LegEntry) (now : Nat) : Prop :=
  ∃ legGeneration,
    (s.registry.hello v grant channel connectionId now).2 = .accepted legGeneration (some leg) ∧
    (s.registry.hello v grant channel connectionId now).1.leg grant.connectionSetId channel =
      some
        { connectionId := connectionId
          legGeneration := legGeneration
          transportGrantGeneration := grant.transportGrantGeneration
          grantIssuedAt := grant.issuedAt }

/-- The other channel has raised the mark to the grant, which was issued no later
than the grant of the leg. -/
def RaisedByOther (s : Cell) (grant : TransportClaims) (channel : Channel) (leg : LegEntry) :
    Prop :=
  ⟨grant, channel.other⟩ ∈ s.admitted ∧
    s.registry.ledger.transportHighWater.generationOf grant.connectionSetId =
      some grant.transportGrantGeneration ∧
    grant.issuedAt ≤ leg.grantIssuedAt

theorem Qualifies.admitted_other (h : (machine v).Reachable s)
    (hq : Qualifies v s grant channel leg now) {mark : HighWater}
    (hm : s.registry.ledger.transportHighWater.lookup grant.connectionSetId = some mark)
    (hgen : mark.generation = grant.transportGrantGeneration) :
    ⟨grant, channel.other⟩ ∈ s.admitted := by
  have hp := presentations_reachable h
  have hmarked := Presentations.marked_of_reachable hp
  have honce := mintsOnce h
  obtain ⟨-, haudience, hvalid⟩ := GrantVerifier.of_verifyTransport hq.verified
  obtain ⟨a, ha, haset, hagen⟩ := hmarked.marks _ mark hm
  have haa := hmarked.audience a ha
  have hclient : a.claims.clientId = grant.clientId := by
    have hnamed := honce.named a.claims (honce.signed a ha)
    rw [haset, honce.named grant hq.minted, haa, haudience] at hnamed
    exact (connectionSetIdFor_inj hnamed).symm
  have hsame : a.claims = grant :=
    honce.distinct a.claims (honce.signed a ha) grant hq.minted hclient
      (haa.trans haudience.symm) (hagen.trans hgen)
  -- the pair of this channel is unconsumed and the grant is in time, so it was the other one
  have hconsumed := (Presentations.spent_of_reachable hp).consumed a ha
  rw [Presentations.Consumed, hsame] at hconsumed
  have hchannel : a.channel ≠ channel := by
    rintro rfl
    rcases hconsumed with hkept | hlate
    · have hfree : s.presentations.ledger.nonces.lookup (grant.nonce, a.channel) = none :=
        hq.unconsumed
      rw [hfree] at hkept
      cases hkept
    · exact GrantValidityLimits.checkValidity_of_deadline (Nat.le_trans hlate hq.clock) hvalid
  have hother : a.channel = channel.other := by
    cases hc : a.channel <;> cases hc' : channel <;> simp_all [Channel.other]
  rw [← hsame, ← hother]
  exact ha

theorem Qualifies.raises_or_newer (h : (machine v).Reachable s)
    (hq : Qualifies v s grant channel leg now) :
    (HighWater.raises (s.registry.ledger.transportHighWater.lookup grant.connectionSetId)
        grant.transportGrantGeneration || grant.grantIssuedAtNewerThan leg.currentLeg) = true ↔
      ¬ RaisedByOther s grant channel leg := by
  have hnewer : grant.grantIssuedAtNewerThan leg.currentLeg = true ↔
      leg.grantIssuedAt < grant.issuedAt := decide_eq_true_iff
  rw [Bool.or_eq_true, hnewer, RaisedByOther, Watermarks.generationOf_eq_some]
  cases hm : s.registry.ledger.transportHighWater.lookup grant.connectionSetId with
  | none => simp [HighWater.raises]
  | some mark =>
    have hle := hq.mark mark hm
    have hraises : HighWater.raises (some mark) grant.transportGrantGeneration = true ↔
        mark.generation < grant.transportGrantGeneration := decide_eq_true_iff
    rw [hraises]
    constructor
    · rintro hor ⟨-, ⟨m, hm', hgen⟩, hissued⟩
      obtain rfl := some.inj hm'
      omega
    · intro hno
      by_cases hlt : mark.generation < grant.transportGrantGeneration
      · exact .inl hlt
      · have hgen : mark.generation = grant.transportGrantGeneration := by omega
        refine .inr (Nat.lt_of_not_le fun hissued => hno ?_)
        exact ⟨hq.admitted_other h hm hgen, ⟨mark, rfl, hgen⟩, hissued⟩

theorem Qualifies.verdict (h : (machine v).Reachable s) (hq : Qualifies v s grant channel leg now) :
    (s.registry.ledger.belowFloor grant.clientId grant.transportGrantGeneration = true ∧
        s.registry.verdict grant channel = .error .grantGenerationRollback) ∨
    (s.registry.ledger.belowFloor grant.clientId grant.transportGrantGeneration = false ∧
        ¬ RaisedByOther s grant channel leg ∧ ∃ admission,
          s.registry.verdict grant channel = .ok admission) ∨
    (s.registry.ledger.belowFloor grant.clientId grant.transportGrantGeneration = false ∧
        RaisedByOther s grant channel leg ∧
          s.registry.verdict grant channel = .error .setChannelBusy) := by
  rw [Registry.verdict_of_leg hq.live,
    TransportLedger.checkTransport_fresh hq.allowed hq.mark hq.unconsumed]
  cases hfloor : s.registry.ledger.belowFloor grant.clientId grant.transportGrantGeneration with
  | true => exact .inl ⟨rfl, if_pos rfl⟩
  | false =>
    right
    rw [if_neg Bool.false_ne_true]
    by_cases hother : RaisedByOther s grant channel leg
    · right
      refine ⟨rfl, hother, if_neg fun hor => ?_⟩
      exact (hq.raises_or_newer h).mp hor hother
    · left
      exact ⟨rfl, hother, _, if_pos ((hq.raises_or_newer h).mpr hother)⟩

/-- A qualified grant takes the channel over exactly when the other channel has
not raised the mark to it within the same instant of issue, and no revoke of its
client stands above it. -/
theorem supersedes_iff {v : GrantVerifier} {s : Cell} (h : (machine v).Reachable s)
    {grant : TransportClaims} {channel : Channel} {leg : LegEntry} {now : Nat}
    (hq : Qualifies v s grant channel leg now) (connectionId : ConnectionId) :
    (Supersedes v s grant channel connectionId leg now ∧
      (s.registry.hello v grant channel connectionId now).2 ≠
        .refused (.structured .setChannelBusy)) ↔
    (s.registry.ledger.belowFloor grant.clientId grant.transportGrantGeneration = false ∧
      ¬ RaisedByOther s grant channel leg) := by
  rcases hq.verdict h with ⟨hfloor, hv⟩ | ⟨hfloor, hother, admission, hv⟩ | ⟨hfloor, hother, hv⟩
  · have hhello : (s.registry.hello v grant channel connectionId now).2 =
        .refused (.structured .grantGenerationRollback) := by
      simp only [Registry.hello, hq.verified, hv]
    simp [Supersedes, hhello, hfloor]
  · have hhello : s.registry.hello v grant channel connectionId now =
        ((s.registry.recordHello grant channel connectionId now).1,
          .accepted (s.registry.recordHello grant channel connectionId now).2 (some leg)) := by
      simp only [Registry.hello, hq.verified, hv, hq.live]
    refine iff_of_true ⟨⟨_, by rw [hhello], ?_⟩, fun hbusy => ?_⟩ ⟨hfloor, hother⟩
    · rw [hhello]
      exact Registry.leg_seat _ _ _ _
    · rw [hhello] at hbusy
      cases hbusy
  · have hhello : (s.registry.hello v grant channel connectionId now).2 =
        .refused (.structured .setChannelBusy) := by
      simp only [Registry.hello, hq.verified, hv]
    simp [Supersedes, hhello, hother]

def Sample.ticket (generation issuedAt : Nat) (nonce : Nonce) : TransportClaims where
  audienceCellBootId := "boot"
  clientId := "win:1"
  connectionSetId := "win:1@boot"
  allowedChannels := [.control, .frames]
  transportGrantGeneration := generation
  issuedAt := issuedAt
  expiresAt := issuedAt + transportGrantTtlMs
  nonce := nonce

/-- The second grant, a millisecond newer, takes the control channel over after it
has opened the frames channel. -/
theorem supersedes_newer :
    ∃ s, (machine Sample.verifier).Reachable s ∧
      Supersedes Sample.verifier s (Sample.ticket 2 1001 "n2") .control 3 ⟨1, 1, 1, 1000⟩ 1300 := by
  obtain ⟨s, hreach, hp⟩ := Machine.exists_of_run (M := machine Sample.verifier)
    (fun s => decide (Sample.ticket 2 1001 "n2" ∈ s.minted) && decide (s.now ≤ 1300) &&
      decide (s.registry.ledger.nonces.lookup ("n2", .control) = none) &&
      decide (s.registry.ledger.transportHighWater.lookup "win:1@boot" = some ⟨2, 1200⟩) &&
      decide (s.registry.leg "win:1@boot" .control = some ⟨1, 1, 1, 1000⟩) &&
      !s.registry.ledger.belowFloor "win:1" 2)
    [(900, .mint "boot" "win:1" 1000 "n1"), (901, .mint "boot" "win:1" 1001 "n2"),
      (1100, .hello (Sample.ticket 1 1000 "n1") .control 1),
      (1200, .hello (Sample.ticket 2 1001 "n2") .frames 2)] (by decide)
  simp only [Bool.and_eq_true, decide_eq_true_iff, Bool.not_eq_true'] at hp
  obtain ⟨⟨⟨⟨⟨hminted, hclock⟩, hfree⟩, hmark⟩, hlive⟩, hfloor⟩ := hp
  have hq : Qualifies Sample.verifier s (Sample.ticket 2 1001 "n2") .control ⟨1, 1, 1, 1000⟩
      1300 := by
    refine ⟨hminted, hclock, rfl, by decide, hfree, fun mark hm => ?_, hlive, by decide⟩
    obtain rfl := Option.some.inj (hm.symm.trans hmark)
    decide
  exact ⟨s, hreach, ((supersedes_iff hreach hq 3).mpr
    ⟨hfloor, fun hother => absurd hother.2.2 (by decide)⟩).1⟩

/-- Two grants of one millisecond.  The second opens the frames channel, and the
control channel, still of the first, refuses it as busy. -/
theorem newer_grant_refused :
    ¬ ∀ (s : Cell) (grant : TransportClaims) (channel : Channel) (leg : LegEntry) (now : Nat)
      (connectionId : ConnectionId), (machine Sample.verifier).Reachable s →
        Qualifies Sample.verifier s grant channel leg now →
          Supersedes Sample.verifier s grant channel connectionId leg now ∧
            (s.registry.hello Sample.verifier grant channel connectionId now).2 ≠
              .refused (.structured .setChannelBusy) := by
  intro hall
  obtain ⟨s, hreach, hp⟩ := Machine.exists_of_run (M := machine Sample.verifier)
    (fun s => decide (Sample.ticket 2 1000 "n2" ∈ s.minted) && decide (s.now ≤ 1300) &&
      decide (s.registry.ledger.nonces.lookup ("n2", .control) = none) &&
      decide (s.registry.ledger.transportHighWater.lookup "win:1@boot" = some ⟨2, 1200⟩) &&
      decide (s.registry.leg "win:1@boot" .control = some ⟨1, 1, 1, 1000⟩) &&
      decide ((s.registry.hello Sample.verifier (Sample.ticket 2 1000 "n2") .control 3 1300).2 =
        .refused (.structured .setChannelBusy)))
    [(900, .mint "boot" "win:1" 1000 "n1"), (901, .mint "boot" "win:1" 1000 "n2"),
      (1100, .hello (Sample.ticket 1 1000 "n1") .control 1),
      (1200, .hello (Sample.ticket 2 1000 "n2") .frames 2)] (by decide)
  simp only [Bool.and_eq_true, decide_eq_true_iff] at hp
  obtain ⟨⟨⟨⟨⟨hminted, hclock⟩, hfree⟩, hmark⟩, hlive⟩, hbusy⟩ := hp
  refine (hall s (Sample.ticket 2 1000 "n2") .control ⟨1, 1, 1, 1000⟩ 1300 3 hreach ?_).2 hbusy
  refine ⟨hminted, hclock, rfl, by decide, hfree, fun mark hm => ?_, hlive, by decide⟩
  obtain rfl := Option.some.inj (hm.symm.trans hmark)
  decide

end Cell
end VibeField.Tp
