import VibeField.Tp.Supersede

/-!
# Who holds a channel

A hello that is admitted takes its channel, and only a close gives the channel up.
So the leg on a channel is always that of the last hello admitted to it.  A set
goes with its last leg, and a set holds the legs of one client.
-/

namespace VibeField.Tp

theorem Registry.room_of_verdict {r : Registry} {claims : TransportClaims} {channel : Channel}
    {admission : Admission} (h : r.verdict claims channel = .ok admission)
    (hnone : r.sets.lookup claims.connectionSetId = none) : r.sets.len < r.maxConnectionSets := by
  rw [verdict, hnone] at h
  split at h
  · cases h
  · next hroom => simpa using hroom

namespace Cell

open List

/-- The last of the admitted to a channel of a set, the newest coming first. -/
def lastAdmitted (admitted : List Presented) (id : ConnectionSetId) (channel : Channel) :
    Option Presented :=
  admitted.find? fun a => a.claims.connectionSetId = id ∧ a.channel = channel

/-- A leg is of the last grant admitted to its channel, and its number is the last given. -/
structure Stands (admitted : List Presented) (id : ConnectionSetId) (set : ConnectionSet)
    (channel : Channel) (leg : LegEntry) : Prop where
  numbered : set.nextLegGeneration.lookup channel = some leg.legGeneration
  last : ∃ a, lastAdmitted admitted id channel = some a ∧ a.claims.clientId = set.clientId ∧
    a.claims.transportGrantGeneration = leg.transportGrantGeneration ∧
    a.claims.issuedAt = leg.grantIssuedAt

structure Held (s : Cell) : Prop where
  room : s.registry.sets.len ≤ s.registry.maxConnectionSets
  occupied : ∀ id set, s.registry.sets.lookup id = some set → 0 < set.legs.len
  stands : ∀ id set channel leg, s.registry.sets.lookup id = some set →
    set.legs.lookup channel = some leg → Stands s.admitted id set channel leg

variable {admitted : List Presented} {channel : Channel} {grant : TransportClaims}
  {id : ConnectionSetId} {now : Nat} {s : Cell} {set : ConnectionSet} {v : GrantVerifier}

theorem lastAdmitted_cons_ne {a : Presented}
    (h : ¬(a.claims.connectionSetId = id ∧ a.channel = channel)) :
    lastAdmitted (a :: admitted) id channel = lastAdmitted admitted id channel :=
  find?_cons_of_neg (by simpa using h)

/-- The name of a set tells its client. -/
theorem Held.client (h : s.Held) (hr : (machine v).Reachable s) (hgrant : grant ∈ s.minted)
    (haudience : grant.audienceCellBootId = v.cellBootId)
    (hset : s.registry.sets.lookup grant.connectionSetId = some set) :
    grant.clientId = set.clientId := by
  have hleg : ∃ channel leg, set.legs.lookup channel = some leg := by
    by_contra hnone
    have hle := set.legs.len_le_of_subset (l := []) fun k leg hk => absurd ⟨k, leg, hk⟩ hnone
    exact Nat.not_lt.mpr hle (h.occupied _ _ hset)
  obtain ⟨channel, leg, hleg⟩ := hleg
  obtain ⟨a, ha, hclient, -⟩ := (h.stands _ _ _ _ hset hleg).last
  have hmem : a ∈ s.admitted := mem_of_find?_eq_some ha
  have hid : a.claims.connectionSetId = grant.connectionSetId := by
    have := find?_some ha
    simp only [decide_eq_true_eq] at this
    exact this.1
  have hm := mintsOnce hr
  have ha := (Presentations.marked_of_reachable (presentations_reachable hr)).audience a hmem
  rw [hm.named _ (hm.signed a hmem), hm.named _ hgrant, ha, haudience] at hid
  rw [← hclient, connectionSetIdFor_inj hid]

theorem Held.hello (h : s.Held) (hr : (machine v).Reachable s) (hgrant : grant ∈ s.minted)
    (connectionId : ConnectionId) :
    (s.apply v now (.hello grant channel connectionId)).Held := by
  simp only [apply, Registry.hello]
  cases hverify : v.verifyTransport grant now with
  | error failure => exact { h with }
  | ok claims =>
    obtain ⟨rfl, haudience, -⟩ := GrantVerifier.of_verifyTransport hverify
    dsimp only
    cases hverdict : s.registry.verdict claims channel with
    | error refusal => exact { h with }
    | ok admission =>
      obtain ⟨set, hget, hclient, hlegs⟩ : ∃ set : ConnectionSet,
          (s.registry.sets.lookup claims.connectionSetId).getD
            { clientId := claims.clientId, legs := ∅, nextLegGeneration := ∅ } = set ∧
          claims.clientId = set.clientId ∧ ∀ channel leg, set.legs.lookup channel = some leg →
            s.registry.sets.lookup claims.connectionSetId = some set := by
        cases hset : s.registry.sets.lookup claims.connectionSetId with
        | none => exact ⟨_, rfl, rfl, fun _ _ hleg => by cases hleg⟩
        | some set => exact ⟨set, rfl, h.client hr hgrant haudience hset, fun _ _ _ => rfl⟩
      have hroom := Registry.room_of_verdict hverdict
      dsimp only [Registry.recordHello, Registry.seat]
      rw [hget]
      constructor
      case room =>
        cases hset : s.registry.sets.lookup claims.connectionSetId with
        | none => exact Nat.le_trans (Nat.le_of_eq (Dict.len_insert hset _)) (hroom hset)
        | some old => exact Nat.le_trans (Nat.le_of_eq (Dict.len_insert_old hset _)) h.room
      case occupied =>
        intro id set' hset'
        dsimp only at hset'
        rw [Dict.lookup_insert] at hset'
        split at hset'
        · cases hset'
          exact Nat.zero_lt_of_lt
            (Dict.len_erase_lt ((Dict.lookup_insert _ channel _ _).trans (if_pos rfl)))
        · exact h.occupied id set' hset'
      case stands =>
        intro id set' channel' leg hset' hleg
        dsimp only at hset'
        rw [Dict.lookup_insert] at hset'
        split at hset'
        · next hid =>
          cases hset'
          dsimp only at hleg
          rw [Dict.lookup_insert] at hleg
          split at hleg
          · next hc =>
            cases hleg
            subst hid hc
            exact ⟨(Dict.lookup_insert ..).trans (if_pos rfl), _, find?_cons_of_pos (by simp),
              hclient, rfl, rfl⟩
          · next hc =>
            subst hid
            obtain ⟨hn, hl⟩ := h.stands _ _ _ _ (hlegs _ _ hleg) hleg
            refine ⟨?_, ?_⟩
            · dsimp only
              rw [Dict.lookup_insert, if_neg hc]
              exact hn
            · rw [lastAdmitted_cons_ne fun he => hc he.2.symm]
              exact hl
        · next hid =>
          obtain ⟨hn, hl⟩ := h.stands _ _ _ _ hset' hleg
          refine ⟨hn, ?_⟩
          rw [lastAdmitted_cons_ne fun he => hid he.1.symm]
          exact hl

theorem Held.legClosed (h : s.Held) (connectionId : ConnectionId) :
    (s.apply v now (.legClosed id channel connectionId)).Held := by
  simp only [apply, Registry.deregister]
  cases hset : s.registry.sets.lookup id with
  | none => exact { h with }
  | some set =>
    dsimp only
    generalize hlegs : (if (set.legs.lookup channel).any (fun l => l.connectionId == connectionId)
      then set.legs.erase channel else set.legs) = legs
    have hsub : ∀ channel leg, legs.lookup channel = some leg →
        set.legs.lookup channel = some leg := by
      intro channel' leg hleg
      rw [← hlegs] at hleg
      grind [Dict.lookup_erase]
    by_cases hempty : legs.len = 0
    · rw [if_pos hempty]
      have hout : ∀ id' set', (s.registry.sets.erase id).lookup id' = some set' →
          s.registry.sets.lookup id' = some set' := by grind [Dict.lookup_erase]
      exact ⟨Nat.le_trans (Dict.len_erase_le ..) h.room,
        fun id' set' hset' => h.occupied id' set' (hout id' set' hset'),
        fun id' set' c leg hset' => h.stands id' set' c leg (hout id' set' hset')⟩
    · rw [if_neg hempty]
      constructor
      case room => exact Nat.le_trans (Nat.le_of_eq (Dict.len_insert_old hset _)) h.room
      case occupied =>
        intro id' set' hset'
        rw [Dict.lookup_insert] at hset'
        split at hset'
        · cases hset'
          exact Nat.pos_of_ne_zero hempty
        · exact h.occupied id' set' hset'
      case stands =>
        intro id' set' c leg hset' hleg
        rw [Dict.lookup_insert] at hset'
        split at hset'
        · next hid =>
          cases hset'
          subst hid
          exact { h.stands _ _ c leg hset (hsub c leg hleg) with }
        · exact h.stands id' set' c leg hset' hleg

theorem held_reachable (h : (machine v).Reachable s) : s.Held := by
  refine (Machine.Reachable.invariant (M := machine v)
    (P := fun s => (machine v).Reachable s ∧ s.Held) ⟨.start, ?_⟩ ?_ h).2
  · exact ⟨Nat.zero_le _, fun _ _ hset => (by cases hset), fun _ _ _ _ hset => (by cases hset)⟩
  · rintro s ⟨now, op⟩ s' ⟨hr, hs⟩ hnext
    refine ⟨hr.next hnext, ?_⟩
    obtain ⟨-, rfl, hminted⟩ := of_next hnext
    cases op with
    | mint cellBootId clientId issuedAt nonce => exact { hs with }
    | hello grant channel connectionId => exact hs.hello hr (hminted _ _ _ rfl) connectionId
    | legClosed set channel connectionId => exact hs.legClosed connectionId
    | revokeClient clientId generation => exact { hs with }
    | acceptAttach clientId sessionId generation => exact { hs with }

theorem held_reachable_taken_over : ∃ s, (machine Sample.verifier).Reachable s ∧
    s.registry.leg "win:1@boot" .control = some ⟨2, 2, 2, 1001⟩ ∧ s.Held := by
  obtain ⟨s, hreach, hp⟩ := Machine.exists_of_run (M := machine Sample.verifier)
    (fun s => decide (s.registry.leg "win:1@boot" .control = some ⟨2, 2, 2, 1001⟩))
    [(900, .mint "boot" "win:1" 1000 "n1"), (901, .mint "boot" "win:1" 1001 "n2"),
      (1100, .hello (Sample.ticket 1 1000 "n1") .control 1),
      (1200, .hello (Sample.ticket 2 1001 "n2") .control 2),
      (1300, .legClosed "win:1@boot" .control 1)] (by decide)
  exact ⟨s, hreach, of_decide_eq_true hp, held_reachable hreach⟩

end Cell
end VibeField.Tp
