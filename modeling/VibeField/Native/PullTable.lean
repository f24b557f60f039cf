import VibeField.Native.Pulls

/-!
# The table of the running pulls

Each row is of an accepted pull, under that pull's id; the digests name the same pulls.  Two rows'
pulls have files of different names.
-/

namespace VibeField.Native.FileTransfer

open Option Dict

section Table

variable {Root : Type} {s s' : State Root} {p q : Nat} {r : Running Root} {u : Pull Root}

structure Tabled (s : State Root) : Prop where
  row : ∀ id r, s.table.lookup id = some r → r.row.transferId = id ∧
    ∃ u, s.pulls[r.pull]? = some u ∧ u.params.transferId = id ∧ u.params.digest = r.row.digest
  digests : ∀ id digest, s.digests.lookup digest = some id ↔
    ∃ r, s.table.lookup id = some r ∧ r.row.digest = digest
  bound : s.table.len ≤ pullsInFlight

/-- Pull `p`, as accepted with `u`, has the row `r`. -/
structure Own (s : State Root) (p : Nat) (u : Pull Root) (r : Running Root) : Prop where
  pull : s.pulls[p]? = some u
  row : s.table.lookup u.params.transferId = some r
  same : r.pull = p

theorem Tabled.own (h : Tabled s) {id : FileTransferId} (hr : s.table.lookup id = some r) :
    ∃ u, u.params.transferId = id ∧ Own s r.pull u r := by
  obtain ⟨-, u, hu, hid, -⟩ := h.row id r hr
  exact ⟨u, hid, hu, hid ▸ hr, rfl⟩

theorem Own.eq_pull (h : Own s p u r) {u' : Pull Root} (hu : s.pulls[p]? = some u') : u' = u :=
  some.inj (hu.symm.trans h.pull)

theorem Tabled.digest (h : Tabled s) (ho : Own s p u r) : u.params.digest = r.row.digest := by
  obtain ⟨-, u', hu', -, hd⟩ := h.row _ r ho.row
  rw [ho.same] at hu'
  rw [← ho.eq_pull hu']
  exact hd

theorem Tabled.landed (h : Tabled s) (ho : Own s p u r) : r.landed = u.landed := by
  rw [Running.landed, Pull.landed, ← h.digest ho, (h.row _ r ho.row).1]

theorem Own.landed_ne (h : Own s p u r) {u' : Pull Root} {r' : Running Root} (h' : Own s q u' r')
    (hne : p ≠ q) : u.landed ≠ u'.landed := by
  intro he
  have hid := (landedName_inj he).2
  have hr : r = r' := some.inj (h.row.symm.trans (hid ▸ h'.row))
  exact hne (h.same.symm.trans (hr ▸ h'.same))

def Running.key (r : Running Root) : Nat × FileTransferId × Blake3Hex :=
  (r.pull, r.row.transferId, r.row.digest)

/-- Every pull is still accepted as it was. -/
def Keeps (s s' : State Root) : Prop := ∀ (p : Nat) (u : Pull Root), s.pulls[p]? = some u →
  ∃ u' : Pull Root, s'.pulls[p]? = some u' ∧ u'.params = u.params

theorem Keeps.refl (h : s'.pulls = s.pulls) : Keeps s s' := fun _ u hu => ⟨u, by rw [h, hu], rfl⟩

theorem Tabled.congr (h : Tabled s) (hpulls : Keeps s s')
    (htable : ∀ id, (s'.table.lookup id).map Running.key = (s.table.lookup id).map Running.key)
    (hdigests : s'.digests = s.digests) (hlen : s'.table.len = s.table.len) : Tabled s' := by
  have hkey : ∀ id r', s'.table.lookup id = some r' →
      ∃ r, s.table.lookup id = some r ∧ r.key = r'.key := by
    intro id r' hr'
    have hmap := htable id
    rw [hr', map_some] at hmap
    exact map_eq_some_iff.mp hmap.symm
  have hkey' : ∀ id r, s.table.lookup id = some r →
      ∃ r', s'.table.lookup id = some r' ∧ r'.key = r.key := by
    intro id r hr
    have hmap := htable id
    rw [hr, map_some] at hmap
    exact map_eq_some_iff.mp hmap
  refine ⟨fun id r' hr' => ?_, fun id digest => ?_, ?_⟩
  · obtain ⟨r, hr, heq⟩ := hkey id r' hr'
    rw [Running.key, Running.key, Prod.mk.injEq, Prod.mk.injEq] at heq
    obtain ⟨hid, u, hu, huid, hud⟩ := h.row id r hr
    obtain ⟨u', hu', hparams⟩ := hpulls r.pull u hu
    rw [← heq.1, ← heq.2.1, ← heq.2.2]
    exact ⟨hid, u', hu', by rw [hparams]; exact huid, by rw [hparams]; exact hud⟩
  · rw [hdigests, h.digests]
    constructor
    · rintro ⟨r, hr, rfl⟩
      obtain ⟨r', hr', heq⟩ := hkey' id r hr
      rw [Running.key, Running.key, Prod.mk.injEq, Prod.mk.injEq] at heq
      exact ⟨r', hr', heq.2.2⟩
    · rintro ⟨r', hr', rfl⟩
      obtain ⟨r, hr, heq⟩ := hkey id r' hr'
      rw [Running.key, Running.key, Prod.mk.injEq, Prod.mk.injEq] at heq
      exact ⟨r, hr, heq.2.2⟩
  · rw [hlen]
    exact h.bound

theorem Tabled.leave (h : Tabled s) (ho : Own s p u r) (hpulls : Keeps s s')
    (htable : s'.table = s.table.erase u.params.transferId)
    (hdigests : s'.digests = s.digests.erase u.params.digest) : Tabled s' := by
  refine ⟨fun id r' hr' => ?_, fun id digest => ?_, ?_⟩
  · rw [htable, lookup_erase] at hr'
    split at hr'
    · cases hr'
    · obtain ⟨hid, v, hv, hvid, hvd⟩ := h.row id r' hr'
      obtain ⟨v', hv', hparams⟩ := hpulls r'.pull v hv
      exact ⟨hid, v', hv', by rw [hparams]; exact hvid, by rw [hparams]; exact hvd⟩
  · rw [htable, hdigests, lookup_erase, lookup_erase]
    have hown : ∀ id, s.digests.lookup u.params.digest = some id ↔ id = u.params.transferId := by
      intro id
      have hself := (h.digests u.params.transferId u.params.digest).mpr
        ⟨r, ho.row, (h.digest ho).symm⟩
      rw [hself, some.injEq, eq_comm]
    by_cases hd : digest = u.params.digest
    · subst hd
      rw [if_pos rfl]
      constructor
      · rintro ⟨⟩
      · rintro ⟨r', hr', hd⟩
        split at hr'
        · cases hr'
        · rename_i hne
          exact absurd ((hown id).mp ((h.digests id _).mpr ⟨r', hr', hd⟩)) hne
    · rw [if_neg hd, h.digests]
      refine exists_congr fun r' => and_congr_left fun hr' => ?_
      split
      · rename_i hid
        subst hid
        rw [ho.row]
        refine iff_of_false (fun heq => hd ?_) (by rintro ⟨⟩)
        cases heq
        rw [← hr', h.digest ho]
      · rfl
  · rw [htable]
    exact Nat.le_trans (len_erase_le _ _) h.bound

/-- What an accepted pull found. -/
structure Accepted (s s' : State Root) (params : NativeFileTransferPullParams Root)
    (now : Instant) : Prop where
  id : s.table.lookup params.transferId = none
  digest : s.digests.lookup params.digest = none
  room : s.table.len < pullsInFlight
  eq : s' = { s with
    pulls := s.pulls ++ [{ params, activity := now, stage := .starting, aborted := false
                           temps := [] }]
    digests := s.digests.insert params.digest params.transferId
    table := s.table.insert params.transferId (.new s.pulls.length params)
    sent := s.sent ++ [.accepted s.pulls.length] }

variable {params : NativeFileTransferPullParams Root}

theorem accepted_of_pull {now : Instant}
    (hs : s.pull params now = .ok s') : Accepted s s' params now := by
  rw [State.pull] at hs
  split at hs
  · cases hs
  split at hs
  · cases hs
  rename_i hid
  split at hs
  · cases hs
  rename_i hdigest
  split at hs
  · cases hs
  rename_i hroom
  cases hs
  exact ⟨not_isSome_iff_eq_none.mp hid, not_isSome_iff_eq_none.mp hdigest,
    Nat.lt_of_not_le hroom, rfl⟩

theorem Accepted.keeps {now : Instant}
    (ha : Accepted s s' params now) : Keeps s s' := by
  intro q u hu
  rw [ha.eq]
  refine ⟨u, ?_, rfl⟩
  rw [List.getElem?_append_left (List.getElem?_eq_some_iff.mp hu).1]
  exact hu

theorem Tabled.accept {now : Instant} (h : Tabled s)
    (ha : Accepted s s' params now) : Tabled s' := by
  have hkeeps := ha.keeps
  obtain ⟨hid, hdigest, hroom, rfl⟩ := ha
  refine ⟨fun id r' hr' => ?_, fun id digest => ?_, ?_⟩
  · rw [lookup_insert] at hr'
    split at hr'
    · rename_i he
      cases hr'
      exact ⟨he.symm, _, List.getElem?_concat_length, he.symm, rfl⟩
    · obtain ⟨hrow, v, hv, hvid, hvd⟩ := h.row id r' hr'
      obtain ⟨v', hv', hparams⟩ := hkeeps r'.pull v hv
      exact ⟨hrow, v', hv', by rw [hparams]; exact hvid, by rw [hparams]; exact hvd⟩
  · rw [lookup_insert, lookup_insert]
    by_cases hd : digest = params.digest
    · subst hd
      rw [if_pos rfl, some.injEq]
      constructor
      · rintro rfl
        exact ⟨_, if_pos rfl, rfl⟩
      · rintro ⟨r', hr', hd⟩
        split at hr'
        · rename_i he
          exact he.symm
        · have hold := (h.digests id _).mpr ⟨r', hr', hd⟩
          rw [hdigest] at hold
          cases hold
    · rw [if_neg hd, h.digests]
      refine exists_congr fun r' => and_congr_left fun hr' => ?_
      split
      · rename_i he
        subst he
        rw [hid]
        refine iff_of_false (by rintro ⟨⟩) fun heq => hd ?_
        cases heq
        exact hr'.symm
      · rfl
  · rw [len_insert hid]
    exact hroom

end Table

end VibeField.Native.FileTransfer
