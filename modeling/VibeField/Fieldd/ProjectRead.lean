import VibeField.Fieldd.ProjectDoc
import Mathlib.Data.List.TakeWhile

/-!
# What a replica reads

The keys of two ids come apart again, what stands in a map is what is read back from it, and two
replicas that have heard of the same writes read the same.
-/

namespace VibeField.Fieldd.ProjectDoc

open List Option

/-! ## Keys -/

variable {a b c d key : Text}

theorem takeWhile_joined (ha : sep ∉ a) : (joined a b).takeWhile (· != sep) = a := by
  unfold joined
  induction a with
  | nil => rfl
  | cons x rest ih =>
    have hx : (x != sep) = true := bne_iff_ne.mpr fun h => ha (h ▸ mem_cons_self)
    rw [cons_append, takeWhile_cons_of_pos (p := (· != sep)) hx,
      ih fun h => ha (mem_cons_of_mem _ h)]

theorem dropWhile_joined (ha : sep ∉ a) : (joined a b).dropWhile (· != sep) = sep :: b := by
  unfold joined
  induction a with
  | nil => rfl
  | cons x rest ih =>
    have hx : (x != sep) = true := bne_iff_ne.mpr fun h => ha (h ▸ mem_cons_self)
    rw [cons_append, dropWhile_cons_of_pos (p := (· != sep)) hx,
      ih fun h => ha (mem_cons_of_mem _ h)]

/-- An id that a key can hold. -/
def Id (id : Text) : Prop := id ≠ [] ∧ sep ∉ id

theorem halves_joined (ha : Id a) (hb : Id b) : halves (joined a b) = some (a, b) := by
  unfold halves
  rw [dropWhile_joined ha.2, takeWhile_joined ha.2]
  exact if_neg fun h => h.elim ha.1 fun h => h.elim hb.1 hb.2

theorem of_halves (h : halves key = some (a, b)) : key = joined a b ∧ Id a ∧ Id b := by
  unfold halves at h
  split at h
  · cases h
  · next x rest hdrop =>
    dsimp only at h
    split at h
    · cases h
    · next hok =>
      obtain ⟨rfl, rfl⟩ := Prod.mk.inj (some.inj h)
      have hsplit := takeWhile_append_dropWhile (p := (· != sep)) (l := key)
      rw [hdrop] at hsplit
      have hx : x = sep := by
        have hhead := head_dropWhile_not (· != sep) (l := key)
          (by rw [hdrop]; exact cons_ne_nil _ _)
        simpa [hdrop] using hhead
      rw [hx] at hsplit
      refine ⟨hsplit.symm, ⟨fun h => hok (Or.inl h), fun h => ?_⟩,
        fun h => hok (Or.inr (Or.inl h)), fun h => hok (Or.inr (Or.inr h))⟩
      simpa using mem_takeWhile_imp h

theorem joined_inj (ha : Id a) (hb : Id b) (h : joined c d = joined a b) : c = a ∧ d = b := by
  have hc : sep ∉ c := by
    intro hc
    have hcount := congrArg (List.count sep) h
    have hpos := count_pos_iff.mpr hc
    simp only [joined, count_append, count_cons_self,
      count_eq_zero_of_not_mem ha.2, count_eq_zero_of_not_mem hb.2] at hcount
    omega
  refine ⟨?_, ?_⟩
  · rw [← takeWhile_joined hc (b := d), h, takeWhile_joined ha.2]
  · have hdrop := dropWhile_joined hc (b := d)
    rw [h, dropWhile_joined ha.2] at hdrop
    exact (List.cons.inj hdrop).2.symm

/-! ## Entries -/

variable {R P : Type} [LinearOrder P] {parse : Text → Option R} {doc doc' : Doc P} {m : MapName}
  {id place : Text} {v : Value} {t : ℚ}

theorem mem_entries : (key, v) ∈ entries doc m ↔ get doc m key = some v := by
  unfold entries get
  rw [mem_filterMap, ← Write.mem_entries]
  constructor
  · rintro ⟨⟨⟨m', key'⟩, v'⟩, hmem, heq⟩
    dsimp only at heq
    split at heq
    · next hm =>
      obtain ⟨rfl, rfl⟩ := Prod.mk.inj (some.inj heq)
      exact hm ▸ hmem
    · cases heq
  · intro hmem
    exact ⟨_, hmem, if_pos rfl⟩

theorem of_isTime (h : isTime v = some t) : v = .number t := by
  cases v with
  | number n => exact congrArg Value.number (some.inj h)
  | text _ => cases h
  | flag _ => cases h

theorem mem_created : (id, t) ∈ created doc ↔ get doc .created id = some (.number t) := by
  unfold created
  rw [mem_filterMap, ← mem_entries]
  constructor
  · rintro ⟨⟨id', v⟩, hmem, heq⟩
    obtain ⟨t', ht', heq⟩ := map_eq_some_iff.mp heq
    obtain ⟨rfl, rfl⟩ := Prod.mk.inj heq
    exact of_isTime ht' ▸ hmem
  · intro hmem
    exact ⟨_, hmem, rfl⟩

theorem mem_timed : (a, b, t) ∈ timed doc m ↔
    Id a ∧ Id b ∧ get doc m (joined a b) = some (.number t) := by
  unfold timed
  rw [mem_filterMap]
  constructor
  · rintro ⟨⟨key, v⟩, hmem, heq⟩
    obtain ⟨⟨a', b'⟩, hsplit, heq⟩ := bind_eq_some_iff.mp heq
    obtain ⟨t', ht', heq⟩ := map_eq_some_iff.mp heq
    simp only [Prod.mk.injEq] at heq
    obtain ⟨rfl, rfl, rfl⟩ := heq
    obtain ⟨rfl, ha, hb⟩ := of_halves hsplit
    exact ⟨ha, hb, of_isTime ht' ▸ mem_entries.mp hmem⟩
  · rintro ⟨ha, hb, hget⟩
    refine ⟨(joined a b, .number t), mem_entries.mpr hget, ?_⟩
    rw [halves_joined ha hb]
    rfl

theorem mem_ofRecord : (place, t) ∈ ofRecord doc m id ↔
    (∃ c, (id, c) ∈ created doc) ∧ (id, place, t) ∈ timed doc m := by
  unfold ofRecord
  rw [mem_filterMap]
  constructor
  · rintro ⟨⟨id', place', t'⟩, hmem, heq⟩
    dsimp only at heq
    split at heq
    · next hid =>
      obtain ⟨rfl, rfl⟩ := Prod.mk.inj (some.inj heq)
      subst hid
      obtain ⟨hmem, hcreated⟩ := mem_filter.mp hmem
      obtain ⟨⟨id'', c⟩, hc, rfl⟩ := List.mem_map.mp (of_decide_eq_true hcreated)
      exact ⟨⟨c, hc⟩, hmem⟩
    · cases heq
  · rintro ⟨⟨c, hc⟩, hmem⟩
    exact ⟨_, mem_filter.mpr ⟨hmem, decide_eq_true (List.mem_map_of_mem hc)⟩, if_pos rfl⟩

/-! ## Two replicas -/

theorem ties_byString {s t : Text} : byString.Ties s t ↔ s = t := by
  constructor
  · rintro ⟨hst, hts⟩
    exact Utf16.encode_inj (Utf16.le_antisymm _ _ hst hts)
  · rintro rfl
    exact ⟨(byString.total s s).elim id id, (byString.total s s).elim id id⟩

theorem ties_byNumber {s t : ℚ} : byNumber.Ties s t ↔ s = t := Comparison.ties_order

section Same

variable (hd : Write.Distinct doc) (h : ∀ w, w ∈ doc ↔ w ∈ doc')

include hd h

theorem get_congr (m : MapName) (key : Text) : get doc m key = get doc' m key :=
  Write.read_congr hd h (m, key)

theorem entries_perm (m : MapName) : (entries doc m).Perm (entries doc' m) :=
  (Write.entries_perm hd h).filterMap _

theorem created_perm : (created doc).Perm (created doc') := (entries_perm hd h _).filterMap _

theorem timed_perm (m : MapName) : (timed doc m).Perm (timed doc' m) :=
  (entries_perm hd h m).filterMap _

theorem ofRecord_perm (m : MapName) (id : Text) :
    (ofRecord doc m id).Perm (ofRecord doc' m id) := by
  unfold ofRecord
  refine List.Perm.filterMap _ ?_
  have hsame : ∀ e : Text × Text × ℚ, (e.1 ∈ (created doc).map Prod.fst) =
      (e.1 ∈ (created doc').map Prod.fst) := by
    intro e
    exact propext ((created_perm hd h).map Prod.fst).mem_iff
  simp only [hsame]
  exact (timed_perm hd h m).filter _

theorem recordOf_congr (id : Text) (createdAt : ℚ) :
    recordOf parse doc id createdAt = recordOf parse doc' id createdAt := by
  have hanchors : byAnchor.sort (ofRecord doc .anchors id) =
      byAnchor.sort (ofRecord doc' .anchors id) := by
    refine Comparison.sort_congr (ofRecord_perm hd h _ id) ?_
    intro x _ y _ hties
    obtain ⟨hsnd, hrest⟩ := Comparison.ties_thenBy.mp hties
    obtain ⟨-, hfst⟩ := Comparison.ties_thenBy.mp hrest
    exact Prod.ext (ties_byString.mp hfst) (ties_byNumber.mp hsnd)
  have hplaces : (byString.on Prod.fst).sort (ofRecord doc .acted id) =
      (byString.on Prod.fst).sort (ofRecord doc' .acted id) := by
    refine Comparison.sort_congr (ofRecord_perm hd h _ id) ?_
    rintro ⟨x, s⟩ hx ⟨y, t⟩ hy hties
    obtain rfl : x = y := ties_byString.mp hties
    obtain ⟨-, -, hx⟩ := mem_timed.mp (mem_ofRecord.mp hx).2
    obtain ⟨-, -, hy⟩ := mem_timed.mp (mem_ofRecord.mp hy).2
    rw [Value.number.inj (some.inj (hx.symm.trans hy))]
  unfold recordOf
  rw [hanchors, hplaces]
  simp only [get_congr hd h]

theorem readProjectIntents_congr :
    readProjectIntents parse doc = readProjectIntents parse doc' := by
  have hrecords : byAge.sort ((created doc).map fun e => recordOf parse doc e.1 e.2) =
      byAge.sort ((created doc').map fun e => recordOf parse doc' e.1 e.2) := by
    simp only [recordOf_congr hd h]
    refine Comparison.sort_congr ((created_perm hd h).map _) ?_
    intro x hx y hy hties
    obtain ⟨e, -, rfl⟩ := List.mem_map.mp hx
    obtain ⟨e', -, rfl⟩ := List.mem_map.mp hy
    obtain ⟨hage, hid⟩ := Comparison.ties_thenBy.mp hties
    have hage : e.2 = e'.2 := ties_byNumber.mp hage
    have hid : e.1 = e'.1 := ties_byString.mp hid
    rw [hage, hid]
  have hlinks : byLink.sort ((timed doc .links).map fun e => ⟨e.1, e.2.1, e.2.2⟩) =
      byLink.sort ((timed doc' .links).map fun e => ⟨e.1, e.2.1, e.2.2⟩) := by
    refine Comparison.sort_congr ((timed_perm hd h _).map _) ?_
    rintro ⟨a, b, t⟩ - ⟨a', b', t'⟩ - hties
    obtain ⟨htime, hids⟩ := Comparison.ties_thenBy.mp hties
    obtain ⟨ha, hb⟩ := Comparison.ties_thenBy.mp hids
    obtain rfl : t = t' := ties_byNumber.mp htime
    obtain rfl : a = a' := ties_byString.mp ha
    obtain rfl : b = b' := ties_byString.mp hb
    rfl
  have hsplits : bySplit.sort ((timed doc .splits).map fun e => ⟨e.1, e.2.1, e.2.2⟩) =
      bySplit.sort ((timed doc' .splits).map fun e => ⟨e.1, e.2.1, e.2.2⟩) := by
    refine Comparison.sort_congr ((timed_perm hd h _).map _) ?_
    rintro ⟨a, b, t⟩ - ⟨a', b', t'⟩ - hties
    obtain ⟨htime, hids⟩ := Comparison.ties_thenBy.mp hties
    obtain ⟨ha, hb⟩ := Comparison.ties_thenBy.mp hids
    obtain rfl : t = t' := ties_byNumber.mp htime
    obtain rfl : a = a' := ties_byString.mp ha
    obtain rfl : b = b' := ties_byString.mp hb
    rfl
  have hdismissals : byPair.sort ((timed doc .dismissals).map fun e => (e.1, e.2.1)) =
      byPair.sort ((timed doc' .dismissals).map fun e => (e.1, e.2.1)) := by
    refine Comparison.sort_congr ((timed_perm hd h _).map _) ?_
    rintro ⟨a, b⟩ - ⟨a', b'⟩ - hties
    obtain ⟨ha, hb⟩ := Comparison.ties_thenBy.mp hties
    obtain rfl : a = a' := ties_byString.mp ha
    obtain rfl : b = b' := ties_byString.mp hb
    rfl
  unfold readProjectIntents
  rw [hrecords, hlinks, hsplits, hdismissals]

end Same

end VibeField.Fieldd.ProjectDoc
