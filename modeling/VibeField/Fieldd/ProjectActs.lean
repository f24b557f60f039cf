import VibeField.Fieldd.ProjectMerge

/-!
# Reading merged acts

Desktops that have heard of every write read the same projects, and what they read is all that was
written, with the latest times, in every run that keeps the order.
-/

namespace VibeField.Fieldd.ProjectDoc

open Option

variable {R P : Type} [LinearOrder P] {stringify : R → Text} {parse : Text → Option R}
  {s : State R P} {p q : P} {k : Key} {t : ℚ} {m : MapName} {a b c d key : Text}

theorem id_of_part {what : String} (h : part a what = .ok ()) : Id a := by
  unfold part at h
  split at h
  · cases h
  · next hok => exact ⟨fun hnil => hok (Or.inl hnil), fun hsep => hok (Or.inr hsep)⟩

theorem ids_of_parts {what what' : String}
    (h : (do part a what; part b what') = Except.ok ()) : Id a ∧ Id b := by
  cases ha : part a what with
  | error text =>
    rw [ha] at h
    cases h
  | ok _ =>
    rw [ha] at h
    exact ⟨id_of_part ha, id_of_part h⟩

/-! ## The times of a key are the times of its acts -/

variable {written : List (ProjectWrite R)}

theorem times_acted (ha : Id a) (hb : Id b) :
    times written (.acted, joined a b) = {t | .acted a b t ∈ written} := by
  ext t
  refine ⟨?_, fun hw => ⟨_, hw, rfl⟩⟩
  rintro ⟨w, hw, ht⟩
  obtain ⟨_, _, rfl, hk⟩ | ⟨_, _, rfl, hk⟩ | ⟨_, _, rfl, hk⟩ := timeOf_cases ht
  · obtain ⟨rfl, rfl⟩ := joined_inj ha hb (Prod.mk.inj hk).2.symm
    exact hw
  · cases (Prod.mk.inj hk).1
  · cases (Prod.mk.inj hk).1

theorem times_links (ha : Id a) (hb : Id b) : times written (.links, joined a b) =
    {t | ∃ c d, .link c d t ∈ written ∧ sorted c d = (a, b)} := by
  ext t
  constructor
  · rintro ⟨w, hw, ht⟩
    obtain ⟨_, _, rfl, hk⟩ | ⟨c, d, rfl, hk⟩ | ⟨_, _, rfl, hk⟩ := timeOf_cases ht
    · cases (Prod.mk.inj hk).1
    · obtain ⟨hfst, hsnd⟩ := joined_inj ha hb (Prod.mk.inj hk).2.symm
      exact ⟨c, d, hw, Prod.ext hfst hsnd⟩
    · cases (Prod.mk.inj hk).1
  · rintro ⟨c, d, hw, hsorted⟩
    refine ⟨_, hw, ?_⟩
    show some ((MapName.links, joined (sorted c d).1 (sorted c d).2), t) = _
    rw [hsorted]

theorem times_splits (ha : Id a) (hb : Id b) :
    times written (.splits, joined a b) = {t | .split a b t ∈ written} := by
  ext t
  refine ⟨?_, fun hw => ⟨_, hw, rfl⟩⟩
  rintro ⟨w, hw, ht⟩
  obtain ⟨_, _, rfl, hk⟩ | ⟨_, _, rfl, hk⟩ | ⟨_, _, rfl, hk⟩ := timeOf_cases ht
  · cases (Prod.mk.inj hk).1
  · cases (Prod.mk.inj hk).1
  · obtain ⟨rfl, rfl⟩ := joined_inj ha hb (Prod.mk.inj hk).2.symm
    exact hw

/-! ## The values a merged replica reads -/

section Merged

variable (hm : Merged s p)

include hm

theorem Kept.get_of_made (h : Kept s) (hm' : m.holdsTimes = true) {u : Write Key Value P}
    (hu : Made s.docs u) (hkey : u.key = (m, key)) :
    ∃ t, get (s.docs p) m key = some (.number t) := by
  obtain ⟨q, hq⟩ := hu
  obtain ⟨v, hv, hvkey, hread⟩ := Write.exists_read (hm q u hq)
  obtain ⟨t, ht⟩ := h.replicas.times v ⟨p, hv⟩ (by rw [hvkey, hkey]; exact hm')
  refine ⟨t, ?_⟩
  rw [get, ← hkey, hread, ht]

theorem Kept.get_greatest (h : Kept s) (hlater : m.takesLater = true)
    (hget : get (s.docs p) m key = some (.number t)) :
    IsGreatest (times s.written (m, key)) t := by
  obtain ⟨v, hv, hvalue⟩ := map_eq_some_iff.mp hget
  obtain ⟨hmem, hkey⟩ := Write.newest_mem hv
  have hlatest : Latest s.docs (m, key) v :=
    ⟨⟨p, hmem⟩, hkey, fun u ⟨q, hu⟩ huk => Write.newest_max hv (hm q u hu) huk⟩
  obtain ⟨u, hu, hgreatest⟩ := h.latest (m, key) v hlater hlatest
  obtain rfl : u = t := Value.number.inj (hu.symm.trans hvalue)
  exact hgreatest

theorem Kept.read_pair (h : Kept s) (hm' : m.holdsTimes = true) {w : ProjectWrite R}
    (hw : w ∈ s.written) (hk : (touches w).head? = some (m, joined a b)) (ha : Id a) (hb : Id b) :
    ∃ t, (a, b, t) ∈ timed (s.docs p) m := by
  obtain ⟨u, hu, hkey⟩ := h.there w hw _ hk
  obtain ⟨t, ht⟩ := h.get_of_made hm hm' hu hkey
  exact ⟨t, mem_timed.mpr ⟨ha, hb, ht⟩⟩

theorem Kept.read_record (h : Kept s) (parse : Text → Option R) {u : Write Key Value P}
    (hu : Made s.docs u) (hkey : u.key = (.created, a)) :
    ∃ c, (a, c) ∈ created (s.docs p) ∧
      recordOf parse (s.docs p) a c ∈ (readProjectIntents parse (s.docs p)).records := by
  obtain ⟨c, hc⟩ := h.get_of_made hm (m := .created) rfl hu hkey
  refine ⟨c, mem_created.mpr hc, ?_⟩
  exact Comparison.mem_sort.mpr (List.mem_map.mpr ⟨(a, c), mem_created.mpr hc, rfl⟩)

omit hm in
theorem sorted_ids (ha : Id a) (hb : Id b) : Id (sorted a b).1 ∧ Id (sorted a b).2 := by
  unfold sorted
  split
  · exact ⟨ha, hb⟩
  · exact ⟨hb, ha⟩

theorem Kept.readsAll (h : Kept s) : ReadsAll s.written (readProjectIntents parse (s.docs p)) where
  record r c ink hw := by
    obtain ⟨u, hu, hkey⟩ := h.there _ hw _ rfl
    obtain ⟨c, -, hrec⟩ := h.read_record hm parse hu hkey
    exact ⟨_, hrec, rfl⟩
  anchor r a t hw := by
    obtain ⟨u, hu, hkey⟩ := h.record _ hw r rfl
    obtain ⟨c, hc, hrec⟩ := h.read_record hm parse hu hkey
    obtain ⟨ha, hr⟩ := ids_of_parts (h.ids _ hw)
    obtain ⟨u, hu⟩ := h.read_pair hm (m := .anchors) rfl hw rfl hr ha
    refine ⟨_, hrec, rfl, List.mem_map.mpr ⟨(a, u), Comparison.mem_sort.mpr ?_, rfl⟩⟩
    exact mem_ofRecord.mpr ⟨⟨c, hc⟩, hu⟩
  acted r a t hw := by
    obtain ⟨u, hu, hkey⟩ := h.record _ hw r rfl
    obtain ⟨c, hc, hrec⟩ := h.read_record hm parse hu hkey
    obtain ⟨ha, hr⟩ := ids_of_parts (h.ids _ hw)
    obtain ⟨u, hu⟩ := h.read_pair hm (m := .acted) rfl hw rfl hr ha
    exact ⟨_, hrec, rfl, u, Comparison.mem_sort.mpr (mem_ofRecord.mpr ⟨⟨c, hc⟩, hu⟩)⟩
  link a b t hw := by
    obtain ⟨ha, hb⟩ := ids_of_parts (h.ids _ hw)
    obtain ⟨ha', hb'⟩ := sorted_ids ha hb
    obtain ⟨u, hu⟩ := h.read_pair hm (m := .links) rfl hw rfl ha' hb'
    exact ⟨⟨(sorted a b).1, (sorted a b).2, u⟩,
      Comparison.mem_sort.mpr (List.mem_map.mpr ⟨_, hu, rfl⟩), rfl⟩
  split a r t hw := by
    obtain ⟨ha, hr⟩ := ids_of_parts (h.ids _ hw)
    obtain ⟨u, hu⟩ := h.read_pair hm (m := .splits) rfl hw rfl ha hr
    exact ⟨⟨a, r, u⟩, Comparison.mem_sort.mpr (List.mem_map.mpr ⟨_, hu, rfl⟩), rfl, rfl⟩
  dismissal a b t hw := by
    obtain ⟨ha, hb⟩ := ids_of_parts (h.ids _ hw)
    obtain ⟨ha', hb'⟩ := sorted_ids ha hb
    obtain ⟨u, hu⟩ := h.read_pair hm (m := .dismissals) rfl hw rfl ha' hb'
    exact Comparison.mem_sort.mpr (List.mem_map.mpr ⟨_, hu, rfl⟩)
  actedTime g hg a u hmem := by
    obtain ⟨⟨r, c⟩, hc, rfl⟩ := List.mem_map.mp (Comparison.mem_sort.mp hg)
    obtain ⟨-, htimed⟩ := mem_ofRecord.mp (Comparison.mem_sort.mp hmem)
    obtain ⟨hr, ha, hget⟩ := mem_timed.mp htimed
    have hgreatest := h.get_greatest hm (m := .acted) rfl hget
    rw [times_acted hr ha] at hgreatest
    exact hgreatest
  linkTime l hl := by
    obtain ⟨⟨a, b, t⟩, ht, rfl⟩ := List.mem_map.mp (Comparison.mem_sort.mp hl)
    obtain ⟨ha, hb, hget⟩ := mem_timed.mp ht
    rw [← times_links ha hb]
    exact h.get_greatest hm rfl hget
  splitTime l hl := by
    obtain ⟨⟨a, b, t⟩, ht, rfl⟩ := List.mem_map.mp (Comparison.mem_sort.mp hl)
    obtain ⟨ha, hb, hget⟩ := mem_timed.mp ht
    rw [← times_splits ha hb]
    exact h.get_greatest hm rfl hget

end Merged

/-! ## What any replica reads -/

theorem valued_reachable (h : (machine R P stringify).Reachable s) : Valued s :=
  h.invariant (P := Valued) (fun _ hv => absurd hv.choose_spec List.not_mem_nil)
    fun _ _ _ hs hnext => hs.next hnext

/-- Whatever has reached a desktop, and whatever the clocks said, it reads no acted place, no link
and no split but one that somebody wrote, with the time it was written with. -/
theorem reads_written (parse : Text → Option R) (h : (machine R P stringify).Reachable s) (p : P) :
    (∀ g ∈ (readProjectIntents parse (s.docs p)).records, ∀ a t, (a, t) ∈ g.places →
      .acted g.id a t ∈ s.written) ∧
    (∀ l ∈ (readProjectIntents parse (s.docs p)).links,
      ∃ a b, .link a b l.time ∈ s.written ∧ sorted a b = (l.a, l.b)) ∧
    ∀ l ∈ (readProjectIntents parse (s.docs p)).splits,
      .split l.place l.notRecord l.time ∈ s.written := by
  have hvalued := valued_reachable h
  refine ⟨fun g hg a t hmem => ?_, fun l hl => ?_, fun l hl => ?_⟩
  · obtain ⟨⟨r, c⟩, -, rfl⟩ := List.mem_map.mp (Comparison.mem_sort.mp hg)
    obtain ⟨hr, ha, hget⟩ :=
      mem_timed.mp (mem_ofRecord.mp (Comparison.mem_sort.mp hmem)).2
    have htime := hvalued.times_of_get (k := (.acted, joined r a)) rfl hget
    rwa [times_acted hr ha] at htime
  · obtain ⟨⟨a, b, t⟩, ht, rfl⟩ := List.mem_map.mp (Comparison.mem_sort.mp hl)
    obtain ⟨ha, hb, hget⟩ := mem_timed.mp ht
    have htime := hvalued.times_of_get (k := (.links, joined a b)) rfl hget
    rwa [times_links ha hb] at htime
  · obtain ⟨⟨a, b, t⟩, ht, rfl⟩ := List.mem_map.mp (Comparison.mem_sort.mp hl)
    obtain ⟨ha, hb, hget⟩ := mem_timed.mp ht
    have htime := hvalued.times_of_get (k := (.splits, joined a b)) rfl hget
    rwa [times_splits ha hb] at htime

/-- Merged desktops read the same records, links, splits and dismissals.  They are all that was
written, with the latest times, in every run in which the times a key is given keep the order of
the stamps and anchors and acted places are written for records that exist. -/
theorem acts_merge (stringify : R → Text) (parse : Text → Option R) :
    (∀ s, (machine R P stringify).Reachable s → ∀ p q, Merged s p → Merged s q →
      readProjectIntents parse (s.docs p) = readProjectIntents parse (s.docs q)) ∧
    ∀ s, (machine R P stringify).Reaches (Ordered stringify) s → ∀ p, Merged s p →
      ReadsAll s.written (readProjectIntents parse (s.docs p)) := by
  constructor
  · intro s hs p q hp hq
    exact readProjectIntents_congr ((replicas_reachable hs).distinct_doc p)
      fun w => ⟨fun hw => hq p w hw, fun hw => hp q w hw⟩
  · intro s hs p hp
    have hkept : Kept s := hs.invariant kept_start fun _ _ _ hk hok hs => hk.next hok hs
    exact hkept.readsAll hp

instance (s : State Text (Fin 2)) (p : Fin 2) : Decidable (Merged s p) :=
  inferInstanceAs (Decidable (∀ q, ∀ w ∈ s.docs q, w ∈ s.docs p))

/-- A desktop links two places, and another hears of it. -/
theorem acts_merge_linked : ∃ s : State Text (Fin 2),
    s.written = [.link ['a'] ['b'] 10] ∧ ReadsAll s.written (readProjectIntents some (s.docs 1)) ∧
      readProjectIntents some (s.docs 0) = readProjectIntents some (s.docs 1) := by
  have hlink : Ordered id (machine Text (Fin 2) id).start (.applied 0 [.link ['a'] ['b'] 10]) := by
    intro _
    refine ⟨⟨?_, ?_⟩, trivial⟩
    · intro k t _ _ v u hv
      exact absurd hv.1.choose_spec List.not_mem_nil
    · intro r hr
      cases hr
  have hhear (s : State Text (Fin 2)) : Ordered id s
      (.received 1 0 [⟨(.links, pair ['a'] ['b']), .number 10, 0, 0⟩]) := trivial
  have hs := (Machine.Reaches.start.next hlink rfl).next (hhear _) rfl
  obtain ⟨hsame, hall⟩ := acts_merge (P := Fin 2) id (some : Text → Option Text)
  refine ⟨_, rfl, hall _ hs 1 (by decide), hsame _ hs.reachable 0 1 (by decide) (by decide)⟩

/-! ## Two desktops -/

def crossed : List (Event Text (Fin 2)) :=
  let first : Doc (Fin 2) := [⟨(.links, pair ['a'] ['b']), .number 20, 0, 0⟩]
  let second : Doc (Fin 2) :=
    [⟨(.links, pair ['a'] ['b']), .number 10, 1, 1⟩, ⟨(.canvases, ['c']), .text ['n'], 0, 1⟩]
  [.applied 0 [.link ['a'] ['b'] 20], .canvas 1 ['c'] (.text ['n']),
    .applied 1 [.link ['b'] ['a'] 10], .received 0 1 second, .received 1 0 first]

theorem crossed_reads : ∃ s, (machine Text (Fin 2) id).Reachable s ∧ Merged s 0 ∧ Merged s 1 ∧
    .link ['a'] ['b'] 20 ∈ s.written ∧
      (readProjectIntents some (s.docs 0)).links = [⟨['a'], ['b'], 10⟩] := by
  obtain ⟨s, hs, hp⟩ := Machine.exists_of_run (M := machine Text (Fin 2) id)
    (fun s => decide (Merged s 0 ∧ Merged s 1 ∧ .link ['a'] ['b'] 20 ∈ s.written ∧
      (readProjectIntents some (s.docs 0)).links = [⟨['a'], ['b'], 10⟩])) crossed (by decide)
  exact ⟨s, hs, of_decide_eq_true hp⟩

theorem reads_written_crossed : ∃ s, (machine Text (Fin 2) id).Reachable s ∧
    ∃ a b, .link a b 10 ∈ s.written ∧ sorted a b = (['a'], ['b']) := by
  obtain ⟨s, hs, -, -, -, hlinks⟩ := crossed_reads
  exact ⟨s, hs, (reads_written some hs 0).2.1 ⟨['a'], ['b'], 10⟩
    (by rw [hlinks]; exact List.mem_cons_self)⟩

/-- A merged desktop may miss the latest time of a link. -/
theorem later_link_lost : ¬ ∀ s, (machine Text (Fin 2) id).Reachable s → ∀ p, Merged s p →
    ReadsAll s.written (readProjectIntents some (s.docs p)) := by
  intro h
  obtain ⟨s, hs, hmerged, -, hwritten, hlinks⟩ := crossed_reads
  have htime := (h s hs 0 hmerged).linkTime ⟨['a'], ['b'], 10⟩
    (by rw [hlinks]; exact List.mem_cons_self)
  exact absurd (htime.2 ⟨['a'], ['b'], hwritten, rfl⟩) (by decide : ¬ (20 : ℚ) ≤ 10)

end VibeField.Fieldd.ProjectDoc
