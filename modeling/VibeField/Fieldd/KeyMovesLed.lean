import Mathlib.Data.List.Infix
import VibeField.Fieldd.KeyMoves

/-!
# The journal tells its history

One regroup is read row by row, a row being a place and its key.  The tallies count where the
places of a lost key were found, their winner is the key that took the most, and so what is
remembered of a key is its last move in the history.
-/

namespace VibeField.Fieldd.KeyJournal

open List Option

variable {κ π : Type} [LinearOrder κ] [DecidableEq π]
  {g g' : List (Project κ π)} {h h' : List (List (Project κ π))} {key key' toKey : κ}
  {journal journal' : Journal κ π} {now : Nat} {o : Options} {s s' : State κ π}

/-! ## Row by row -/

theorem found_eq : journal.found g = (pairs g).foldl
    (fun found row => Found.look journal.places (isCurrent g) row.2 found row.1) .nothing := by
  rw [pairs, foldl_flatMap]
  simp only [foldl_map]
  rfl

omit [LinearOrder κ] in
theorem seen_eq : journal.seen now g = (pairs g).foldl
    (fun places row => (places.erase row.1).put row.1 ⟨row.2, now⟩) journal.places := by
  rw [pairs, foldl_flatMap]
  simp only [foldl_map]
  rfl

omit [DecidableEq π] in
theorem isCurrent_of_mem {row : π × κ} (hrow : row ∈ pairs g) : isCurrent g row.2 = true := by
  obtain ⟨project, hproject, hin⟩ := mem_flatMap.mp hrow
  obtain ⟨placeId, -, rfl⟩ := List.mem_map.mp hin
  exact List.any_eq_true.mpr ⟨project, hproject, decide_eq_true rfl⟩

/-! ## Tallies -/

def counted (n : Nat) : Option Nat := if n = 0 then none else some n

theorem counted_succ (n : Nat) : counted (n + 1) = some ((counted n).getD 0 + 1) := by
  cases n <;> rfl

def strayed (last : π → Option κ) (rows : List (π × κ)) (key : κ) : List κ :=
  (rows.filter fun row => last row.1 = some key).map Prod.snd

structure Tallies (last : π → Option κ) (current : κ → Bool) (rows : List (π × κ))
    (found : Found κ) : Prop where
  counts : ∀ key, current key = false → ∀ key', ((found.scattered.lookup key).getD ∅).lookup key' =
    counted ((strayed last rows key).count key')
  none : ∀ key, current key = true → found.scattered.lookup key = none
  unchanged : found.changed = false → ∀ row ∈ rows, last row.1 = some row.2

omit [DecidableEq π] in
theorem tallies_nothing (last : π → Option κ) (current : κ → Bool) :
    Tallies last current [] .nothing :=
  ⟨fun _ _ _ => rfl, fun _ _ => rfl, fun _ _ hrow => by cases hrow⟩

omit [DecidableEq π] in
theorem strayed_snoc (last : π → Option κ) (rows : List (π × κ)) (row : π × κ) (key : κ) :
    strayed last (rows ++ [row]) key =
      strayed last rows key ++ if last row.1 = some key then [row.2] else [] := by
  rw [strayed, strayed, filter_append, map_append]
  by_cases hlast : last row.1 = some key <;> simp [hlast]

theorem look_some {places : Dict π (Held κ)} {current : κ → Bool} {found : Found κ} {placeId : π}
    {held : Held κ} (hheld : places.lookup placeId = some held) (key : κ) :
    Found.look places current key found placeId =
      { scattered :=
          if held.key = key ∨ current held.key = true then found.scattered
          else
            found.scattered.put held.key
              (((found.scattered.lookup held.key).getD ∅).put key
                ((((found.scattered.lookup held.key).getD ∅).lookup key).getD 0 + 1))
        changed := found.changed || !decide (held.key = key) } := by
  by_cases hkey : held.key = key
  · simp [Found.look, hheld, hkey]
  · by_cases hcur : current held.key = true <;> simp [Found.look, hheld, hkey, hcur]

variable {rows : List (π × κ)}

theorem Tallies.look {places : Dict π (Held κ)} {current : κ → Bool}
    {found : Found κ} {row : π × κ} (hrow : current row.2 = true)
    (ht : Tallies (fun p => (places.lookup p).map Held.key) current rows found) :
    Tallies (fun p => (places.lookup p).map Held.key) current (rows ++ [row])
      (Found.look places current row.2 found row.1) := by
  have hsnoc := strayed_snoc (fun p => (places.lookup p).map Held.key) rows row
  cases hheld : places.lookup row.1 with
  | none =>
    -- a place that was never seen strays from no key
    have hlook : Found.look places current row.2 found row.1 = { found with changed := true } := by
      rw [Found.look, hheld]
    rw [hlook]
    refine ⟨fun key hkey key' => ?_, ht.none, fun hc => by cases hc⟩
    rw [hsnoc, hheld, map_none, if_neg (by simp), append_nil]
    exact ht.counts key hkey key'
  | some held =>
    have hlast : (places.lookup row.1).map Held.key = some held.key := by
      rw [hheld]
      rfl
    rw [look_some hheld]
    refine ⟨fun key hkey key' => ?_, fun key hkey => ?_, fun hc r hr => ?_⟩
    · rw [hsnoc, hlast]
      split
      · next hstays =>
        have hcur : current held.key = true := hstays.elim (fun he => he ▸ hrow) id
        have hne : ¬some held.key = some key := fun he => by
          rw [some.inj he, hkey] at hcur
          cases hcur
        rw [if_neg hne, append_nil]
        exact ht.counts key hkey key'
      · rw [Dict.lookup_put]
        by_cases hk : key = held.key
        · subst hk
          rw [if_pos rfl, if_pos rfl, getD_some, Dict.lookup_put, count_append,
            ht.counts held.key hkey]
          by_cases hto : key' = row.2
          · subst hto
            rw [if_pos rfl, count_singleton_self, counted_succ]
          · rw [if_neg hto, count_singleton, if_neg (by simpa using Ne.symm hto), Nat.add_zero,
              ht.counts held.key hkey]
        · rw [if_neg hk, if_neg fun he => hk (some.inj he).symm, append_nil]
          exact ht.counts key hkey key'
    · split
      · exact ht.none key hkey
      · next hstrays =>
        have hk : key ≠ held.key := fun he => hstrays (.inr (he ▸ hkey))
        rw [Dict.lookup_put, if_neg hk]
        exact ht.none key hkey
    · rw [Bool.or_eq_false_iff, Bool.not_eq_false', decide_eq_true_eq] at hc
      rcases mem_append.mp hr with hold | hnew
      · exact ht.unchanged hc.1 r hold
      · rw [mem_singleton.mp hnew, hlast, hc.2]

theorem tallies_found (journal : Journal κ π) (g : List (Project κ π)) :
    Tallies (fun p => (journal.places.lookup p).map Held.key) (isCurrent g)
    (pairs g) (journal.found g) := by
  have hall : ∀ (rows sofar : List (π × κ)) (found : Found κ), (∀ row ∈ rows, row ∈ pairs g) →
      Tallies (fun p => (journal.places.lookup p).map Held.key) (isCurrent g) sofar found →
      Tallies (fun p => (journal.places.lookup p).map Held.key) (isCurrent g) (sofar ++ rows)
        (rows.foldl (fun found row =>
          Found.look journal.places (isCurrent g) row.2 found row.1) found) := by
    intro rows
    induction rows with
    | nil =>
      intro sofar found _ ht
      rwa [append_nil]
    | cons row rows ih =>
      intro sofar found hrows ht
      rw [foldl_cons, append_cons]
      exact ih _ _ (fun r hr => hrows r (mem_cons_of_mem row hr))
        (ht.look (isCurrent_of_mem (hrows row mem_cons_self)))
  rw [found_eq]
  exact hall (pairs g) [] .nothing (fun _ hrow => hrow) (tallies_nothing _ _)

/-! ## The winner -/

variable {l : List κ}

theorem Took.unique (hk : Took l key) (hk' : Took l key') : key = key' := by
  rcases hk.2 key' hk'.1 with hlt | ⟨heq, hle⟩
  · rcases hk'.2 key hk.1 with hlt' | ⟨heq', -⟩ <;> omega
  · rcases hk'.2 key hk.1 with hlt' | ⟨-, hle'⟩
    · omega
    · exact le_antisymm hle hle'

theorem le_byTally {a b : κ × Nat} (hle : byTally.le a b = true) :
    b.2 < a.2 ∨ b.2 = a.2 ∧ a.1 ≤ b.1 := by
  simp only [byTally, Comparison.thenBy, Comparison.on, Comparison.order, Bool.and_eq_true,
    Bool.or_eq_true, Bool.not_eq_true', decide_eq_true_eq, decide_eq_false_iff_not,
    OrderDual.toDual_le_toDual] at hle
  rcases hle with ⟨hba, hab | hkey⟩
  · exact .inl (by omega)
  · rcases Nat.lt_or_ge b.2 a.2 with hlt | hge
    · exact .inl hlt
    · exact .inr ⟨Nat.le_antisymm hba hge, hkey⟩

theorem first_took {rows : List (κ × Nat)}
    (hrow : ∀ key n, (key, n) ∈ rows ↔ key ∈ l ∧ l.count key = n) :
    (∀ key, ((byTally.sort rows).head?).map Prod.fst = some key ↔ Took l key) ∧
      (((byTally.sort rows).head?).map Prod.fst = none ↔ l = []) := by
  cases hsort : byTally.sort rows with
  | nil =>
    have hempty : l = [] := eq_nil_iff_forall_not_mem.mpr fun key hkey => by
      have hin := Comparison.mem_sort (c := byTally).mpr ((hrow key _).mpr ⟨hkey, rfl⟩)
      rw [hsort] at hin
      cases hin
    refine ⟨fun key => ⟨fun he => (by cases he), fun hk => ?_⟩, ⟨fun _ => hempty, fun _ => rfl⟩⟩
    rw [hempty] at hk
    cases hk.1
  | cons first rest =>
    have hsorted := Comparison.sorted_sort (c := byTally) (l := rows)
    rw [hsort] at hsorted
    have hfirst : first ∈ rows :=
      Comparison.mem_sort (c := byTally).mp (by rw [hsort]; exact mem_cons_self)
    obtain ⟨hin, hcount⟩ := (hrow first.1 first.2).mp hfirst
    have htook : Took l first.1 := by
      refine ⟨hin, fun key' hkey' => ?_⟩
      have hmem := Comparison.mem_sort (c := byTally).mpr ((hrow key' _).mpr ⟨hkey', rfl⟩)
      rw [hsort] at hmem
      rcases mem_cons.mp hmem with heq | hrest
      · exact .inr ⟨by rw [← heq], by rw [← heq]⟩
      · have hle := le_byTally ((pairwise_cons.mp hsorted).1 _ hrest)
        rwa [← hcount] at hle
    refine ⟨fun key => ⟨fun he => ?_, fun hk => ?_⟩, ⟨fun he => (by cases he), fun he => ?_⟩⟩
    · cases he
      exact htook
    · exact congrArg some (htook.unique hk)
    · rw [he] at hin
      cases hin

theorem winner_spec {tally : Dict κ Nat}
    (ht : ∀ key, tally.lookup key = counted (l.count key)) :
    (∀ key, winner tally = some key ↔ Took l key) ∧ (winner tally = none ↔ l = []) := by
  refine first_took fun key n => ?_
  rw [Dict.mem_rows, ht, counted, ← count_pos_iff]
  split
  · next hzero => simp [hzero]
  · next hpos =>
    rw [some_inj]
    exact ⟨fun he => ⟨by omega, he⟩, fun he => he.2⟩

theorem exists_took (hl : l ≠ []) : ∃ key, Took l key := by
  have hrow : ∀ key n, (key, n) ∈ l.map (fun key => (key, l.count key)) ↔
      key ∈ l ∧ l.count key = n := by simp
  have hfirst := first_took hrow
  cases hhead : ((byTally.sort (l.map fun key => (key, l.count key))).head?).map Prod.fst with
  | none => exact absurd (hfirst.2.mp hhead) hl
  | some key => exact ⟨key, (hfirst.1 key).mp hhead⟩

/-! ## One regroup -/

theorem move_lookup (found : Found κ) (key : κ) :
    ∀ (keys : List κ) (sofar : Dict κ (Moved κ) × List (KeyMove κ)),
      ((keys.foldl (move found now) sofar).1).lookup key =
        if key ∈ keys then
          ((winner ((found.scattered.lookup key).getD ∅)).map fun toKey => ⟨toKey, now⟩).or
            (sofar.1.lookup key)
        else sofar.1.lookup key
  | [], _ => rfl
  | fromKey :: keys, sofar => by
    have hstep : (move found now sofar fromKey).1.lookup key =
        if key = fromKey then
          ((winner ((found.scattered.lookup key).getD ∅)).map fun toKey => ⟨toKey, now⟩).or
            (sofar.1.lookup key)
        else sofar.1.lookup key := by
      rw [move]
      split
      · next hnone =>
        split
        · next hk => rw [hk, hnone, map_none, none_or]
        · rfl
      · next toKey hsome =>
        rw [Dict.lookup_put]
        split
        · next hk => rw [hk, hsome, map_some, some_or]
        · next hk => rw [Dict.lookup_erase, if_neg hk]
    rw [foldl_cons, move_lookup found key keys, hstep]
    by_cases hk : key = fromKey
    · subst hk
      rw [if_pos rfl, if_pos mem_cons_self]
      cases winner ((found.scattered.lookup key).getD ∅) <;> simp
    · simp [hk]

theorem moved_lookup : ((journal.moved now g).1).lookup key =
    ((winner (((journal.found g).scattered.lookup key).getD ∅)).map fun toKey => ⟨toKey, now⟩).or
      (journal.moves.lookup key) := by
  rw [Journal.moved, move_lookup]
  split
  · rfl
  · next hk =>
    have hnone : (journal.found g).scattered.lookup key = none := by
      cases hl : (journal.found g).scattered.lookup key with
      | none => rfl
      | some tally => exact absurd (Comparison.mem_sort.mpr (Dict.mem_keys.mpr ⟨tally, hl⟩)) hk
    have hempty : winner (∅ : Dict κ Nat) = none :=
      (winner_spec (l := []) fun _ => rfl).2.mpr rfl
    rw [hnone, getD_none, hempty]
    rfl

omit [LinearOrder κ] in
theorem keyIn_eq_some {placeId : π}
    (hk : keyIn rows placeId = some key) : (placeId, key) ∈ rows := by
  obtain ⟨row, hfind, rfl⟩ := map_eq_some_iff.mp hk
  have hkey : row.1 = placeId := by simpa using List.find?_some hfind
  rw [← hkey]
  exact List.mem_of_find?_eq_some hfind

omit [LinearOrder κ] in
theorem keyIn_of_mem (hrows : (rows.map Prod.fst).Nodup) {placeId : π}
    (hrow : (placeId, key) ∈ rows) : keyIn rows placeId = some key := by
  induction rows with
  | nil => cases hrow
  | cons row rows ih =>
    rw [map_cons, nodup_cons] at hrows
    rcases mem_cons.mp hrow with heq | hrest
    · rw [← heq, keyIn, List.find?_cons_of_pos (by simp)]
      rfl
    · have hne : row.1 ≠ placeId := fun he =>
        hrows.1 (List.mem_map.mpr ⟨(placeId, key), hrest, he.symm⟩)
      rw [keyIn, List.find?_cons_of_neg (by simpa using hne)]
      exact ih hrows.2 hrest

omit [LinearOrder κ] in
theorem seen_lookup (hrows : (rows.map Prod.fst).Nodup) (placeId : π)
    (places : Dict π (Held κ)) :
    ((rows.foldl (fun places row => (places.erase row.1).put row.1 ⟨row.2, now⟩) places).lookup
      placeId).map Held.key = (keyIn rows placeId).or ((places.lookup placeId).map Held.key) := by
  induction rows generalizing places with
  | nil => simp [keyIn]
  | cons row rows ih =>
    rw [map_cons, nodup_cons] at hrows
    rw [foldl_cons, ih hrows.2, Dict.lookup_put]
    by_cases hp : placeId = row.1
    · subst hp
      have hnone : keyIn rows row.1 = none := by
        cases hk : keyIn rows row.1 with
        | none => rfl
        | some key => exact absurd (List.mem_map.mpr ⟨_, keyIn_eq_some hk, rfl⟩) hrows.1
      rw [hnone, if_pos rfl, keyIn, List.find?_cons_of_pos (by simp)]
      rfl
    · rw [if_neg hp, Dict.lookup_erase, if_neg hp, keyIn, keyIn,
        List.find?_cons_of_neg (by simpa using Ne.symm hp)]

/-! ## The whole history -/

structure Faithful (h : List (List (Project κ π))) (journal : Journal κ π) : Prop where
  places : ∀ placeId, (journal.places.lookup placeId).map Held.key = lastKey h placeId
  moves : ∀ key toKey, (journal.moves.lookup key).map Moved.toKey = some toKey ↔ Went h key toKey

theorem faithful_empty : Faithful [] (.empty : Journal κ π) where
  places _ := rfl
  moves _ _ := ⟨fun he => (by cases he), fun hw => (by cases hw)⟩

theorem went_cons : Went (g :: h) key toKey ↔
    if isCurrent g key = true ∨ foundOf h g key = [] then Went h key toKey
    else Took (foundOf h g key) toKey := by
  constructor
  · intro hw
    cases hw with
    | here hcur htook =>
      rw [if_neg]
      · exact htook
      · rintro (hcur' | hnone)
        · rw [hcur] at hcur'
          cases hcur'
        · rw [hnone] at htook
          cases htook.1
    | before hor hw => rwa [if_pos hor]
  · intro hif
    split at hif
    · next hor => exact .before hor hif
    · next hno =>
      rw [not_or, Bool.not_eq_true] at hno
      exact .here hno.1 hif

theorem Faithful.record (hf : Faithful h journal) (hg : Distinct g) :
    Faithful (g :: h) (journal.record now g) where
  places placeId := by
    show ((journal.seen now g).lookup placeId).map Held.key = _
    rw [seen_eq, seen_lookup hg, hf.places]
    rfl
  moves key toKey := by
    have ht := tallies_found journal g
    have hlast : (fun p => (journal.places.lookup p).map Held.key) = lastKey h := funext hf.places
    rw [hlast] at ht
    show (((journal.moved now g).1).lookup key).map Moved.toKey = some toKey ↔ _
    rw [moved_lookup, went_cons, ← hf.moves]
    cases hcur : isCurrent g key with
    | true =>
      have hempty : winner (∅ : Dict κ Nat) = none :=
        (winner_spec (l := []) fun _ => rfl).2.mpr rfl
      rw [ht.none key hcur, getD_none, hempty, if_pos (.inl rfl)]
      rfl
    | false =>
      obtain ⟨hsome, hnone⟩ := winner_spec (ht.counts key hcur)
      change (∀ k, _ ↔ Took (foundOf h g key) k) at hsome
      change _ ↔ foundOf h g key = [] at hnone
      by_cases hfound : foundOf h g key = []
      · rw [hnone.mpr hfound, if_pos (.inr hfound)]
        rfl
      · rw [if_neg (by simp [hfound]), ← hsome]
        cases hw : winner (((journal.found g).scattered.lookup key).getD ∅) with
        | none => exact absurd (hnone.mp hw) hfound
        | some key' => rfl

theorem Faithful.unchanged (hf : Faithful h journal)
    (hrows : ∀ row ∈ pairs g, lastKey h row.1 = some row.2) : Faithful (g :: h) journal where
  places placeId := by
    rw [hf.places, lastKey]
    cases hk : keyOf g placeId with
    | none => rfl
    | some key => exact hrows _ (keyIn_eq_some hk)
  moves key toKey := by
    rw [hf.moves, went_cons, if_pos]
    by_cases hfound : foundOf h g key = []
    · exact .inr hfound
    · obtain ⟨key', hin⟩ := exists_mem_of_ne_nil _ hfound
      obtain ⟨row, hrow, -⟩ := List.mem_map.mp hin
      obtain ⟨hmem, hlast⟩ := mem_filter.mp hrow
      rw [hrows row hmem, decide_eq_true_eq, some_inj] at hlast
      rw [← hlast]
      exact .inl (isCurrent_of_mem hmem)

theorem load_persist (journal : Journal κ π) : load (some journal.persist) = journal := by
  simp only [load, Journal.persist, Dict.ofRows_rows]

theorem faithful_of_observed (hs : Observed o h s) :
    Faithful h s.journal ∧ Faithful h (load s.file) := by
  induction hs with
  | start => exact ⟨faithful_empty, faithful_empty⟩
  | @observe h s g now hs hg hplaces hmoves ih =>
    have heq : s.journal.observe o now g = s.journal.record now g := by
      simp only [Journal.observe, Dict.dropOldest_of_le hplaces, Dict.dropOldest_of_le hmoves]
    have hrecord : Faithful (g :: h) (s.journal.observe o now g) := by
      rw [heq]
      exact ih.1.record hg
    refine ⟨hrecord, ?_⟩
    show Faithful (g :: h) (load (if _ then _ else _))
    split
    · rw [load_persist]
      exact hrecord
    · next hno =>
      rw [Journal.persists, Bool.or_eq_true, not_or, Bool.not_eq_true] at hno
      refine ih.2.unchanged fun row hrow => ?_
      rw [← ih.1.places]
      exact (tallies_found _ _).unchanged hno.1 row hrow
  | restart _ ih => exact ⟨ih.2, ih.2⟩

/-! ## Following -/

theorem Faithful.lookup (hf : Faithful h journal) (hw : Went h key toKey) :
    ∃ move, journal.moves.lookup key = some move ∧ move.toKey = toKey :=
  map_eq_some_iff.mp ((hf.moves key toKey).mpr hw)

theorem Faithful.went (hf : Faithful h journal) {move : Moved κ}
    (hm : journal.moves.lookup key = some move) : Went h key move.toKey :=
  (hf.moves key move.toKey).mp (by rw [hm]; rfl)

theorem chain_of_follow (hf : Faithful h journal) :
    ∀ {hops : Nat} {key : κ}, follow journal.moves (current h) hops key = some toKey →
      current h toKey = true ∧ ∃ n, n ≤ hops ∧ Chain h n key toKey
  | 0, _, hfollow => by cases hfollow
  | hops + 1, key, hfollow => by
    rw [follow] at hfollow
    split at hfollow
    · cases hfollow
    · next move hm =>
      have hwent := hf.went hm
      split at hfollow
      · next hcur =>
        cases hfollow
        exact ⟨hcur, 1, by omega, .last hwent hcur⟩
      · next hcur =>
        obtain ⟨hto, n, hn, hchain⟩ := chain_of_follow hf hfollow
        exact ⟨hto, n + 1, by omega, .next hwent (by simpa using hcur) hchain⟩

theorem follow_of_chain (hf : Faithful h journal) {n hops : Nat} (hchain : Chain h n key toKey)
    (hn : n ≤ hops) : follow journal.moves (current h) hops key = some toKey := by
  induction hchain generalizing hops with
  | last hwent hcur =>
    obtain ⟨hops, rfl⟩ : ∃ m, hops = m + 1 := ⟨hops - 1, by omega⟩
    obtain ⟨move, hm, rfl⟩ := hf.lookup hwent
    rw [follow, hm]
    exact if_pos hcur
  | @next n key via toKey hwent hcur hchain ih =>
    obtain ⟨hops, rfl⟩ : ∃ m, hops = m + 1 := ⟨hops - 1, by omega⟩
    obtain ⟨move, hm, rfl⟩ := hf.lookup hwent
    rw [follow, hm]
    show (if current h move.toKey = true then _ else _) = _
    rw [if_neg (by rw [hcur]; exact Bool.false_ne_true)]
    exact ih (by omega)

def lastHeld : List (List (Project κ π)) → κ → Nat
  | [], _ => 0
  | g :: h, key => if isCurrent g key then h.length + 1 else lastHeld h key

omit [DecidableEq π] in
theorem lastHeld_le : ∀ (h : List (List (Project κ π))) (key : κ), lastHeld h key ≤ h.length
  | [], _ => Nat.le_refl 0
  | g :: h, key => by
    rw [lastHeld]
    split
    · exact Nat.le_refl _
    · exact Nat.le_succ_of_le (lastHeld_le h key)

theorem foundOf_current (hin : toKey ∈ foundOf h g key) : isCurrent g toKey = true := by
  obtain ⟨row, hrow, rfl⟩ := List.mem_map.mp hin
  exact isCurrent_of_mem (mem_filter.mp hrow).1

theorem Traced.went (ht : Traced h key) :
    ∃ toKey, Went h key toKey ∧ lastHeld h key < lastHeld h toKey := by
  induction ht with
  | @here g h key hcur hfound =>
    obtain ⟨toKey, htook⟩ := exists_took hfound
    refine ⟨toKey, .here hcur htook, ?_⟩
    have hle := lastHeld_le h key
    rw [lastHeld, lastHeld, hcur, foundOf_current htook.1, if_neg Bool.false_ne_true, if_pos rfl]
    omega
  | @later g h key hcur _ ih =>
    by_cases hfound : foundOf h g key = []
    · obtain ⟨toKey, hwent, hlt⟩ := ih
      have hle := lastHeld_le h toKey
      refine ⟨toKey, .before (.inr hfound) hwent, ?_⟩
      rw [lastHeld, lastHeld, hcur, if_neg Bool.false_ne_true]
      split <;> omega
    · obtain ⟨toKey, htook⟩ := exists_took hfound
      refine ⟨toKey, .here hcur htook, ?_⟩
      have hle := lastHeld_le h key
      rw [lastHeld, lastHeld, hcur, foundOf_current htook.1, if_neg Bool.false_ne_true, if_pos rfl]
      omega

theorem exists_chain (ht : ∀ via, Relation.ReflTransGen (Onward h) key via → Traced h via) :
    ∃ n toKey, current h toKey = true ∧ Chain h n key toKey := by
  induction hm : h.length - lastHeld h key using Nat.strongRecOn generalizing key with
  | ind m ih =>
    obtain ⟨via, hwent, hlt⟩ := (ht key .refl).went
    cases hcur : current h via with
    | true => exact ⟨1, via, hcur, .last hwent hcur⟩
    | false =>
      have hle := lastHeld_le h via
      obtain ⟨n, toKey, hto, hchain⟩ := ih (h.length - lastHeld h via) (by omega)
        (fun k hk => ht k (.head ⟨hwent, hcur⟩ hk)) rfl
      exact ⟨n + 1, toKey, hto, .next hwent hcur hchain⟩

/-! ## The order within a regroup -/

omit [LinearOrder κ] [DecidableEq π] in
theorem Same.pairs (hg : Same g g') : (pairs g).Perm (pairs g') := by
  obtain ⟨m, hperm, hforall⟩ := hg
  refine (List.Perm.flatMap_right _ hperm).trans ?_
  clear hperm
  show ((m.flatMap _).Perm (g'.flatMap _))
  induction hforall with
  | nil => exact .refl _
  | @cons a b m g' hab _ ih =>
    refine List.Perm.append ?_ ih
    show (a.placeIds.map fun placeId => (placeId, a.key)).Perm
      (b.placeIds.map fun placeId => (placeId, b.key))
    rw [hab.1]
    exact hab.2.map _

omit [DecidableEq π] in
theorem Same.isCurrent (hg : Same g g') (key : κ) : isCurrent g key = isCurrent g' key := by
  obtain ⟨m, hperm, hforall⟩ := hg
  rw [KeyJournal.isCurrent, hperm.any_eq, KeyJournal.isCurrent]
  clear hperm
  induction hforall with
  | nil => rfl
  | cons hab _ ih => rw [any_cons, any_cons, hab.1, ih]

omit [LinearOrder κ] in
theorem Same.keyOf (hg : Same g g') (hdistinct : Distinct g) (placeId : π) :
    keyOf g placeId = keyOf g' placeId := by
  have hdistinct' : Distinct g' := (hg.pairs.map Prod.fst).nodup_iff.mp hdistinct
  cases hk : KeyJournal.keyOf g' placeId with
  | some key => exact keyIn_of_mem hdistinct (hg.pairs.mem_iff.mpr (keyIn_eq_some hk))
  | none =>
    cases hk' : KeyJournal.keyOf g placeId with
    | none => rfl
    | some key =>
      have hin := keyIn_of_mem hdistinct' (hg.pairs.mem_iff.mp (keyIn_eq_some hk'))
      rw [← KeyJournal.keyOf, hk] at hin
      cases hin

theorem observed_distinct (hs : Observed o h s) : ∀ g ∈ h, Distinct g := by
  induction hs with
  | start => exact fun g hg => by cases hg
  | observe _ hdistinct _ _ ih => exact forall_mem_cons.mpr ⟨hdistinct, ih⟩
  | restart _ ih => exact ih

omit [LinearOrder κ] in
theorem lastKey_same (hh : List.Forall₂ Same h h') (hd : ∀ g ∈ h, Distinct g) (placeId : π) :
    lastKey h placeId = lastKey h' placeId := by
  induction hh with
  | nil => rfl
  | @cons g g' h h' hg _ ih =>
    rw [lastKey, lastKey, hg.keyOf (hd g mem_cons_self),
      ih fun g hg => hd g (mem_cons_of_mem _ hg)]

theorem Took.perm {l l' : List κ} (hl : l.Perm l') : Took l key ↔ Took l' key := by
  rw [Took, Took, hl.mem_iff]
  simp only [hl.mem_iff, hl.count_eq]

theorem went_same (hh : List.Forall₂ Same h h') (hd : ∀ g ∈ h, Distinct g) :
    Went h key toKey ↔ Went h' key toKey := by
  induction hh with
  | nil => exact Iff.rfl
  | @cons g g' h h' hg hrest ih =>
    have hlast := lastKey_same hrest fun g hg => hd g (mem_cons_of_mem _ hg)
    have hfound : (foundOf h g key).Perm (foundOf h' g' key) := by
      simp only [foundOf, hlast]
      exact (hg.pairs.filter _).map _
    have hnil : foundOf h g key = [] ↔ foundOf h' g' key = [] :=
      ⟨fun he => (he ▸ hfound).nil_eq.symm, fun he => (he ▸ hfound).eq_nil⟩
    simp only [went_cons, hg.isCurrent, hnil, Took.perm hfound,
      ih fun g hg => hd g (mem_cons_of_mem _ hg)]

theorem follow_congr {moves moves' : Dict κ (Moved κ)} (current : κ → Bool)
    (hm : ∀ key, (moves.lookup key).map Moved.toKey = (moves'.lookup key).map Moved.toKey) :
    ∀ (hops : Nat) (key : κ), follow moves current hops key = follow moves' current hops key
  | 0, _ => rfl
  | hops + 1, key => by
    have hkey := hm key
    rw [follow, follow]
    cases hl : moves.lookup key with
    | none =>
      cases hl' : moves'.lookup key with
      | none => rfl
      | some move =>
        rw [hl, hl'] at hkey
        cases hkey
    | some move =>
      cases hl' : moves'.lookup key with
      | none =>
        rw [hl, hl'] at hkey
        cases hkey
      | some move' =>
        rw [hl, hl', map_some, map_some, some_inj] at hkey
        show (if current move.toKey = true then _ else _) =
          if current move'.toKey = true then _ else _
        rw [hkey, follow_congr current hm hops]

theorem Faithful.movedTo (hf : Faithful h journal) (hf' : Faithful h' journal')
    (hwent : ∀ key toKey, Went h key toKey ↔ Went h' key toKey) (key : κ) (current : κ → Bool) :
    journal.movedTo key current = journal'.movedTo key current := by
  refine follow_congr current (fun key => ext fun toKey => ?_) _ key
  rw [hf.moves, hf'.moves, hwent]

theorem leads (o : Options) (h : List (List (Project κ π))) (s : State κ π)
    (hs : Observed o h s) : Leads h s := by
  have hf := (faithful_of_observed hs).1
  refine ⟨fun key toKey hfollow => chain_of_follow hf hfollow, fun key ht => ?_,
    fun o' h' s' hs' hh => ?_⟩
  · obtain ⟨n, toKey, hto, hchain⟩ := exists_chain ht
    exact ⟨n, toKey, hto, hchain, follow_of_chain hf hchain⟩
  · exact hf.movedTo (faithful_of_observed hs').1 fun key toKey =>
      went_same hh (observed_distinct hs)

/-- A key whose place moved, over a restart. -/
theorem leads_moved : ∃ s : State Nat Nat,
    Leads [[⟨1, [0]⟩], [⟨0, [0]⟩]] s ∧ s.journal.movedTo 0 (fun key => key == 1) = some 1 :=
  let s : State Nat Nat :=
    (State.observe .default (State.observe .default .start 1 [⟨0, [0]⟩]) 2 [⟨1, [0]⟩]).restart
  ⟨s, leads .default _ _ (.restart (.observe (.observe .start (by decide) (by decide) (by decide))
    (by decide) (by decide) (by decide))), by decide⟩

/-! ## By place -/

def observed : List (List (Project Nat Nat)) → State Nat Nat
  | [] => .start
  | g :: h => (observed h).observe .default 0 g

def Sample.parted : List (List (Project Nat Nat)) :=
  [[⟨2, [0]⟩, ⟨3, [1]⟩], [⟨2, [0]⟩, ⟨1, [1]⟩], [⟨1, [0, 1]⟩], [⟨0, [0]⟩]]

def Sample.gone : List (List (Project Nat Nat)) :=
  [[⟨2, [0]⟩], [⟨2, [0]⟩, ⟨1, [1]⟩], [⟨1, [0, 1]⟩], [⟨0, [0]⟩]]

theorem observed_parted : Observed .default Sample.parted (observed Sample.parted) :=
  .observe (.observe (.observe (.observe .start (by decide) (by decide) (by decide)) (by decide)
    (by decide) (by decide)) (by decide) (by decide) (by decide)) (by decide) (by decide)
    (by decide)

theorem observed_gone : Observed .default Sample.gone (observed Sample.gone) :=
  .observe (.observe (.observe (.observe .start (by decide) (by decide) (by decide)) (by decide)
    (by decide) (by decide)) (by decide) (by decide) (by decide)) (by decide) (by decide)
    (by decide)

theorem not_leads_by_place :
    (¬∀ (o : Options) (h : List (List (Project Nat Nat))) (s : State Nat Nat),
      Observed o h s → ReachedByPlace h s) ∧
    ¬∀ (o : Options) (h : List (List (Project Nat Nat))) (s : State Nat Nat),
      Observed o h s → AnswersByPlace h s := by
  constructor
  · intro hall
    obtain ⟨-, p, later, g, earlier, heq, -, -, hlast, g', hg', hkey⟩ :=
      hall _ _ _ observed_parted 0 3 (by decide) (by decide)
    have hin : g' ∈ Sample.parted := heq ▸ List.mem_append_left _ hg'
    -- only the second place was found under that key
    have hone : p = 1 := by
      have hrow := keyIn_eq_some hkey
      simp only [Sample.parted, List.mem_cons, List.not_mem_nil, or_false] at hin
      rcases hin with rfl | rfl | rfl | rfl <;> simp [pairs] at hrow
      exact hrow
    -- and it was never seen under the first
    have hnever : ∀ h ∈ Sample.parted.tails, lastKey h 1 ≠ some 0 := by decide
    exact hnever (g :: earlier) ((List.mem_tails ..).mpr ⟨later, heq.symm⟩) (hone ▸ hlast)
  · intro hall
    have hheld : ∀ p, lastKey [[(⟨0, [0]⟩ : Project Nat Nat)]] p = some 0 →
        (keyOf (Sample.gone.headD []) p).isSome = true := fun p hp => by
      have hrow : (p, 0) ∈ pairs [(⟨0, [0]⟩ : Project Nat Nat)] :=
        keyIn_eq_some (by simpa [lastKey, keyOf] using hp)
      simp [pairs] at hrow
      subst hrow
      decide
    obtain ⟨toKey, hsome⟩ := hall _ _ _ observed_gone 0
      [[⟨2, [0]⟩], [⟨2, [0]⟩, ⟨1, [1]⟩], [⟨1, [0, 1]⟩]] [⟨0, [0]⟩] [] rfl (by decide) (by decide)
      (by decide) ⟨0, by decide⟩ hheld (by decide)
    have hnone : (observed Sample.gone).journal.movedTo 0 (current Sample.gone) = none := by decide
    rw [hnone] at hsome
    cases hsome

end VibeField.Fieldd.KeyJournal
