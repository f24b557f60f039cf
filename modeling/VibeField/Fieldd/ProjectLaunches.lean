import VibeField.Fieldd.ProjectLibrary

/-!
# Where launches are

Every launch waits, is in a write under way, has been recorded, was into Temporary, gave way to the
bound, or was in a write the library refused, and it is in one of these places only.  What a record
reads as its recipe is what the launches recorded for it have left.
-/

namespace VibeField.Fieldd.ProjectRecords

open ProjectDoc List Option

/-- Some group holds the launch's place. -/
def Held (e : Evidence) (act : PendingAct) : Prop :=
  ∃ placeId, act.placeId.or (e.placeOf act.cwd) = some placeId ∧
    ∃ g ∈ e.groups, (g.places.any fun pl => pl.holds placeId) = true

theorem places_bindRecord (excluded : Text → List Text) (projects : List GroupedProject)
    (r : Record) : (bindRecord excluded projects r).map (fun g => g.places) =
      projects.map fun g => g.places := by
  have hnamed (g : GroupedProject) : (named r g).places = g.places := by
    unfold named
    split <;> rfl
  unfold bindRecord
  split
  · rfl
  · refine ext_getElem? fun i => ?_
    rw [List.getElem?_map, List.getElem?_map, List.getElem?_modify]
    cases projects[i]? with
    | none => rfl
    | some g =>
      refine congrArg some ?_
      dsimp only
      split
      · exact hnamed g
      · rfl

theorem places_bindRecords (excluded : Text → List Text) (groups : List PlaceGroup)
    (records : List Record) : (bindRecords excluded groups records).map (fun g => g.places) =
      groups.map fun g => g.places := by
  have hfold (rs : List Record) (projects : List GroupedProject) :
      (rs.foldl (bindRecord excluded) projects).map (fun g => g.places) =
        projects.map fun g => g.places := by
    induction rs generalizing projects with
    | nil => rfl
    | cons r rest ih => rw [foldl_cons, ih, places_bindRecord]
  rw [bindRecords, hfold, List.map_map]
  rfl

theorem enters_isSome_iff (e : Evidence) (records : List Record) (act : PendingAct) :
    (enters (bindRecords e.excluded e.groups records) e.placeOf act).isSome ↔ Held e act := by
  have hany (placeId : Text) : (∃ g ∈ bindRecords e.excluded e.groups records,
      (g.places.any fun pl => pl.holds placeId) = true) ↔
        ∃ g ∈ e.groups, (g.places.any fun pl => pl.holds placeId) = true := by
    have hmem (pls : List GroupedPlace) :
        pls ∈ (bindRecords e.excluded e.groups records).map (fun g => g.places) ↔
          pls ∈ e.groups.map fun g => g.places := by
      rw [places_bindRecords]
    constructor
    · rintro ⟨g, hg, hany⟩
      obtain ⟨g', hg', heq⟩ := List.mem_map.mp ((hmem _).mp (List.mem_map_of_mem hg))
      exact ⟨g', hg', heq ▸ hany⟩
    · rintro ⟨g, hg, hany⟩
      obtain ⟨g', hg', heq⟩ := List.mem_map.mp ((hmem _).mpr (List.mem_map_of_mem hg))
      exact ⟨g', hg', heq ▸ hany⟩
  rw [enters_isSome]
  simp only [hany]
  rfl

section Watch

variable {P : Type} {s : State P}

/-- With a library mounted and the grouping computed, a drain is to come or no waiting launch has
its place in a group. -/
def Watched (s : State P) : Prop :=
  s.mounted = true → s.due = false → Task.drain ∈ s.queue ∨
    ∀ e, s.evidence = some e → ∀ act ∈ s.pending, ¬ Held e act

theorem Watched.regrouped (h : Watched s) : Watched s.regrouped := by
  unfold State.regrouped
  split
  · intro _ _
    by_cases hnil : s.pending = []
    · refine Or.inr fun e _ act hact => ?_
      change act ∈ s.pending at hact
      rw [hnil] at hact
      cases hact
    · refine Or.inl ?_
      show Task.drain ∈ if s.pending = [] then s.queue else s.queue ++ [.drain]
      rw [if_neg hnil]
      exact mem_append_right _ mem_cons_self
  · exact h

end Watch

variable {P : Type} [LinearOrder P] {p : P} {stringify : ProjectRecipe → Text}
  {parse : Text → Option ProjectRecipe} {newId : Nat → Text} {doc₀ : ProjectDoc.Doc P}
  {s s' : State P}
  {c : Commit}

def recipes (parse : Text → Option ProjectRecipe) (doc : ProjectDoc.Doc P) (record : Text) :
    Option ProjectRecipe :=
  recipeOf parse (get doc .recipes record)

/-- What holds of a write under way, over the library it was made from. -/
structure Ready (parse : Text → Option ProjectRecipe) (newId : Nat → Text) (doc : ProjectDoc.Doc P)
    (newIds : Nat) (c : Commit) : Prop where
  acted : c.writes.filter isActed = c.recorded.map Recorded.write
  recipe : ∀ r, recipeIn (recipes parse doc r) r c.writes =
    recipeOfLaunches (recipes parse doc r) (launchesOf c.launched r)
  new : ∀ r ∈ c.writes.filterMap createOf, ∃ k < newIds, r = newId k
  ids : ∀ l ∈ c.launched, ∀ k, newIds ≤ k → l.record ≠ newId k
  nodup : c.first.Nodup
  first : ∀ i ∈ c.first, ∃ g, c.projects[i]? = some g ∧ g.recordId = none
  creates : (c.writes.filterMap createOf).length = c.first.length
  intent : c.isIntent = true → c.recorded = [] ∧ c.launched = []

def flightOf : Option Commit → List Recorded
  | none => []
  | some c => c.recorded

def State.flight (s : State P) : List Recorded := flightOf s.running

def State.places (s : State P) (n : Nat) : Nat :=
  s.pending.countP (·.n = n) + s.flight.countP (·.act.n = n) + s.recorded.countP (·.act.n = n) +
    s.temporary.countP (·.1.n = n) + s.shifted.countP (·.n = n) + s.lost.countP (·.act.n = n)

structure Accounted (parse : Text → Option ProjectRecipe) (newId : Nat → Text)
    (doc₀ : ProjectDoc.Doc P) (s : State P) : Prop where
  counted : ∀ n, s.places n = if n < s.launches then 1 else 0
  acted : s.written.filter isActed = s.recorded.map Recorded.write
  temporary : ∀ x ∈ s.temporary, x.2.bucket = true
  fresh : ∀ k, s.newIds ≤ k → get s.doc .created (newId k) = none
  recipe : ∀ r, recipes parse s.doc r =
    recipeOfLaunches (recipes parse doc₀ r) (launchesOf s.launched r)
  ids : ∀ l ∈ s.launched, ∀ k, s.newIds ≤ k → l.record ≠ newId k
  ready : ∀ c, s.running = some c → Ready parse newId s.doc s.newIds c

/-! ## Acts that only wait -/

theorem Accounted.regrouped (h : Accounted parse newId doc₀ s) :
    Accounted parse newId doc₀ s.regrouped := by
  unfold State.regrouped
  split
  · exact { h with }
  · exact h

theorem Accounted.actedIn (h : Accounted parse newId doc₀ s) {act : PendingAct}
    (hn : act.n = s.launches) (full : Bool) : Accounted parse newId doc₀
      { s with
        pending := if full then (s.pending ++ [act]).tail else s.pending ++ [act]
        shifted := s.shifted ++ if full then (s.pending ++ [act]).take 1 else []
        launches := s.launches + 1
        queue := s.queue ++ [.drain] } := by
  refine { h with counted := fun n => ?_ }
  -- what leaves at the bound is counted among the shifted ones
  have hkeep (l : List PendingAct) : (if full then l.tail else l).countP (·.n = n) +
      (if full then l.take 1 else []).countP (·.n = n) = l.countP (·.n = n) := by
    cases full with
    | false => rfl
    | true =>
      cases l with
      | nil => rfl
      | cons x rest =>
        show rest.countP (·.n = n) + [x].countP (·.n = n) = (x :: rest).countP (·.n = n)
        rw [countP_cons, countP_cons, countP_nil]
        omega
  have hcounted := h.counted n
  have hpending := hkeep (s.pending ++ [act])
  rw [countP_append, countP_cons, countP_nil, hn] at hpending
  unfold State.places at hcounted ⊢
  show (if full then (s.pending ++ [act]).tail else s.pending ++ [act]).countP (·.n = n) +
      s.flight.countP (·.act.n = n) + s.recorded.countP (·.act.n = n) +
      s.temporary.countP (·.1.n = n) +
      (s.shifted ++ if full then (s.pending ++ [act]).take 1 else []).countP (·.n = n) +
      s.lost.countP (·.act.n = n) = if n < s.launches + 1 then 1 else 0
  have hnext : (if n < s.launches then 1 else 0) + (if s.launches = n then 1 else 0) =
      if n < s.launches + 1 then 1 else 0 := by
    split <;> split <;> split <;> omega
  simp only [decide_eq_true_eq] at hpending
  rw [countP_append, ← hnext]
  omega

/-! ## Acts that write -/

theorem Ready.none_of_nil {newIds : Nat} {doc : ProjectDoc.Doc P}
    (h : Ready parse newId doc newIds c) (hnil : c.writes = []) : c.recorded = [] := by
  have hacted := h.acted
  rw [hnil] at hacted
  exact map_eq_nil_iff.mp hacted.symm

theorem flightOf_commit (h : c.writes = [] → c.recorded = []) :
    flightOf (if c.writes = [] then none else some c) = c.recorded := by
  split
  · next hnil => exact (h hnil).symm
  · rfl

theorem Accounted.grouped (h : Accounted parse newId doc₀ s)
    (hinj : ∀ k k', newId k = newId k' → k = k')
    (hnew : ∀ k, recipes parse doc₀ (newId k) = none) (hmounted : s.mounted = true)
    (e : Evidence) :
    Grouped (s.projects parse e) newId s.newIds (recipes parse s.doc) := by
  have hbound : Bound (s.records parse) (s.projects parse e) := by
    refine bound_bindRecords ?_
    rw [State.records, if_pos hmounted]
    exact nodup_records
  have hrecord (r : Record) (hr : r ∈ s.records parse) :
      r ∈ (readProjectIntents parse s.doc).records := by
    rwa [State.records, if_pos hmounted] at hr
  constructor
  · intro i g r hg hid
    obtain ⟨r', hr', rfl, hrecipe⟩ := hbound.named i g r hg hid
    rw [hrecipe]
    exact (mem_records (hrecord r' hr')).2
  · exact hbound.unnamed
  · exact hbound.once
  · intro i g k hg hk hid
    obtain ⟨r', hr', hsame, -⟩ := hbound.named i g _ hg hid
    obtain ⟨⟨t, ht⟩, -⟩ := mem_records (hrecord r' hr')
    have hget := mem_created.mp ht
    rw [hsame, h.fresh k hk] at hget
    cases hget
  · intro k hk
    rw [h.recipe, hnew]
    have hnil : launchesOf s.launched (newId k) = [] := by
      rw [launchesOf, filter_eq_nil_iff]
      intro l hl hlr
      exact h.ids l hl k hk (of_decide_eq_true hlr)
    rw [hnil]
    rfl
  · exact hinj

theorem Accounted.drainActs (h : Accounted parse newId doc₀ s)
    (hinj : ∀ k k', newId k = newId k' → k = k')
    (hnew : ∀ k, recipes parse doc₀ (newId k) = none) (hidle : s.running = none) :
    Accounted parse newId doc₀ (s.drainActs parse newId) := by
  unfold State.drainActs
  split
  · exact h
  · have hr := h.regrouped
    have hidle : s.regrouped.running = none := by
      unfold State.regrouped
      split <;> exact hidle
    generalize s.regrouped = s at hr hidle
    dsimp only
    split
    · next e hmounted _ =>
      have hg := hr.grouped hinj hnew hmounted e
      have hd := gathered_drained hg e.placeOf s.pending
      generalize drained newId (s.projects parse e) e.placeOf s.newIds s.pending = d at hd
      have hready : Ready parse newId s.doc d.newIds
          { writes := d.writes
            projects := s.projects parse e
            first := d.first
            recorded := d.recorded
            launched := d.launched
            moves := d.ensured.filterMap fun r =>
              ((s.projects parse e)[r.1]?).map fun project => (project.key, "r:".toList ++ r.2)
            isIntent := false } := by
        refine ⟨hd.acted, hd.written, ?_, ?_, hd.nodup, fun i hi => (hd.first i hi).2, hd.creates,
          fun h => by cases h⟩
        · intro r hr'
          obtain ⟨k, -, hk, hsame⟩ := hd.created r hr'
          exact ⟨k, hk, hsame⟩
        · intro l hl k hk hsame
          obtain ⟨_, _, e', _, _, _, _, hlookup⟩ := hd.launched l hl
          obtain ⟨g, hgi, hid⟩ := hd.ids _ _ hlookup
          rcases hid with hid | ⟨-, k', -, hk', hsame'⟩
          · exact hg.fresh _ g k hgi (hd.le.trans hk) (hsame ▸ hid)
          · have hkk := hinj _ _ (hsame.symm.trans hsame')
            omega
      constructor
      · intro n
        have hcounted := hr.counted n
        have hsplit := hd.split.countP_eq (p := fun act => decide (act.n = n))
        rw [countP_append, countP_append, countP_map, countP_map] at hsplit
        have hflight := flightOf_commit hready.none_of_nil
        unfold State.places State.flight at hcounted ⊢
        rw [hidle] at hcounted
        simp only [hflight, countP_append]
        simp only [flightOf, countP_nil, Function.comp_def] at hcounted hsplit
        omega
      · exact hr.acted
      · intro x hx
        rcases mem_append.mp hx with hx | hx
        · exact hr.temporary x hx
        · exact hd.bucketed x hx
      · exact fun k hk => hr.fresh k (hd.le.trans hk)
      · exact hr.recipe
      · exact fun l hl k hk => hr.ids l hl k (hd.le.trans hk)
      · intro c hc
        change (if d.writes = [] then none else some _) = some c at hc
        split at hc
        · cases hc
        · obtain rfl := some.inj hc
          exact hready
    · exact hr

/-! ## Intents -/

/-- What an intent is about to write: no acted place and no recipe, and one new record for each of
the projects it acts on that have none. -/
structure Plain (projects : List GroupedProject) (new new' : Text) (r : Ensured) : Prop where
  acted : r.writes.filter isActed = []
  recipe : ∀ held record, recipeIn held record r.writes = held
  creates : r.writes.filterMap createOf = [new, new'].take r.first.length
  length : r.first.length ≤ 2
  nodup : r.first.Nodup
  first : ∀ i ∈ r.first, ∃ g, projects[i]? = some g ∧ g.recordId = none

/-- A write beside the ones that make records. -/
structure Aside (w : ProjectWrite ProjectRecipe) : Prop where
  acted : isActed w = false
  create : createOf w = none
  recipe : ∀ held record, recipeIn held record [w] = held

variable {projects : List GroupedProject} {new new' : Text} {project : GroupedProject × Nat}
  {now : ℚ}

theorem Plain.beside {r : Ensured} (h : Plain projects new new' r)
    {w : ProjectWrite ProjectRecipe} (hw : Aside w) :
    Plain projects new new' { r with writes := r.writes ++ [w] } where
  __ := h
  acted := by
    rw [filter_append, h.acted, nil_append]
    simp [hw.acted]
  recipe held record := by rw [recipeIn_append, h.recipe, hw.recipe]
  creates := by
    rw [filterMap_append, h.creates, filterMap_cons, hw.create]
    exact append_nil _

theorem mem_first {more : List Text} {i : Nat} (hp : projects[project.2]? = some project.1)
    (hi : i ∈ (ensure new project.1 project.2 now more).first) :
    ∃ g, projects[i]? = some g ∧ g.recordId = none := by
  rw [ensure_first] at hi
  split at hi
  · next hnil =>
    obtain rfl := mem_singleton.mp hi
    exact ⟨project.1, hp, hnil⟩
  · cases hi

theorem plain_ensure (hp : projects[project.2]? = some project.1) (more : List Text) :
    Plain projects new new' (ensure new project.1 project.2 now more) where
  acted := ensure_acted
  recipe _ _ := ensure_recipe _ _
  creates := by
    rw [ensure_creates, ensure_first]
    split <;> rfl
  length := by
    rw [ensure_first]
    split <;> simp
  nodup := by
    rw [ensure_first]
    split
    · exact nodup_singleton _
    · exact nodup_nil
  first _ hi := mem_first hp hi

theorem plain_both {held : GroupedProject × Nat} {mine theirs : Ensured}
    (hp : projects[project.2]? = some project.1) (hheld : projects[held.2]? = some held.1)
    (hne : held.2 ≠ project.2) (hmine : mine = ensure new project.1 project.2 now [])
    (htheirs : theirs =
      ensure (if mine.first = [] then new else new') held.1 held.2 now []) :
    Plain projects new new' { mine with
      writes := mine.writes ++ theirs.writes, first := mine.first ++ theirs.first } where
  acted := by
    show List.filter isActed (mine.writes ++ theirs.writes) = []
    rw [filter_append, hmine, htheirs, ensure_acted, ensure_acted]
    rfl
  recipe h record := by
    show recipeIn h record (mine.writes ++ theirs.writes) = h
    rw [recipeIn_append, hmine, htheirs, ensure_recipe, ensure_recipe]
  creates := by
    show List.filterMap createOf (mine.writes ++ theirs.writes) =
      [new, new'].take (mine.first ++ theirs.first).length
    rw [filterMap_append, htheirs, hmine, ensure_creates, ensure_creates, ensure_first,
      ensure_first]
    by_cases hnil : project.1.recordId = none <;> by_cases hnil' : held.1.recordId = none <;>
      simp [hnil, hnil']
  length := by
    show (mine.first ++ theirs.first).length ≤ 2
    rw [length_append, htheirs, hmine, ensure_first, ensure_first]
    split <;> split <;> simp
  nodup := by
    show (mine.first ++ theirs.first).Nodup
    rw [htheirs, hmine, ensure_first, ensure_first]
    by_cases hnil : project.1.recordId = none <;> by_cases hnil' : held.1.recordId = none <;>
      simp [hnil, hnil', hne.symm]
  first i hi := by
    rcases mem_append.mp hi with hi | hi
    · rw [hmine] at hi
      exact mem_first hp hi
    · rw [htheirs] at hi
      exact mem_first hheld hi

theorem of_findFrom {moved : List (Text × Text)} {hops : Nat} {key : Text}
    (h : findFrom projects moved hops key = .ok project) :
    projects[project.2]? = some project.1 := by
  induction hops generalizing key with
  | zero => cases h
  | succ hops ih =>
    rw [findFrom] at h
    split at h
    · next e he =>
      obtain rfl := Except.ok.inj h
      exact List.mem_zipIdx_iff_getElem?.mp (List.mem_of_find?_eq_some he)
    · split at h
      · cases h
      · exact ih h

theorem of_other {held held' : GroupedProject × Nat} (h : other project held = .ok held') :
    held' = held ∧ held.2 ≠ project.2 := by
  unfold other at h
  split at h
  · cases h
  · split at h
    · cases h
    · next hne =>
      split at h
      · cases h
      · exact ⟨(Except.ok.inj h).symm, hne⟩

theorem plain_intentWrites {moved : List (Text × Text)} {op : ProjectIntentOp} {r : Ensured}
    (hp : projects[project.2]? = some project.1)
    (h : intentWrites projects moved new new' project now op = .ok r) :
    Plain projects new new' r := by
  cases op with
  | rename name =>
    simp only [intentWrites] at h
    split at h
    · cases h
    · obtain rfl := Except.ok.inj h
      exact (plain_ensure hp []).beside ⟨rfl, rfl, fun _ _ => rfl⟩
  | pin pinned =>
    obtain rfl := Except.ok.inj h
    exact (plain_ensure hp []).beside ⟨rfl, rfl, fun _ _ => rfl⟩
  | hide hidden =>
    obtain rfl := Except.ok.inj h
    exact (plain_ensure hp []).beside ⟨rfl, rfl, fun _ _ => rfl⟩
  | link place =>
    simp only [intentWrites] at h
    split at h
    · cases h
    · split at h
      · cases h
      · split at h
        · obtain rfl := Except.ok.inj h
          exact (plain_ensure hp _).beside ⟨rfl, rfl, fun _ _ => rfl⟩
        · cases h
  | split place =>
    simp only [intentWrites] at h
    split at h
    · cases h
    · split at h
      · cases h
      · split at h
        · cases h
        · obtain rfl := Except.ok.inj h
          exact (plain_ensure hp []).beside ⟨rfl, rfl, fun _ _ => rfl⟩
  | dismiss key =>
    simp only [intentWrites] at h
    split at h
    · cases h
    · next held hfind =>
      split at h
      · cases h
      · next held' hother =>
        obtain rfl := Except.ok.inj h
        obtain ⟨rfl, hne⟩ := of_other hother
        exact (plain_both hp (of_findFrom hfind) hne rfl rfl).beside ⟨rfl, rfl, fun _ _ => rfl⟩

theorem mem_take_two {k n : Nat} {id : Text} (h : id ∈ [newId k, newId (k + 1)].take n) :
    ∃ k' < k + n, id = newId k' := by
  match n with
  | 0 => cases h
  | 1 => exact ⟨k, Nat.lt_succ_self k, mem_singleton.mp h⟩
  | n + 2 =>
    have h : id ∈ [newId k, newId (k + 1)] := mem_of_mem_take h
    rcases mem_cons.mp h with rfl | h
    · exact ⟨k, by omega, rfl⟩
    · exact ⟨k + 1, by omega, mem_singleton.mp h⟩

theorem Accounted.intentActs (h : Accounted parse newId doc₀ s) (hidle : s.running = none)
    (key : Text) (op : ProjectIntentOp) (now : ℚ) :
    Accounted parse newId doc₀ (s.intentActs parse newId key op now) := by
  unfold State.intentActs
  have hr := h.regrouped
  have hidle : s.regrouped.running = none := by
    unfold State.regrouped
    split <;> exact hidle
  generalize s.regrouped = s at hr hidle
  dsimp only
  split
  · next e _ _ =>
    split
    · exact hr
    · next project hfind =>
      split
      · exact hr
      · split
        · exact hr
        · next r hwrites =>
          have hplain := plain_intentWrites (of_findFrom hfind) hwrites
          constructor
          · intro n
            have hcounted := hr.counted n
            unfold State.places State.flight at hcounted ⊢
            rw [hidle] at hcounted
            exact hcounted
          · exact hr.acted
          · exact hr.temporary
          · exact fun k hk => hr.fresh k ((Nat.le_add_right _ _).trans hk)
          · exact hr.recipe
          · exact fun l hl k hk => hr.ids l hl k ((Nat.le_add_right _ _).trans hk)
          · intro c hc
            obtain rfl := some.inj hc
            refine ⟨hplain.acted, fun record => hplain.recipe _ _, ?_,
              fun l hl => absurd hl not_mem_nil, hplain.nodup, hplain.first, ?_,
              fun _ => ⟨rfl, rfl⟩⟩
            · intro id hid
              change id ∈ r.writes.filterMap createOf at hid
              rw [hplain.creates] at hid
              exact mem_take_two hid
            · show (r.writes.filterMap createOf).length = r.first.length
              rw [hplain.creates, length_take]
              exact Nat.min_eq_left hplain.length
  · exact hr

/-! ## The end of a write -/

theorem Accounted.refuse (h : Accounted parse newId doc₀ s) (hc : s.running = some c) :
    Accounted parse newId doc₀ (s.refuse c) := by
  refine { h with counted := fun n => ?_, ready := fun c' hc' => by cases hc' }
  have hcounted := h.counted n
  refine Eq.trans ?_ hcounted
  unfold State.places State.flight
  rw [hc]
  simp only [State.refuse, flightOf, countP_append, countP_nil]
  omega

theorem Accounted.keep (h : Accounted parse newId doc₀ s) (hc : s.running = some c)
    (hinj : ∀ k k', newId k = newId k' → k = k')
    (hparse : ∀ r, parse (stringify r) = some r) {d : Applied P}
    (happly : applyProjectWrites stringify p s.doc c.writes = .ok d) :
    Accounted parse newId doc₀ (s.keep c d.doc) := by
  have hready := h.ready c hc
  constructor
  · intro n
    have hcounted := h.counted n
    refine Eq.trans ?_ hcounted
    unfold State.places State.flight
    rw [hc]
    simp only [State.keep, flightOf, countP_append, countP_nil]
    omega
  · show (s.written ++ c.writes).filter isActed = (s.recorded ++ c.recorded).map Recorded.write
    rw [filter_append, map_append, h.acted, hready.acted]
  · exact h.temporary
  · intro k hk
    show get d.doc .created (newId k) = none
    rw [created_apply happly]
    · exact h.fresh k hk
    · intro hmem
      obtain ⟨k', hk', hsame⟩ := hready.new _ hmem
      have hkk := hinj _ _ hsame
      change s.newIds ≤ k at hk
      omega
  · intro r
    show recipeOf parse (get d.doc .recipes r) =
      recipeOfLaunches _ (launchesOf (s.launched ++ c.launched) r)
    have hsplit : launchesOf (s.launched ++ c.launched) r =
        launchesOf s.launched r ++ launchesOf c.launched r := filter_append _ _
    rw [recipe_apply hparse happly, hsplit, recipeOfLaunches, foldl_append]
    have hbefore := h.recipe r
    unfold recipeOfLaunches at hbefore
    rw [← hbefore]
    exact hready.recipe r
  · intro l hl k hk
    rcases mem_append.mp hl with hl | hl
    · exact h.ids l hl k hk
    · exact hready.ids l hl k hk
  · intro c' hc'
    cases hc'

theorem Accounted.answer (h : Accounted parse newId doc₀ s) (c : Commit) :
    Accounted parse newId doc₀ (s.answer c) := by
  have hmoved : Accounted parse newId doc₀
      { s with moved := (c.moves.filter fun m => m.1 ≠ m.2) ++ s.moved } := { h with }
  unfold State.answer
  dsimp only
  split
  · exact hmoved.regrouped
  · exact hmoved

theorem Accounted.settle (h : Accounted parse newId doc₀ s) (hc : s.running = some c)
    (hinj : ∀ k k', newId k = newId k' → k = k') (hparse : ∀ r, parse (stringify r) = some r)
    (outcome : Outcome) : Accounted parse newId doc₀ (s.settle p stringify c outcome) := by
  unfold State.settle
  split
  · exact h.refuse hc
  · exact h.refuse hc
  · next d happly => exact h.keep hc hinj hparse happly
  · next d happly => exact (h.keep hc hinj hparse happly).answer c

/-! ## Runs -/

section Runs

variable (hinj : ∀ k k', newId k = newId k' → k = k')
  (hparse : ∀ r, parse (stringify r) = some r)
  (hnew : ∀ k, recipes parse doc₀ (newId k) = none)

include hinj hparse hnew

theorem Accounted.next {e : Event} (h : Accounted parse newId doc₀ s)
    (hs : (machine p stringify parse newId doc₀).next s e = some s') :
    Accounted parse newId doc₀ s' := by
  cases e with
  | actedIn cwd time recipe placeId =>
    obtain rfl := some.inj hs
    exact h.actedIn (rfl : (PendingAct.mk s.launches cwd time recipe placeId).n = s.launches) _
  | intent key op =>
    obtain rfl := some.inj hs
    exact { h with }
  | facts evidence =>
    obtain rfl := some.inj hs
    exact { h with }
  | regroup =>
    obtain rfl := some.inj hs
    exact h.regrouped
  | mount =>
    obtain rfl := some.inj hs
    exact { h with }
  | unmount =>
    obtain rfl := some.inj hs
    exact { h with }
  | run now =>
    simp only [machine, State.next] at hs
    split at hs
    · next rest hidle _ =>
      obtain rfl := some.inj hs
      have hrest : Accounted parse newId doc₀ { s with queue := rest } := { h with }
      exact hrest.drainActs hinj hnew hidle
    · next key op rest hidle _ =>
      obtain rfl := some.inj hs
      have hrest : Accounted parse newId doc₀ { s with queue := rest } := { h with }
      exact hrest.intentActs hidle key op now
    · cases hs
  | settled outcome =>
    obtain ⟨c, hc, rfl⟩ := map_eq_some_iff.mp hs
    exact h.settle hc hinj hparse outcome

theorem accounted_reachable (hcreated : ∀ k, get doc₀ .created (newId k) = none)
    {ok : State P → Event → Prop}
    (hs : (machine p stringify parse newId doc₀).Reaches ok s) :
    Accounted parse newId doc₀ s := by
  refine hs.invariant (P := Accounted parse newId doc₀) ?_
    fun _ _ _ h _ hs => h.next hinj hparse hnew hs
  exact ⟨fun _ => rfl, rfl, fun _ h => absurd h not_mem_nil, fun k _ => hcreated k,
    fun _ => rfl, fun _ h => absurd h not_mem_nil, fun _ h => by cases h⟩

end Runs

/-! ## Nothing is left waiting -/

theorem watched_drainActs (s : State P) (hinj : ∀ k k', newId k = newId k' → k = k')
    (h : Accounted parse newId doc₀ s)
    (hnew : ∀ k, recipes parse doc₀ (newId k) = none) : Watched (s.drainActs parse newId) := by
  unfold State.drainActs
  split
  · next hnil =>
    refine fun _ _ => Or.inr fun e _ act hact => ?_
    rw [hnil] at hact
    cases hact
  · have hr := h.regrouped
    generalize s.regrouped = s at hr
    dsimp only
    split
    · next e hmounted hevidence =>
      refine fun _ _ => Or.inr fun e' he' act hact => ?_
      obtain rfl : e = e' := some.inj (hevidence.symm.trans he')
      have hd := gathered_drained (hr.grouped hinj hnew hmounted e) e.placeOf s.pending
      have hnone := hd.waiting act hact
      rw [← enters_isSome_iff e (s.records parse) act]
      intro hsome
      have hsome : (enters (s.projects parse e) e.placeOf act).isSome := hsome
      rw [hnone] at hsome
      cases hsome
    · next hno =>
      intro hmounted _
      refine Or.inr fun e he act _ => ?_
      exact absurd he (hno e hmounted)

theorem Watched.intentActs (h : Watched s) (key : Text) (op : ProjectIntentOp) (now : ℚ) :
    Watched (s.intentActs parse newId key op now) := by
  unfold State.intentActs
  have hr := h.regrouped
  generalize s.regrouped = s at hr
  dsimp only
  split
  · split
    · exact hr
    · split
      · exact hr
      · split
        · exact hr
        · exact hr
  · exact hr

theorem Watched.settle (h : Watched s) (c : Commit) (outcome : Outcome) :
    Watched (s.settle p stringify c outcome) := by
  have hanswer (doc : ProjectDoc.Doc P) : Watched ((s.keep c doc).answer c) := by
    have hmoved : Watched { s.keep c doc with
        moved := (c.moves.filter fun m => m.1 ≠ m.2) ++ (s.keep c doc).moved } := h
    unfold State.answer
    dsimp only
    split
    · exact hmoved.regrouped
    · exact hmoved
  unfold State.settle
  split
  · exact h
  · exact h
  · exact h
  · exact hanswer _

theorem Watched.next {e : Event} (hinj : ∀ k k', newId k = newId k' → k = k')
    (hnew : ∀ k, recipes parse doc₀ (newId k) = none) (ha : Accounted parse newId doc₀ s)
    (h : Watched s) (hs : (machine p stringify parse newId doc₀).next s e = some s') :
    Watched s' := by
  cases e with
  | actedIn cwd time recipe placeId =>
    obtain rfl := some.inj hs
    exact fun _ _ => Or.inl (mem_append_right _ mem_cons_self)
  | intent key op =>
    obtain rfl := some.inj hs
    exact fun hm hd => (h hm hd).imp (fun hq => mem_append_left _ hq) id
  | facts evidence =>
    obtain rfl := some.inj hs
    intro _ hd
    cases hd
  | regroup =>
    obtain rfl := some.inj hs
    exact h.regrouped
  | mount =>
    obtain rfl := some.inj hs
    intro _ hd
    cases hd
  | unmount =>
    obtain rfl := some.inj hs
    intro hm
    cases hm
  | run now =>
    simp only [machine, State.next] at hs
    split at hs
    · next rest _ _ =>
      obtain rfl := some.inj hs
      exact watched_drainActs { s with queue := rest } hinj { ha with } hnew
    · next key op rest _ hqueue =>
      obtain rfl := some.inj hs
      have hrest : Watched { s with queue := rest } := by
        intro hm hd
        refine (h hm hd).imp (fun hq => ?_) id
        rw [hqueue] at hq
        rcases mem_cons.mp hq with hq | hq
        · cases hq
        · exact hq
      exact hrest.intentActs key op now
    · cases hs
  | settled outcome =>
    obtain ⟨c, -, rfl⟩ := map_eq_some_iff.mp hs
    exact h.settle c outcome

end VibeField.Fieldd.ProjectRecords
