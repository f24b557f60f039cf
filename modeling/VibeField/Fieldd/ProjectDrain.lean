import VibeField.Fieldd.ProjectBinding

/-!
# A drain

What a drain gathers from the launches that wait: each waits on, is recorded or was into Temporary;
each recorded one has one acted write; and the recipes it writes are those its launches left, one
after another.
-/

namespace VibeField.Fieldd.ProjectRecords

open ProjectDoc List Option

def isActed : ProjectWrite ProjectRecipe → Bool
  | .acted _ _ _ => true
  | _ => false

def createOf : ProjectWrite ProjectRecipe → Option Text
  | .create record _ _ => some record
  | _ => none

def Recorded.write (x : Recorded) : ProjectWrite ProjectRecipe :=
  .acted x.record x.place x.act.time

def recipeOfLaunches (held : Option ProjectRecipe) (ls : List Launched) : Option ProjectRecipe :=
  ls.foldl (fun held l => some (recipeAfter held l.launch l.time (some l.place))) held

def launchesOf (ls : List Launched) (record : Text) : List Launched :=
  ls.filter fun l => l.record = record

def recipeIn (held : Option ProjectRecipe) (record : Text) (writes : Writes) :
    Option ProjectRecipe :=
  writes.foldl
    (fun held w =>
      match w with
      | .recipe r recipe => if r = record then some recipe else held
      | _ => held) held

/-- Launches that wait, the earlier of which left no later recipe for its project. -/
def InTurn (projects : List GroupedProject) (placeOf : Text → Option Text) (a b : PendingAct) :
    Prop :=
  ∀ e e', enters projects placeOf a = some e → enters projects placeOf b = some e' →
    e.index = e'.index → e.project.bucket = false → a.recipe ≠ none → b.recipe ≠ none →
      a.time ≤ b.time

section Ensure

variable {newId : Text} {project : GroupedProject} {i : Nat} {time : ℚ} {more : List Text}

theorem ensure_acted : (ensure newId project i time more).writes.filter isActed = [] := by
  rw [filter_eq_nil_iff]
  intro w hw
  rcases mem_append.mp hw with hw | hw
  · cases hid : project.recordId with
    | some _ =>
      rw [hid] at hw
      cases hw
    | none =>
      rw [hid] at hw
      rw [mem_singleton.mp hw]
      exact Bool.false_ne_true
  · obtain ⟨a, -, rfl⟩ := List.mem_map.mp hw
    exact Bool.false_ne_true

theorem ensure_creates : (ensure newId project i time more).writes.filterMap createOf =
    if project.recordId = none then [newId] else [] := by
  have hanchors (r : Text) (l : List Text) :
      (l.map fun a => (.anchor r a time : ProjectWrite ProjectRecipe)).filterMap createOf = [] := by
    rw [filterMap_eq_nil_iff]
    intro w hw
    obtain ⟨a, -, rfl⟩ := List.mem_map.mp hw
    rfl
  unfold ensure
  cases hid : project.recordId with
  | some r => exact hanchors _ _
  | none =>
    rw [filterMap_append, hanchors]
    rfl

theorem ensure_first : (ensure newId project i time more).first =
    if project.recordId = none then [i] else [] := rfl

theorem ensure_recipe (held : Option ProjectRecipe) (record : Text) :
    recipeIn held record (ensure newId project i time more).writes = held := by
  have hanchors (r : Text) (l : List Text) :
      recipeIn held record (l.map fun a => .anchor r a time) = held := by
    induction l with
    | nil => rfl
    | cons a rest ih => exact ih
  unfold ensure
  cases hid : project.recordId with
  | some r => exact hanchors _ _
  | none => exact hanchors _ _

end Ensure

theorem recipeIn_append (held : Option ProjectRecipe) (record : Text) (xs ys : Writes) :
    recipeIn held record (xs ++ ys) = recipeIn (recipeIn held record xs) record ys :=
  foldl_append

/-! ## Where a launch enters -/

variable {projects : List GroupedProject} {placeOf : Text → Option Text} {act : PendingAct}
  {e : Entered}

theorem of_holderOf {placeId : Text} {x : GroupedProject × Nat}
    (h : holderOf projects placeId = some x) :
    projects[x.2]? = some x.1 ∧ (x.1.places.any fun pl => pl.holds placeId) = true := by
  refine ⟨List.mem_zipIdx_iff_getElem?.mp (List.mem_of_find?_eq_some h), ?_⟩
  exact List.find?_some (p := fun e : GroupedProject × Nat => e.1.places.any (·.holds placeId)) h

theorem enters_project (h : enters projects placeOf act = some e) :
    projects[e.index]? = some e.project := by
  unfold enters at h
  obtain ⟨placeId, -, h⟩ := bind_eq_some_iff.mp h
  obtain ⟨x, hx, h⟩ := bind_eq_some_iff.mp h
  obtain ⟨pl, -, h⟩ := bind_eq_some_iff.mp h
  obtain rfl := some.inj h
  exact (of_holderOf hx).1

theorem enters_isSome : (enters projects placeOf act).isSome ↔
    ∃ placeId, act.placeId.or (placeOf act.cwd) = some placeId ∧
      ∃ g ∈ projects, g.places.any (·.holds placeId) = true := by
  constructor
  · intro h
    obtain ⟨e, h⟩ := isSome_iff_exists.mp h
    unfold enters at h
    obtain ⟨placeId, hid, h⟩ := bind_eq_some_iff.mp h
    obtain ⟨x, hx, -⟩ := bind_eq_some_iff.mp h
    obtain ⟨hmem, hholds⟩ := of_holderOf hx
    exact ⟨placeId, hid, x.1, mem_of_getElem? hmem, hholds⟩
  · rintro ⟨placeId, hid, g, hg, hholds⟩
    obtain ⟨i, hi⟩ := List.getElem?_of_mem hg
    have hsome : (holderOf projects placeId).isSome := by
      rw [holderOf, List.find?_isSome]
      exact ⟨(g, i), List.mem_zipIdx_iff_getElem?.mpr hi, hholds⟩
    obtain ⟨x, hx⟩ := isSome_iff_exists.mp hsome
    obtain ⟨pl, hpl, hpl'⟩ := List.any_eq_true.mp (of_holderOf hx).2
    have hplace : (placeIn x.1 placeId).isSome := by
      rw [placeIn, List.find?_isSome]
      exact ⟨pl, hpl, hpl'⟩
    obtain ⟨pl', hpl'⟩ := isSome_iff_exists.mp hplace
    rw [enters, hid]
    simp only [bind_eq_bind, bind_some, hx, hpl']
    rfl

/-! ## What has been gathered -/

section Gather

variable {newId : Nat → Text} {n₀ : Nat} {prior : Text → Option ProjectRecipe}
  {done : List PendingAct} {d : Draining}

/-- What a drain of `done` has gathered, where `prior` is each record's recipe before it and its
first new id is the `n₀`th. -/
structure Gathered (projects : List GroupedProject) (placeOf : Text → Option Text)
    (newId : Nat → Text) (n₀ : Nat) (prior : Text → Option ProjectRecipe) (done : List PendingAct)
    (d : Draining) : Prop where
  split : (d.waiting ++ d.recorded.map Recorded.act ++ d.bucketed.map Prod.fst).Perm done
  waiting : ∀ act ∈ d.waiting, enters projects placeOf act = none
  bucketed : ∀ x ∈ d.bucketed, x.2.bucket = true
  acted : d.writes.filter isActed = d.recorded.map Recorded.write
  le : n₀ ≤ d.newIds
  ids : ∀ i r, d.ensured.lookup i = some r → ∃ g, projects[i]? = some g ∧
    (g.recordId = some r ∨ g.recordId = none ∧ ∃ k, n₀ ≤ k ∧ k < d.newIds ∧ r = newId k)
  once : ∀ i j r, d.ensured.lookup i = some r → d.ensured.lookup j = some r → i = j
  nodup : d.first.Nodup
  first : ∀ i ∈ d.first, (∃ r, d.ensured.lookup i = some r) ∧
    ∃ g, projects[i]? = some g ∧ g.recordId = none
  creates : (d.writes.filterMap createOf).length = d.first.length
  created : ∀ r ∈ d.writes.filterMap createOf, ∃ k, n₀ ≤ k ∧ k < d.newIds ∧ r = newId k
  launched : ∀ l ∈ d.launched, ∃ act ∈ done, ∃ e, enters projects placeOf act = some e ∧
    e.project.bucket = false ∧ act.recipe ≠ none ∧ act.time = l.time ∧
      d.ensured.lookup e.index = some l.record
  inTurn : done.Pairwise (InTurn projects placeOf) →
    d.launched.Pairwise fun l l' => l.record = l'.record → l.time ≤ l'.time
  unread : ∀ i, d.ensured.lookup i = none → d.recipes.lookup i = none
  recipe : ∀ i r g, d.ensured.lookup i = some r → projects[i]? = some g →
    (d.recipes.lookup i).or g.recipe = recipeOfLaunches (prior r) (launchesOf d.launched r)
  written : ∀ r, recipeIn (prior r) r d.writes =
    recipeOfLaunches (prior r) (launchesOf d.launched r)

/-- The grouping as the records named it, before the drain. -/
structure Grouped (projects : List GroupedProject) (newId : Nat → Text) (n₀ : Nat)
    (prior : Text → Option ProjectRecipe) : Prop where
  named : ∀ (i : Nat) (g : GroupedProject) (r : Text), projects[i]? = some g →
    g.recordId = some r → g.recipe = prior r
  unnamed : ∀ (i : Nat) (g : GroupedProject), projects[i]? = some g → g.recordId = none →
    g.recipe = none
  once : ∀ (i j : Nat) (g g' : GroupedProject) (r : Text), projects[i]? = some g →
    projects[j]? = some g' → g.recordId = some r → g'.recordId = some r → i = j
  fresh : ∀ (i : Nat) (g : GroupedProject) (k : Nat), projects[i]? = some g → n₀ ≤ k →
    g.recordId ≠ some (newId k)
  unwritten : ∀ k, n₀ ≤ k → prior (newId k) = none
  inj : ∀ k k', newId k = newId k' → k = k'

theorem gathered_nil : Gathered projects placeOf newId n₀ prior []
    { waiting := [], writes := [], ensured := [], recipes := [], newIds := n₀, first := [],
      recorded := [], launched := [], bucketed := [] } where
  split := List.Perm.nil
  waiting _ h := absurd h not_mem_nil
  bucketed _ h := absurd h not_mem_nil
  acted := rfl
  le := Nat.le_refl n₀
  ids _ _ h := by cases h
  once _ _ _ h := by cases h
  nodup := nodup_nil
  first _ h := absurd h not_mem_nil
  creates := rfl
  created _ h := absurd h not_mem_nil
  launched _ h := absurd h not_mem_nil
  inTurn _ := List.Pairwise.nil
  unread _ _ := rfl
  recipe _ _ _ h := by cases h
  written _ := rfl

theorem Gathered.aside (h : Gathered projects placeOf newId n₀ prior done d) {act : PendingAct}
    {d' : Draining}
    (hsplit : (d'.waiting ++ d.recorded.map Recorded.act ++ d'.bucketed.map Prod.fst).Perm
      (done ++ [act]))
    (hwaiting : ∀ a ∈ d'.waiting, enters projects placeOf a = none)
    (hbucketed : ∀ x ∈ d'.bucketed, x.2.bucket = true)
    (hsame : { d' with waiting := d.waiting, bucketed := d.bucketed } = d) :
    Gathered projects placeOf newId n₀ prior (done ++ [act]) d' := by
  obtain ⟨w, writes, ensured, recipes, newIds, first, recorded, launched, b⟩ := d'
  obtain ⟨w', writes', ensured', recipes', newIds', first', recorded', launched', b'⟩ := d
  obtain ⟨-, rfl, rfl, rfl, rfl, rfl, rfl, rfl, -⟩ := Draining.mk.inj hsame
  exact { h with
    split := hsplit
    waiting := hwaiting
    bucketed := hbucketed
    launched := fun l hl => by
      obtain ⟨a, ha, rest⟩ := h.launched l hl
      exact ⟨a, mem_append_left _ ha, rest⟩
    inTurn := fun hturn => h.inTurn (pairwise_append.mp hturn).1 }

theorem lookup_cons_ne {β : Type} {i j : Nat} {b : β} {l : List (Nat × β)} (h : j ≠ i) :
    ((i, b) :: l).lookup j = l.lookup j := by
  rw [lookup_cons, beq_false_of_ne h]

/-- A project's record in a drain is its own, or a new one of its own. -/
theorem Gathered.ensureOnce (h : Gathered projects placeOf newId n₀ prior done d)
    (hg : Grouped projects newId n₀ prior) (he : projects[e.index]? = some e.project) (time : ℚ) :
    (ensureOnce newId d e time).2.ensured.lookup e.index = some (ensureOnce newId d e time).1 ∧
      Gathered projects placeOf newId n₀ prior done (ensureOnce newId d e time).2 := by
  unfold ProjectRecords.ensureOnce
  split
  · next r hr => exact ⟨hr, h⟩
  · next hnone =>
    dsimp only
    refine ⟨List.lookup_cons_self, ?_⟩
    generalize hr : (ensure (newId d.newIds) e.project e.index time []).recordId = r
    -- the record is the project's own, or the next new id
    have hown : e.project.recordId = some r ∨ e.project.recordId = none ∧ r = newId d.newIds := by
      subst hr
      cases hid : e.project.recordId with
      | some id => exact Or.inl (by simp [ensure, hid])
      | none => exact Or.inr ⟨rfl, by simp [ensure, hid]⟩
    have hother : ∀ j, d.ensured.lookup j ≠ some r := by
      intro j hj
      obtain ⟨g, hgj, hid⟩ := h.ids j r hj
      rcases hown with hown | ⟨-, rfl⟩
      · rcases hid with hid | ⟨-, k, hk, -, rfl⟩
        · rw [hg.once j e.index g e.project r hgj he hid hown, hnone] at hj
          cases hj
        · exact hg.fresh e.index e.project k he hk hown
      · rcases hid with hid | ⟨-, k, -, hk, hsame⟩
        · exact hg.fresh j g d.newIds hgj h.le hid
        · exact Nat.lt_irrefl _ (hg.inj _ _ hsame ▸ hk)
    have hlookup {i : Nat} {r' : Text}
        (hi : ((e.index, r) :: d.ensured).lookup i = some r') :
        i = e.index ∧ r' = r ∨ d.ensured.lookup i = some r' := by
      by_cases hie : i = e.index
      · subst hie
        rw [List.lookup_cons_self] at hi
        exact Or.inl ⟨rfl, (some.inj hi).symm⟩
      · rw [lookup_cons_ne hie] at hi
        exact Or.inr hi
    have hkeep {i : Nat} {r' : Text} (hi : d.ensured.lookup i = some r') :
        ((e.index, r) :: d.ensured).lookup i = some r' := by
      rw [lookup_cons_ne]
      · exact hi
      · rintro rfl
        rw [hnone] at hi
        cases hi
    have hlaunches : launchesOf d.launched r = [] := by
      rw [launchesOf, filter_eq_nil_iff]
      intro l hl hlr
      obtain ⟨_, _, e', _, _, _, _, hl'⟩ := h.launched l hl
      exact hother e'.index (of_decide_eq_true hlr ▸ hl')
    constructor
    · exact h.split
    · exact h.waiting
    · exact h.bucketed
    · show (d.writes ++ _).filter isActed = _
      rw [filter_append, ensure_acted, append_nil, h.acted]
    · exact h.le.trans (Nat.le_add_right _ _)
    · intro i r' hi
      rcases hlookup hi with ⟨rfl, rfl⟩ | hi
      · refine ⟨e.project, he, hown.imp id ?_⟩
        rintro ⟨hnil, hnew⟩
        refine ⟨hnil, d.newIds, h.le, ?_, hnew⟩
        rw [ensure_first, if_pos hnil]
        exact Nat.lt_succ_self _
      · obtain ⟨g, hgi, hid⟩ := h.ids i r' hi
        refine ⟨g, hgi, hid.imp id ?_⟩
        rintro ⟨hnil, k, hk, hlt, hsame⟩
        exact ⟨hnil, k, hk, hlt.trans_le (Nat.le_add_right _ _), hsame⟩
    · intro i j r' hi hj
      rcases hlookup hi with ⟨rfl, rfl⟩ | hi'
      · rcases hlookup hj with ⟨rfl, -⟩ | hj'
        · rfl
        · exact absurd hj' (hother j)
      · rcases hlookup hj with ⟨-, hsame⟩ | hj'
        · exact absurd (hsame ▸ hi') (hother i)
        · exact h.once i j r' hi' hj'
    · show (d.first ++ _).Nodup
      rw [ensure_first]
      split
      · refine nodup_append.mpr ⟨h.nodup, nodup_singleton _, ?_⟩
        rintro i hi _ hj rfl
        obtain rfl := mem_singleton.mp hj
        obtain ⟨⟨r', hr'⟩, -⟩ := h.first _ hi
        rw [hnone] at hr'
        cases hr'
      · rw [append_nil]
        exact h.nodup
    · intro i hi
      change i ∈ d.first ++ _ at hi
      rcases mem_append.mp hi with hi | hi
      · obtain ⟨⟨r', hr'⟩, hproject⟩ := h.first i hi
        exact ⟨⟨r', hkeep hr'⟩, hproject⟩
      · rw [ensure_first] at hi
        split at hi
        · next hnil =>
          obtain rfl := mem_singleton.mp hi
          exact ⟨⟨r, List.lookup_cons_self⟩, e.project, he, hnil⟩
        · cases hi
    · show ((d.writes ++ _).filterMap createOf).length = (d.first ++ _).length
      rw [filterMap_append, length_append, length_append, h.creates, ensure_creates,
        ensure_first]
      split <;> rfl
    · intro r' hr'
      change r' ∈ (d.writes ++ _).filterMap createOf at hr'
      rw [filterMap_append] at hr'
      rcases mem_append.mp hr' with hr' | hr'
      · obtain ⟨k, hk, hlt, hsame⟩ := h.created r' hr'
        exact ⟨k, hk, hlt.trans_le (Nat.le_add_right _ _), hsame⟩
      · rw [ensure_creates] at hr'
        split at hr'
        · next hnil =>
          refine ⟨d.newIds, h.le, ?_, mem_singleton.mp hr'⟩
          rw [ensure_first, if_pos hnil]
          exact Nat.lt_succ_self _
        · cases hr'
    · intro l hl
      obtain ⟨act, hact, e', he', hbucket, hrecipe, htime, hl'⟩ := h.launched l hl
      exact ⟨act, hact, e', he', hbucket, hrecipe, htime, hkeep hl'⟩
    · exact h.inTurn
    · intro i hi
      refine h.unread i ?_
      by_cases hie : i = e.index
      · rwa [hie]
      · rwa [lookup_cons_ne hie] at hi
    · intro i r' g hi hgi
      rcases hlookup hi with ⟨rfl, rfl⟩ | hi
      · obtain rfl := some.inj (he.symm.trans hgi)
        show (d.recipes.lookup e.index).or e.project.recipe =
          recipeOfLaunches _ (launchesOf d.launched r')
        rw [h.unread _ hnone, none_or, hlaunches]
        rcases hown with hown | ⟨hnil, rfl⟩
        · exact hg.named _ _ _ he hown
        · rw [hg.unnamed _ _ he hnil]
          exact (hg.unwritten _ h.le).symm
      · exact h.recipe i r' g hi hgi
    · intro r'
      show recipeIn (prior r') r' (d.writes ++ _) = _
      rw [recipeIn_append, ensure_recipe]
      exact h.written r'

theorem launchesOf_append (ls : List Launched) (l : Launched) (r : Text) :
    launchesOf (ls ++ [l]) r =
      if l.record = r then launchesOf ls r ++ [l] else launchesOf ls r := by
  unfold launchesOf
  rw [filter_append]
  by_cases h : l.record = r
  · simp [h]
  · simp [h]

theorem recipeOfLaunches_append (held : Option ProjectRecipe) (ls : List Launched) (l : Launched) :
    recipeOfLaunches held (ls ++ [l]) =
      some (recipeAfter (recipeOfLaunches held ls) l.launch l.time (some l.place)) := by
  rw [recipeOfLaunches, foldl_append]
  rfl

theorem split_recorded {ws rs bs done : List PendingAct} (act : PendingAct)
    (h : (ws ++ rs ++ bs).Perm done) : (ws ++ (rs ++ [act]) ++ bs).Perm (done ++ [act]) := by
  have hmove : (ws ++ (rs ++ [act]) ++ bs).Perm (ws ++ rs ++ bs ++ [act]) := by
    rw [← append_assoc ws rs [act], append_assoc (ws ++ rs) [act] bs,
      append_assoc (ws ++ rs) bs [act]]
    exact List.Perm.append_left _ perm_append_comm
  exact hmove.trans (h.append_right _)

theorem Gathered.recordLaunch (h : Gathered projects placeOf newId n₀ prior done d)
    (henters : enters projects placeOf act = some e) (hbucket : e.project.bucket = false) {r : Text}
    (hr : d.ensured.lookup e.index = some r) :
    Gathered projects placeOf newId n₀ prior (done ++ [act]) (recordLaunch e act r d) := by
  have he := enters_project henters
  have hacted : (d.writes ++ [ProjectWrite.acted r e.placeId act.time]).filter isActed =
      (d.recorded ++ [Recorded.mk act r e.placeId]).map Recorded.write := by
    rw [filter_append, h.acted, map_append]
    rfl
  have hcreates : (d.writes ++ [ProjectWrite.acted r e.placeId act.time]).filterMap createOf =
      d.writes.filterMap createOf := by
    rw [filterMap_append]
    exact append_nil _
  have hsplit := split_recorded act h.split
  have hlaunched {l : Launched} (hl : l ∈ d.launched) : ∃ a ∈ done ++ [act], ∃ e',
      enters projects placeOf a = some e' ∧ e'.project.bucket = false ∧ a.recipe ≠ none ∧
        a.time = l.time ∧ d.ensured.lookup e'.index = some l.record := by
    obtain ⟨a, ha, rest⟩ := h.launched l hl
    exact ⟨a, mem_append_left _ ha, rest⟩
  have hmap : d.recorded.map Recorded.act ++ [act] =
      (d.recorded ++ [Recorded.mk act r e.placeId]).map Recorded.act := by
    rw [map_append]
    rfl
  rw [hmap] at hsplit
  unfold ProjectRecords.recordLaunch
  cases hrecipe : act.recipe with
  | none =>
    exact { h with
      split := hsplit
      acted := hacted
      creates := by rw [hcreates]; exact h.creates
      created := by rw [hcreates]; exact h.created
      launched := fun l hl => hlaunched hl
      inTurn := fun hturn => h.inTurn (pairwise_append.mp hturn).1
      written := fun r' => by
        rw [recipeIn_append]
        exact h.written r' }
  | some launch =>
    dsimp only
    generalize hplace : ({ device := e.entered.deviceId, placeId := e.entered.placeId } : PlaceRef)
      = place
    have hprior := h.recipe e.index r e.project hr he
    rw [hprior]
    generalize hnew : recipeAfter (recipeOfLaunches (prior r) (launchesOf d.launched r)) launch
      act.time (some place) = recipe
    have hstep : recipeOfLaunches (prior r)
        (launchesOf (d.launched ++ [Launched.mk r launch act.time place]) r) = some recipe := by
      rw [launchesOf_append, if_pos rfl, recipeOfLaunches_append, hnew]
    have hnone : (d.writes ++ [ProjectWrite.acted r e.placeId act.time] ++
        [ProjectWrite.recipe r recipe]).filterMap createOf = d.writes.filterMap createOf := by
      rw [filterMap_append, hcreates]
      exact append_nil _
    have hskip {r' : Text} (hne : r ≠ r') :
        launchesOf (d.launched ++ [Launched.mk r launch act.time place]) r' =
          launchesOf d.launched r' := by
      rw [launchesOf_append, if_neg hne]
    exact { h with
      split := hsplit
      acted := by
        rw [filter_append, hacted]
        exact append_nil _
      creates := by
        rw [hnone]
        exact h.creates
      created := by
        rw [hnone]
        exact h.created
      launched := by
        intro l hl
        rcases mem_snoc.mp hl with hl | rfl
        · exact hlaunched hl
        · exact ⟨act, mem_append_right _ mem_cons_self, e, henters, hbucket,
            by rw [hrecipe]; exact some_ne_none _, rfl, hr⟩
      inTurn := by
        intro hturn
        obtain ⟨hdone, -, hlast⟩ := pairwise_append.mp hturn
        refine pairwise_append.mpr ⟨h.inTurn hdone, pairwise_singleton _ _, ?_⟩
        intro l hl l' hl' hsame
        obtain rfl := mem_singleton.mp hl'
        obtain ⟨a, ha, e', he', hbucket', hrecipe', htime, hlookup⟩ := h.launched l hl
        rw [← htime]
        refine hlast a ha act mem_cons_self e' e he' henters ?_ hbucket' hrecipe' ?_
        · have hsame : l.record = r := hsame
          exact h.once _ _ r (hsame ▸ hlookup) hr
        · rw [hrecipe]
          exact some_ne_none _
      unread := by
        intro i hi
        rw [lookup_cons_ne]
        · exact h.unread i hi
        · rintro rfl
          rw [hr] at hi
          cases hi
      recipe := by
        intro i r' g hi hgi
        by_cases hie : i = e.index
        · subst hie
          obtain rfl := some.inj (hr.symm.trans hi)
          rw [List.lookup_cons_self, some_or, hstep]
        · have hne : r ≠ r' := fun heq => hie (h.once i e.index r' hi (heq ▸ hr))
          rw [lookup_cons_ne hie, hskip hne]
          exact h.recipe i r' g hi hgi
      written := by
        intro r'
        rw [recipeIn_append, recipeIn_append, h.written r']
        by_cases heq : r = r'
        · subst heq
          rw [hstep]
          exact if_pos rfl
        · rw [hskip heq]
          exact if_neg heq }

theorem Gathered.drainOne (h : Gathered projects placeOf newId n₀ prior done d)
    (hg : Grouped projects newId n₀ prior) (act : PendingAct) :
    Gathered projects placeOf newId n₀ prior (done ++ [act])
      (drainOne newId projects placeOf d act) := by
  unfold ProjectRecords.drainOne
  split
  · next hnone =>
    refine h.aside ?_ ?_ h.bucketed rfl
    · have hmove : (d.waiting ++ [act] ++ d.recorded.map Recorded.act ++
          d.bucketed.map Prod.fst).Perm
          (d.waiting ++ d.recorded.map Recorded.act ++ d.bucketed.map Prod.fst ++ [act]) := by
        rw [append_assoc d.waiting [act], append_assoc d.waiting,
          append_assoc d.waiting, append_assoc d.waiting, append_assoc [act]]
        exact List.Perm.append_left _ perm_append_comm
      exact hmove.trans (h.split.append_right _)
    · intro a ha
      rcases mem_snoc.mp ha with ha | ha
      · exact h.waiting a ha
      · rwa [ha]
  · next e he =>
    split
    · next hbucket =>
      refine h.aside ?_ h.waiting ?_ rfl
      · rw [map_append, ← append_assoc]
        exact h.split.append_right _
      · exact forall_mem_append.mpr ⟨h.bucketed, forall_mem_singleton.mpr hbucket⟩
    · next hbucket =>
      obtain ⟨hlookup, hensured⟩ := h.ensureOnce hg (enters_project he) act.time
      exact hensured.recordLaunch he (Bool.not_eq_true _ ▸ hbucket) hlookup

theorem gathered_drained (hg : Grouped projects newId n₀ prior)
    (placeOf : Text → Option Text) (pending : List PendingAct) :
    Gathered projects placeOf newId n₀ prior pending
      (drained newId projects placeOf n₀ pending) := by
  have hfold (rest done : List PendingAct) (d : Draining)
      (h : Gathered projects placeOf newId n₀ prior done d) :
      Gathered projects placeOf newId n₀ prior (done ++ rest)
        (rest.foldl (ProjectRecords.drainOne newId projects placeOf) d) := by
    induction rest generalizing done d with
    | nil => rwa [append_nil]
    | cons act rest ih =>
      have hsplit : done ++ act :: rest = done ++ [act] ++ rest := by simp
      rw [hsplit]
      exact ih _ _ (h.drainOne hg act)
  exact hfold pending [] _ gathered_nil

end Gather

end VibeField.Fieldd.ProjectRecords
