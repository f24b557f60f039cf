import VibeField.Base.Codec
import VibeField.Fieldd.ProjectLaunches

/-!
# Launches are recorded once and the newest speaks

Every launch is in one place, and leaves one acted write once it is recorded.  Where the library
takes the drains' writes and launches are recorded in the order of their times, none is lost and a
record's recipe is the newest launch's.
-/

namespace VibeField.Fieldd.ProjectRecords

open ProjectDoc List Option

/-! ## Recipes -/

variable {controls : Controls} {l : List (Text × Controls)} {m : Text}

theorem lookup_map_self (h : m ∈ l.map Prod.fst) :
    (l.map fun e => if e.1 = m then (e.1, controls) else e).lookup m = some controls := by
  induction l with
  | nil => cases h
  | cons x rest ih =>
    rw [map_cons]
    by_cases hx : x.1 = m
    · rw [if_pos hx, hx, List.lookup_cons_self]
    · have hne : (m == x.1) = false := beq_false_of_ne (Ne.symm hx)
      rw [if_neg hx, lookup_cons, hne]
      exact ih ((mem_cons.mp h).resolve_left (Ne.symm hx))

theorem lookup_map_ne {m m' : Text} (h : m' ≠ m) :
    (l.map fun e => if e.1 = m then (e.1, controls) else e).lookup m' =
      l.lookup m' := by
  induction l with
  | nil => rfl
  | cons x rest ih =>
    rw [map_cons, lookup_cons, lookup_cons, ih]
    by_cases hx : x.1 = m
    · have hne : (m' == x.1) = false := beq_false_of_ne (hx ▸ h)
      rw [if_pos hx, hne]
    · rw [if_neg hx]

theorem lookup_setControls_self : (setControls l m controls).lookup m = some controls := by
  unfold setControls
  split
  · next h => exact lookup_map_self h
  · next h =>
    have hnone : l.lookup m = none := by
      rw [lookup_eq_none_iff]
      intro e he
      refine bne_iff_ne.mpr ?_
      rintro rfl
      exact h (List.mem_map_of_mem he)
    rw [lookup_append, hnone, List.lookup_cons_self]
    rfl

theorem lookup_setControls_ne {m m' : Text} (h : m' ≠ m) :
    (setControls l m controls).lookup m' = l.lookup m' := by
  unfold setControls
  split
  · exact lookup_map_ne h
  · have hne : (m' == m) = false := beq_false_of_ne h
    rw [lookup_append, lookup_cons, hne]
    exact or_none

theorem controls_kept (after : List Launched) (held : ProjectRecipe)
    (hagent : ∀ x ∈ after, x.launch.provider = held.provider)
    (hmodel : ∀ x ∈ after, ∀ sel, x.launch.selection = some sel → sel.modelId ≠ m) :
    ∃ recipe, recipeOfLaunches (some held) after = some recipe ∧
      recipe.controlsByModel.lookup m = held.controlsByModel.lookup m := by
  induction after generalizing held with
  | nil => exact ⟨held, rfl, rfl⟩
  | cons x rest ih =>
    have hx : x.launch.provider = held.provider := hagent x mem_cons_self
    obtain ⟨recipe, hrecipe, hlookup⟩ := ih (recipeAfter (some held) x.launch x.time (some x.place))
      (fun y hy => (hagent y (mem_cons_of_mem _ hy)).trans hx.symm)
      (fun y hy => hmodel y (mem_cons_of_mem _ hy))
    refine ⟨recipe, hrecipe, hlookup.trans ?_⟩
    unfold recipeAfter
    simp only [hx, if_true]
    cases hsel : x.launch.selection with
    | none => rfl
    | some sel =>
      exact lookup_setControls_ne (Ne.symm (hmodel x mem_cons_self sel hsel))

/-- The newest of the launches speaks: the recipe is what it chose, and every model the agent was
launched at since it became the project's keeps its controls as last chosen. -/
structure NewestSpeaks (ls : List Launched) (recipe : ProjectRecipe) : Prop where
  newest : ∃ l ∈ ls, (∀ l' ∈ ls, l'.time ≤ l.time) ∧ recipe.provider = l.launch.provider ∧
    recipe.profileSet = l.launch.profileSet ∧
    recipe.selection = l.launch.selection.map (fun sel => (sel.modelId, sel.custom)) ∧
    recipe.time = l.time ∧ recipe.place = some l.place
  controls : ∀ before l after, ls = before ++ l :: after → l.launch.provider = recipe.provider →
    (∀ x ∈ after, x.launch.provider = recipe.provider) → ∀ sel, l.launch.selection = some sel →
    (∀ x ∈ after, ∀ sel', x.launch.selection = some sel' → sel'.modelId ≠ sel.modelId) →
      recipe.controlsByModel.lookup sel.modelId = some (sel.controls.getD [])

theorem newestSpeaks {ls : List Launched} (hne : ls ≠ [])
    (hsorted : ls.Pairwise fun l l' => l.time ≤ l'.time) (held : Option ProjectRecipe) :
    ∃ recipe, recipeOfLaunches held ls = some recipe ∧ NewestSpeaks ls recipe := by
  obtain ⟨front, last, rfl⟩ := (eq_nil_or_concat' ls).resolve_left hne
  refine ⟨_, recipeOfLaunches_append held front last, ?_, ?_⟩
  · refine ⟨last, mem_append_right _ mem_cons_self, ?_, rfl, rfl, rfl, rfl, rfl⟩
    intro l hl
    rcases mem_snoc.mp hl with hl | hl
    · exact (pairwise_append.mp hsorted).2.2 l hl last mem_cons_self
    · rw [hl]
  · intro before l after hsplit hagent hafter sel hsel hmodel
    have hwhole := recipeOfLaunches_append held front last
    rw [hsplit, recipeOfLaunches, foldl_append, foldl_cons] at hwhole
    obtain ⟨recipe, hrecipe, hlookup⟩ := controls_kept after
      (recipeAfter (recipeOfLaunches held before) l.launch l.time (some l.place))
      (fun x hx => (hafter x hx).trans hagent.symm) hmodel
    have hsame := some.inj (hrecipe.symm.trans hwhole)
    rw [← hsame, hlookup]
    unfold recipeAfter
    simp only [hsel]
    exact lookup_setControls_self

/-! ## Order -/

section Times

variable {P : Type} {s : State P}

def launchedIn : Option Commit → List Launched
  | none => []
  | some c => c.launched

structure Timely (s : State P) : Prop where
  lost : s.lost = []
  times : (s.launched ++ launchedIn s.running).Pairwise
    fun l l' => l.record = l'.record → l.time ≤ l'.time

theorem Timely.regrouped (h : Timely s) : Timely s.regrouped := by
  unfold State.regrouped
  split
  · exact { h with }
  · exact h

end Times

variable {P : Type} [LinearOrder P] {p : P} {stringify : ProjectRecipe → Text}
  {parse : Text → Option ProjectRecipe} {newId : Nat → Text} {doc₀ : ProjectDoc.Doc P}
  {s s' : State P}

/-- Each launch that is about to leave a recipe is no older than those that left one for its
project. -/
structure InTime (parse : Text → Option ProjectRecipe) (s : State P) (e : Evidence) : Prop where
  waiting : s.pending.Pairwise (InTurn (s.projects parse e) e.placeOf)
  recorded : ∀ act ∈ s.pending, ∀ x, enters (s.projects parse e) e.placeOf act = some x →
    x.project.bucket = false → act.recipe ≠ none → ∀ r, x.project.recordId = some r →
      ∀ l ∈ s.launched, l.record = r → l.time ≤ act.time

def Orderly (parse : Text → Option ProjectRecipe) (s : State P) : Event → Prop
  | .run _ => s.running = none → s.queue.head? = some .drain → s.mounted = true →
      ∀ e, s.evidence = some e → InTime parse s e
  | .settled outcome => ∀ c, s.running = some c → c.isIntent = false →
      outcome ≠ .refused ∧ c.writes.forM check = .ok ()
  | _ => True

theorem Timely.drainActs (h : Timely s) (ha : Accounted parse newId doc₀ s)
    (hinj : ∀ k k', newId k = newId k' → k = k')
    (hnew : ∀ k, recipes parse doc₀ (newId k) = none) (hidle : s.running = none)
    (hok : s.mounted = true → ∀ e, s.evidence = some e → InTime parse s e) :
    Timely (s.drainActs parse newId) := by
  unfold State.drainActs
  split
  · exact h
  · have hr := h.regrouped
    have har := ha.regrouped
    have hok : s.regrouped.mounted = true → ∀ e, s.regrouped.evidence = some e →
        InTime parse s.regrouped e := by
      unfold State.regrouped
      split
      · exact fun hm e he => { hok hm e he with }
      · exact hok
    have hidle : s.regrouped.running = none := by
      unfold State.regrouped
      split <;> exact hidle
    generalize s.regrouped = s at hr har hok hidle
    dsimp only
    split
    · next e hmounted hevidence =>
      have hg := har.grouped hinj hnew hmounted e
      have hd := gathered_drained hg e.placeOf s.pending
      have hintime := hok hmounted e hevidence
      generalize drained newId (s.projects parse e) e.placeOf s.newIds s.pending = d at hd
      have htimes := hr.times
      rw [hidle] at htimes
      have hold : s.launched.Pairwise fun l l' => l.record = l'.record → l.time ≤ l'.time :=
        (pairwise_append.mp htimes).1
      refine ⟨hr.lost, ?_⟩
      change (s.launched ++ launchedIn (if d.writes = [] then none else some _)).Pairwise _
      split
      · exact htimes
      · refine pairwise_append.mpr ⟨hold, hd.inTurn hintime.waiting, ?_⟩
        intro l hl l' hl' hsame
        obtain ⟨act, hact, x, hx, hbucket, hrecipe, htime, hlookup⟩ := hd.launched l' hl'
        rw [← htime]
        obtain ⟨g, hgi, hid⟩ := hd.ids _ _ hlookup
        obtain rfl := some.inj ((enters_project hx).symm.trans hgi)
        rcases hid with hid | ⟨-, k, hk, -, hnewid⟩
        · exact hintime.recorded act hact x hx hbucket hrecipe _ hid l hl hsame
        · exact absurd (hsame.trans hnewid) (har.ids l hl k hk)
    · exact hr

theorem Timely.intentActs (h : Timely s) (hidle : s.running = none) (key : Text)
    (op : ProjectIntentOp) (now : ℚ) : Timely (s.intentActs parse newId key op now) := by
  unfold State.intentActs
  have hr := h.regrouped
  have hidle : s.regrouped.running = none := by
    unfold State.regrouped
    split <;> exact hidle
  generalize s.regrouped = s at hr hidle
  dsimp only
  split
  · split
    · exact hr
    · split
      · exact hr
      · split
        · exact hr
        · have htimes := hr.times
          rw [hidle] at htimes
          exact ⟨hr.lost, htimes⟩
  · exact hr

theorem Timely.settle {c : Commit} (h : Timely s) (ha : Accounted parse newId doc₀ s)
    (hc : s.running = some c) {outcome : Outcome}
    (hok : c.isIntent = false → outcome ≠ .refused ∧ c.writes.forM check = .ok ()) :
    Timely (s.settle p stringify c outcome) := by
  have htimes := h.times
  rw [hc] at htimes
  have hrefuse (hintent : c.isIntent = true) : Timely (s.refuse c) := by
    obtain ⟨hrecorded, -⟩ := (ha.ready c hc).intent hintent
    refine ⟨?_, ?_⟩
    · show s.lost ++ c.recorded = []
      rw [h.lost, hrecorded]
      rfl
    · show (s.launched ++ []).Pairwise _
      rw [append_nil]
      exact (pairwise_append.mp htimes).1
  have hkeep (doc : ProjectDoc.Doc P) : Timely (s.keep c doc) := by
    refine ⟨h.lost, ?_⟩
    show (s.launched ++ c.launched ++ []).Pairwise _
    rw [append_nil]
    exact htimes
  have hanswer (doc : ProjectDoc.Doc P) : Timely ((s.keep c doc).answer c) := by
    have hmoved : Timely { s.keep c doc with
        moved := (c.moves.filter fun m => m.1 ≠ m.2) ++ (s.keep c doc).moved } :=
      { hkeep doc with }
    unfold State.answer
    dsimp only
    split
    · exact hmoved.regrouped
    · exact hmoved
  unfold State.settle
  split
  · next text happly =>
    refine hrefuse (Bool.eq_true_of_not_eq_false fun hdrain => ?_)
    have hcheck := (hok hdrain).2
    unfold applyProjectWrites at happly
    rw [hcheck] at happly
    cases happly
  · exact hrefuse (Bool.eq_true_of_not_eq_false fun hdrain => (hok hdrain).1 rfl)
  · exact hkeep _
  · exact hanswer _

/-! ## Runs -/

/-- Each launch is in one place, and the recorded ones have an acted write each. -/
structure RecordedOnce (s : State P) : Prop where
  once : ∀ n, s.places n = if n < s.launches then 1 else 0
  acted : s.written.filter isActed = s.recorded.map Recorded.write
  temporary : ∀ x ∈ s.temporary, x.2.bucket = true
  watched : Watched s
  records : ∀ c, s.running = some c → c.first.Nodup ∧
    (∀ i ∈ c.first, ∃ g, c.projects[i]? = some g ∧ g.recordId = none) ∧
      (c.writes.filterMap createOf).length = c.first.length

section Runs

variable (hinj : ∀ k k', newId k = newId k' → k = k')
  (hparse : ∀ r, parse (stringify r) = some r)
  (hrecipes : ∀ k, get doc₀ .recipes (newId k) = none)
  (hcreated : ∀ k, get doc₀ .created (newId k) = none)

include hinj hparse hrecipes hcreated

theorem watched_reachable {ok : State P → Event → Prop}
    (hs : (machine p stringify parse newId doc₀).Reaches ok s) : Watched s := by
  have hnew (k : Nat) : recipes parse doc₀ (newId k) = none := by rw [recipes, hrecipes]; rfl
  refine hs.invariant_of (P := Watched) ?_ fun s e s' hs hw _ hnext =>
    hw.next hinj hnew (accounted_reachable hinj hparse hnew hcreated hs) hnext
  intro hmounted
  cases hmounted

theorem timely_reaches (hs : (machine p stringify parse newId doc₀).Reaches (Orderly parse) s) :
    Timely s := by
  have hnew (k : Nat) : recipes parse doc₀ (newId k) = none := by rw [recipes, hrecipes]; rfl
  refine hs.invariant_of (P := Timely) ⟨rfl, List.Pairwise.nil⟩ fun s e s' hs h hok hnext => ?_
  have ha := accounted_reachable hinj hparse hnew hcreated hs
  cases e with
  | actedIn cwd time recipe placeId =>
    obtain rfl := some.inj hnext
    exact { h with }
  | intent key op =>
    obtain rfl := some.inj hnext
    exact { h with }
  | facts evidence =>
    obtain rfl := some.inj hnext
    exact { h with }
  | regroup =>
    obtain rfl := some.inj hnext
    exact h.regrouped
  | mount =>
    obtain rfl := some.inj hnext
    exact { h with }
  | unmount =>
    obtain rfl := some.inj hnext
    exact { h with }
  | run now =>
    simp only [machine, State.next] at hnext
    split at hnext
    · next rest hidle hqueue =>
      obtain rfl := some.inj hnext
      have hrest : Timely { s with queue := rest } := { h with }
      refine hrest.drainActs { ha with } hinj hnew hidle fun hm e he => ?_
      exact { hok hidle (by rw [hqueue]; rfl) hm e he with }
    · next key op rest hidle _ =>
      obtain rfl := some.inj hnext
      have hrest : Timely { s with queue := rest } := { h with }
      exact hrest.intentActs hidle key op now
    · cases hnext
  | settled outcome =>
    obtain ⟨c, hc, rfl⟩ := map_eq_some_iff.mp hnext
    exact h.settle ha hc (hok c hc)

/-- Each launch is recorded once, and a project's act makes one record for it at most.  Where drains
find their launches in time and the library takes their writes, no launch is lost and the newest
launch recorded for a project speaks. -/
theorem launches_recorded :
    (∀ s, (machine p stringify parse newId doc₀).Reachable s → RecordedOnce s) ∧
    ∀ s, (machine p stringify parse newId doc₀).Reaches (Orderly parse) s → s.lost = [] ∧
      ∀ r, launchesOf s.launched r ≠ [] →
        ∃ recipe, recipes parse s.doc r = some recipe ∧
          NewestSpeaks (launchesOf s.launched r) recipe := by
  have hnew (k : Nat) : recipes parse doc₀ (newId k) = none := by rw [recipes, hrecipes]; rfl
  constructor
  · intro s hs
    have ha := accounted_reachable hinj hparse hnew hcreated hs
    refine ⟨ha.counted, ha.acted, ha.temporary,
      watched_reachable hinj hparse hrecipes hcreated hs, fun c hc => ?_⟩
    have hready := ha.ready c hc
    exact ⟨hready.nodup, hready.first, hready.creates⟩
  · intro s hs
    have ha := accounted_reachable hinj hparse hnew hcreated hs
    have ht := timely_reaches hinj hparse hrecipes hcreated hs
    refine ⟨ht.lost, fun r hne => ?_⟩
    have hsorted : (launchesOf s.launched r).Pairwise fun l l' => l.time ≤ l'.time := by
      have hall := (List.pairwise_append.mp ht.times).1
      refine (hall.filter _).imp_of_mem ?_
      intro l l' hl hl' hle
      have hlr : l.record = r := of_decide_eq_true (List.mem_filter.mp hl).2
      have hlr' : l'.record = r := of_decide_eq_true (List.mem_filter.mp hl').2
      exact hle (hlr.trans hlr'.symm)
    obtain ⟨recipe, hrecipe, hspeaks⟩ := newestSpeaks hne hsorted (recipes parse doc₀ r)
    exact ⟨recipe, (ha.recipe r).trans hrecipe, hspeaks⟩

end Runs

/-! ## Two launches of one project -/

def textCodec : Codec Text := Codec.list Codec.char

def placeCodec : Codec PlaceRef :=
  (Codec.pair textCodec textCodec).via (fun p => (p.device, p.placeId)) (fun x => ⟨x.1, x.2⟩)
    fun _ => rfl

def recipeCodec : Codec ProjectRecipe :=
  let controls := Codec.list (Codec.pair textCodec textCodec)
  let rest := Codec.pair (Codec.list (Codec.pair textCodec controls))
    (Codec.pair Codec.rat (Codec.option placeCodec))
  let chosen := Codec.option (Codec.pair textCodec (Codec.option Codec.bool))
  (Codec.pair textCodec (Codec.pair textCodec (Codec.pair chosen rest))).via
    (fun r => (r.provider, r.profileSet, r.selection, r.controlsByModel, r.time, r.place))
    (fun x => ⟨x.1, x.2.1, x.2.2.1, x.2.2.2.1, x.2.2.2.2.1, x.2.2.2.2.2⟩) fun _ => rfl

def stroke (k : Nat) : Text := List.replicate (k + 1) 'r'

theorem stroke_inj (k k' : Nat) (h : stroke k = stroke k') : k = k' := by
  have hlength := congrArg List.length h
  rw [stroke, stroke, length_replicate, length_replicate] at hlength
  exact Nat.succ.inj hlength

def desk : Machine (State Nat) Event :=
  machine 0 recipeCodec.write recipeCodec.decode stroke []

def oneGroup (known : Bool) : Evidence where
  groups := [⟨['k'], ["place:b".toList], 0, false, false, [⟨['b'], ['d'], []⟩]⟩]
  excluded _ := []
  placeOf cwd := if known ∧ cwd = ['c'] then some ['b'] else none

def plainLaunch (provider : Text) : LaunchRecipe := ⟨provider, ['s'], none⟩

def overtaken : List Event :=
  [.facts (oneGroup false), .mount, .actedIn ['c'] 10 (some (plainLaunch ['x'])) none,
    .actedIn ['c'] 20 (some (plainLaunch ['y'])) (some ['b']), .run 0, .settled .saved,
    .facts (oneGroup true), .run 0, .settled .saved]

def refused : List Event :=
  [.facts (oneGroup true), .mount, .actedIn ['c'] 10 (some (plainLaunch ['x'])) none, .run 0,
    .settled .refused, .regroup]

/-- The recipe of an older launch stands over the newest one's, and a launch is lost. -/
theorem older_launch_speaks :
    (∃ s, desk.Reachable s ∧ ∃ r recipe, recipes recipeCodec.decode s.doc r = some recipe ∧
      ¬ NewestSpeaks (launchesOf s.launched r) recipe) ∧
    ∃ s, desk.Reachable s ∧ s.pending = [] ∧ s.lost ≠ [] := by
  constructor
  · obtain ⟨s, hs, hp⟩ := Machine.exists_of_run (M := desk)
      (fun s => decide ((recipes recipeCodec.decode s.doc (stroke 0)).map (·.time) = some 10 ∧
        (launchesOf s.launched (stroke 0)).map (·.time) = [20, 10])) overtaken (by decide)
    obtain ⟨htime, htimes⟩ := of_decide_eq_true hp
    obtain ⟨recipe, hrecipe, hten⟩ := Option.map_eq_some_iff.mp htime
    refine ⟨s, hs, stroke 0, recipe, hrecipe, fun hspeaks => ?_⟩
    obtain ⟨l, -, hmax, -, -, -, hlast, -⟩ := hspeaks.newest
    obtain ⟨l', hl', htwenty⟩ : ∃ l' ∈ launchesOf s.launched (stroke 0), l'.time = 20 :=
      List.mem_map.mp (by rw [htimes]; exact List.mem_cons_self)
    have hle := hmax l' hl'
    rw [htwenty, ← hlast, hten] at hle
    exact absurd hle (by decide)
  · obtain ⟨s, hs, hp⟩ := Machine.exists_of_run (M := desk)
      (fun s => s.pending.isEmpty && !s.lost.isEmpty) refused (by decide)
    obtain ⟨hpending, hlost⟩ := Bool.and_eq_true_iff.mp hp
    refine ⟨s, hs, List.isEmpty_iff.mp hpending, fun hnil => ?_⟩
    rw [hnil] at hlost
    cases hlost

def alone (s : State Nat) : Event → Bool
  | .run _ => decide (s.pending.length ≤ 1) && s.launched.isEmpty
  | .settled outcome => decide (outcome = .saved) &&
      match s.running with
      | none => true
      | some c => (c.writes.forM check).isOk
  | _ => true

theorem orderly_of_alone (s : State Nat) (e : Event) (h : alone s e = true) :
    Orderly recipeCodec.decode s e := by
  cases e with
  | run now =>
    obtain ⟨hpending, hlaunched⟩ := Bool.and_eq_true_iff.mp h
    have hpending : s.pending.length ≤ 1 := of_decide_eq_true hpending
    intro _ _ _ e _
    constructor
    · match hsame : s.pending with
      | [] => exact List.Pairwise.nil
      | [act] => exact pairwise_singleton _ _
      | act :: act' :: rest =>
        rw [hsame] at hpending
        exact absurd hpending (by simp)
    · intro _ _ _ _ _ _ _ _ l hl
      rw [List.isEmpty_iff.mp hlaunched] at hl
      cases hl
  | settled outcome =>
    obtain ⟨hsaved, hcheck⟩ := Bool.and_eq_true_iff.mp h
    intro c hc _
    rw [hc] at hcheck
    change (c.writes.forM check).isOk = true at hcheck
    refine ⟨by rw [of_decide_eq_true hsaved]; decide, ?_⟩
    cases hforM : c.writes.forM check with
    | error text =>
      rw [hforM] at hcheck
      cases hcheck
    | ok _ => rfl
  | _ => trivial

/-- A launch that has its place leaves its recipe. -/
theorem launches_recorded_one : ∃ s : State Nat, RecordedOnce s ∧ s.lost = [] ∧
    ∃ recipe, recipes recipeCodec.decode s.doc (stroke 0) = some recipe ∧
      NewestSpeaks (launchesOf s.launched (stroke 0)) recipe := by
  obtain ⟨s, hs, hp⟩ := Machine.exists_of_keeping_run (M := desk) orderly_of_alone
    (fun s : State Nat => !(launchesOf s.launched (stroke 0)).isEmpty)
    [.facts (oneGroup true), .mount, .actedIn ['c'] 10 (some (plainLaunch ['x'])) none, .run 0,
      .settled .saved] (by decide)
  obtain ⟨honce, hspeaks⟩ := launches_recorded (p := 0) stroke_inj recipeCodec.decode_write
    (show ∀ k, get ([] : ProjectDoc.Doc Nat) .recipes (stroke k) = none from fun _ => rfl)
    (fun _ => rfl)
  obtain ⟨hlost, hrecipe⟩ := hspeaks s hs
  refine ⟨s, honce s hs.reachable, hlost, hrecipe (stroke 0) fun hnil => ?_⟩
  rw [hnil] at hp
  cases hp

end VibeField.Fieldd.ProjectRecords
