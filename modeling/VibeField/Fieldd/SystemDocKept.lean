import VibeField.Fieldd.SystemDocFile

/-!
# What a system document's file keeps

As long as no write moves a copy that the load left in place because it was damaged, one good copy
is reachable at every point: a load returns a snapshot at least as new as every resolved one that
the medium has not damaged itself.
-/

namespace VibeField.Fieldd

open List Option

variable {s s' : SystemDocFile} {posix ok : Bool}

def goodCopy : Option DocCopy → Option Nat
  | some ⟨n, .good⟩ => some n
  | _ => none

def Which.other : Which → Which
  | .current => .lastGood
  | .lastGood => .current

namespace SystemDocFile

def spared (s : SystemDocFile) : DocFileEvent → Bool
  | .tear which => (goodCopy (s.file which.other)).isSome
  | .fault which => (goodCopy (s.file which.other)).isSome
  | _ => true

def clear (s : SystemDocFile) : DocFileEvent → Bool
  | .write true =>
    match s.running with
    | some ⟨_, _, .keeping⟩ => !s.inPlace
    | _ => true
  | _ => true

/-- The snapshot is as new as every resolved one that was not damaged. -/
def Covers (s : SystemDocFile) (n : Nat) : Prop :=
  ∀ m ∈ s.resolved, m ∉ s.damaged → m ≤ n

/-- What the two copies hold of the resolved snapshots. -/
structure Copies (s : SystemDocFile) : Prop where
  current : ∀ n, goodCopy s.current = some n → s.Covers n
  behind : goodCopy s.current = none →
    (∃ g, goodCopy s.lastGood = some g ∧ s.Covers g) ∨ s.resolved = []
  previous : ∀ n g, goodCopy s.current = some n → goodCopy s.lastGood = some g →
    ∀ m ∈ s.resolved, m ∉ s.damaged → m ≠ n → m ≤ g

end SystemDocFile

def DocWriteStage.filled : DocWriteStage → Bool
  | .syncing => true
  | .closing false => true
  | .keeping => true
  | .landing => true
  | _ => false

def DocWriteStage.landed : DocWriteStage → Bool
  | .dirOpening => true
  | .dirSyncing => true
  | .dirClosing _ => true
  | _ => false

namespace SystemDocFile

/-- What a running write has done so far. -/
structure Staged (s : SystemDocFile) (w : DocWrite) : Prop where
  newest : ∀ m ∈ s.resolved, m < w.snapshot
  taken : w.snapshot < s.taken
  asked : ∀ a ∈ w.asked, a ≤ w.snapshot
  filled : w.stage.filled = true → s.tmp = some ⟨w.snapshot, .good⟩
  kept : w.stage = .landing → s.current = none
  landed : w.stage.landed = true → s.current = some ⟨w.snapshot, .good⟩

structure Writes (s : SystemDocFile) : Prop where
  running : ∀ w, s.running = some w → s.process = .ready ∧ s.Staged w
  waiting : ∀ asked, s.waiting = some asked → s.process = .ready ∧ ∀ a ∈ asked, a ≤ s.taken
  resolved : ∀ m ∈ s.resolved, m < s.taken

/-- The load is done with the current file. -/
def pastCurrent (s : SystemDocFile) : Prop :=
  s.process = .ready ∨ s.process = .loading (.reading .lastGood) ∨
    s.process = .loading (.moving .lastGood)

/-- What a load has found so far. -/
structure Loads (s : SystemDocFile) : Prop where
  inPlace : s.pastCurrent → s.current.isSome = true → goodCopy s.current = none →
    s.inPlace = true
  torn : ∀ which, s.process = .loading (.moving which) → goodCopy (s.file which) = none
  second : s.process = .loading (.reading .lastGood) ∨ s.process = .loading (.moving .lastGood) →
    goodCopy s.current = none

/-! ## The copies -/

theorem Copies.congr (h : Copies s) (hcurrent : s'.current = s.current)
    (hlast : s'.lastGood = s.lastGood) (hresolved : s'.resolved = s.resolved)
    (hdamaged : s'.damaged = s.damaged) : Copies s' where
  current := by
    rw [hcurrent]
    unfold Covers
    rw [hresolved, hdamaged]
    exact h.current
  behind := by
    rw [hcurrent, hlast]
    unfold Covers
    rw [hresolved, hdamaged]
    exact h.behind
  previous := by
    rw [hcurrent, hlast, hresolved, hdamaged]
    exact h.previous

theorem keepCurrent_of_none (hc : s.current = none) : s.keepCurrent = s := by
  unfold SystemDocFile.keepCurrent
  rw [hc]

theorem keepCurrent_of_some {copy : DocCopy} (hc : s.current = some copy) :
    s.keepCurrent = { s with current := none, lastGood := some copy } := by
  unfold SystemDocFile.keepCurrent
  rw [hc]

theorem Copies.keepCurrent (h : Copies s)
    (hfound : s.current.isSome = true → goodCopy s.current ≠ none) : Copies s.keepCurrent := by
  cases hc : s.current with
  | none =>
    rw [keepCurrent_of_none hc]
    exact h
  | some copy =>
    rw [keepCurrent_of_some hc]
    have hne := hfound (by rw [hc]; rfl)
    obtain ⟨n, hn⟩ := ne_none_iff_exists'.mp hne
    refine ⟨?_, ?_, ?_⟩
    · intro m hm
      cases hm
    · intro _
      exact Or.inl ⟨n, hc ▸ hn, h.current n hn⟩
    · intro m g hm
      cases hm

variable {which : Which}

theorem Copies.moveAside {aside : List DocCopy} (h : Copies s)
    (htorn : goodCopy (s.file which) = none) :
    Copies ({ s with aside }.setFile which none) := by
  cases which with
  | current =>
    refine ⟨?_, fun _ => h.behind htorn, ?_⟩
    · intro m hm
      cases hm
    · intro m g hm
      cases hm
  | lastGood =>
    refine ⟨h.current, ?_, ?_⟩
    · intro hn
      rcases h.behind hn with ⟨g, hg, -⟩ | hnil
      · cases (show goodCopy s.lastGood = none from htorn).symm.trans hg
      · exact Or.inr hnil
    · intro m g _ hg
      cases hg

theorem Copies.land {n : Nat} {tmp : Option DocCopy} (h : Copies s) (hnone : s.current = none)
    (hnew : ∀ m ∈ s.resolved, m < n) :
    Copies { s with current := some ⟨n, .good⟩, tmp } := by
  have hgood : goodCopy s.current = none := by rw [hnone]; rfl
  refine ⟨?_, ?_, ?_⟩
  · intro m hm r hr _
    obtain rfl : n = m := some.inj hm
    exact Nat.le_of_lt (hnew r hr)
  · intro hn
    cases hn
  · intro m g _ hg r hr hd _
    rcases h.behind hgood with ⟨g', hg', hcov⟩ | hnil
    · obtain rfl : g' = g := some.inj (hg'.symm.trans hg)
      exact hcov r hr hd
    · rw [show s.resolved = [] from hnil] at hr
      cases hr

theorem Copies.resolve {w : DocWrite} (h : Copies s)
    (hcurrent : s.current = some ⟨w.snapshot, .good⟩) (hnew : ∀ m ∈ s.resolved, m < w.snapshot) :
    Copies (s.resolve w) := by
  have hgood : goodCopy s.current = some w.snapshot := by rw [hcurrent]; rfl
  have hmem : ∀ {m}, m ∈ s.resolved ++ [w.snapshot] → m ∈ s.resolved ∨ m = w.snapshot := by
    intro m hm
    rcases mem_snoc.mp hm with hm | hm
    · exact Or.inl hm
    · exact Or.inr hm
  refine ⟨?_, ?_, ?_⟩
  · intro n hn m hm _
    obtain rfl : w.snapshot = n := some.inj (hgood.symm.trans hn)
    rcases hmem hm with hm | rfl
    · exact Nat.le_of_lt (hnew m hm)
    · exact Nat.le_refl _
  · intro hn
    cases hgood.symm.trans hn
  · intro n g hn hg m hm hd hne
    rcases hmem hm with hm | rfl
    · exact h.previous n g hn hg m hm hd hne
    · exact absurd (some.inj (hgood.symm.trans hn)) hne

theorem Copies.damage {state : CopyState} (h : Copies s)
    (hother : (goodCopy (s.file which.other)).isSome = true) (hstate : state ≠ .good)
    (hs : s.damage which state = some s') : Copies s' := by
  have hbad : ∀ n, goodCopy (some ⟨n, state⟩) = none := by
    intro n
    cases state with
    | good => exact absurd rfl hstate
    | torn => rfl
    | unreadable => rfl
  unfold SystemDocFile.damage at hs
  split at hs
  · next copy _ hfile =>
    obtain rfl := some.inj hs
    obtain ⟨g, hg⟩ := isSome_iff_exists.mp hother
    have hkeep : ∀ {m}, m ∉ s.damaged ++ [copy.snapshot] → m ∉ s.damaged ∧ m ≠ copy.snapshot := by
      intro m hm
      exact ⟨fun hd => hm (mem_append_left _ hd),
        fun heq => hm (mem_append_right _ (mem_singleton.mpr heq))⟩
    cases which with
    | current =>
      refine ⟨?_, ?_, ?_⟩
      · intro n hn
        cases (hbad copy.snapshot).symm.trans hn
      · intro _
        cases hc : goodCopy s.current with
        | none =>
          rcases h.behind hc with ⟨g', hg', hcov⟩ | hnil
          · exact Or.inl ⟨g', hg', fun m hm hd => hcov m hm (hkeep hd).1⟩
          · exact Or.inr hnil
        | some n =>
          refine Or.inl ⟨g, hg, fun m hm hd => h.previous n g hc hg m hm (hkeep hd).1 ?_⟩
          have hn : copy.snapshot = n := by
            obtain ⟨n', st⟩ := copy
            rw [show s.current = some ⟨n', st⟩ from hfile] at hc
            cases st with
            | good => exact some.inj hc
            | torn => cases hc
            | unreadable => cases hc
          exact hn ▸ (hkeep hd).2
      · intro n g' hn
        cases (hbad copy.snapshot).symm.trans hn
    | lastGood =>
      refine ⟨?_, ?_, ?_⟩
      · intro n hn m hm hd
        exact h.current n hn m hm (hkeep hd).1
      · intro hn
        cases hg.symm.trans hn
      · intro n g' _ hg'
        cases (hbad copy.snapshot).symm.trans hg'
  · cases hs

/-! ## The load -/

/-- What a step of `load` does, and where. -/
inductive LoadStep (s : SystemDocFile) : SystemDocFile → Prop
  | swept (tmp : Option DocCopy) (hp : s.process = .loading .sweeping) :
      LoadStep s { s with tmp, process := .loading (.reading .current) }
  | absent (which : Which) (hp : s.process = .loading (.reading which))
      (hfile : s.file which = none) : LoadStep s (s.nextCopy which)
  | took (which : Which) (n : Nat) (hp : s.process = .loading (.reading which))
      (hfile : goodCopy (s.file which) = some n) : LoadStep s (s.answer (some n))
  | refused (which : Which) (hp : s.process = .loading (.reading which))
      (hfile : goodCopy (s.file which) = none) :
      LoadStep s { s with process := .loading (.moving which) }
  | unread (which : Which) (hp : s.process = .loading (.reading which))
      (hfile : goodCopy (s.file which) = none) : LoadStep s (s.leave which)
  | moved (which : Which) (hp : s.process = .loading (.moving which)) :
      LoadStep s
        (({ s with aside := s.aside ++ (s.file which).toList }.setFile which none).nextCopy which)
  | stuck (which : Which) (hp : s.process = .loading (.moving which)) : LoadStep s (s.leave which)

theorem load_step (hs : s.load ok = some s') : LoadStep s s' := by
  unfold SystemDocFile.load at hs
  split at hs
  · next hp =>
    obtain rfl := some.inj hs
    exact .swept _ hp
  · next which hp =>
    obtain rfl := some.inj hs
    split
    · next hfile => exact .absent which hp hfile
    · next n hfile => exact .took which n hp (by rw [hfile]; rfl)
    · next n hfile => exact .refused which hp (by rw [hfile]; rfl)
    · next n hfile => exact .unread which hp (by rw [hfile]; rfl)
  · next which hp =>
    obtain rfl := some.inj hs
    split
    · exact .moved which hp
    · exact .stuck which hp
  · cases hs

/-- What a load never touches, and that it stays one or ends. -/
structure LoadFrame (s s' : SystemDocFile) : Prop where
  running : s'.running = s.running
  waiting : s'.waiting = s.waiting
  resolved : s'.resolved = s.resolved
  damaged : s'.damaged = s.damaged
  taken : s'.taken = s.taken

theorem nextCopy_frame (which : Which) : LoadFrame s (s.nextCopy which) := by
  cases which <;> exact ⟨rfl, rfl, rfl, rfl, rfl⟩

theorem leave_frame (which : Which) : LoadFrame s (s.leave which) := by
  cases which <;> exact ⟨rfl, rfl, rfl, rfl, rfl⟩

theorem LoadStep.frame (h : LoadStep s s') : LoadFrame s s' := by
  cases h with
  | absent which => exact nextCopy_frame which
  | unread which => exact leave_frame which
  | stuck which => exact leave_frame which
  | moved which => cases which <;> exact ⟨rfl, rfl, rfl, rfl, rfl⟩
  | _ => exact ⟨rfl, rfl, rfl, rfl, rfl⟩

theorem LoadStep.loading (h : LoadStep s s') : ∃ stage, s.process = .loading stage := by
  cases h with
  | _ => exact ⟨_, by assumption⟩

theorem Copies.nextCopy (h : Copies s) (which : Which) : Copies (s.nextCopy which) := by
  cases which <;> exact h.congr rfl rfl rfl rfl

theorem Copies.leave (h : Copies s) (which : Which) : Copies (s.leave which) := by
  cases which <;> exact h.congr rfl rfl rfl rfl

theorem Copies.load (h : Copies s) (hl : Loads s) (hs : LoadStep s s') : Copies s' := by
  cases hs with
  | absent which => exact h.nextCopy which
  | unread which => exact h.leave which
  | stuck which => exact h.leave which
  | moved which hp => exact (h.moveAside (hl.torn which hp)).nextCopy which
  | _ => exact h.congr rfl rfl rfl rfl

theorem Writes.load (h : Writes s) (hs : LoadStep s s') : Writes s' := by
  obtain ⟨stage, hp⟩ := hs.loading
  have hne : s.process ≠ .ready := by
    rw [hp]
    exact DocProcess.noConfusion
  have hf := hs.frame
  refine ⟨?_, ?_, ?_⟩
  · intro w hw
    exact absurd (h.running w (hf.running ▸ hw)).1 hne
  · intro asked hw
    exact absurd (h.waiting asked (hf.waiting ▸ hw)).1 hne
  · rw [hf.resolved, hf.taken]
    exact h.resolved

theorem Loads.nextCopy
    (hfound : s.current.isSome = true → goodCopy s.current = none → s.inPlace = true)
    (hcurrent : goodCopy s.current = none) : Loads (s.nextCopy which) := by
  cases which with
  | current =>
    refine ⟨fun _ => hfound, ?_, fun _ => hcurrent⟩
    intro which hp
    cases hp
  | lastGood =>
    refine ⟨fun _ => hfound, ?_, fun _ => hcurrent⟩
    intro which hp
    cases hp

theorem Loads.leave (h : Loads s)
    (hpast : which = .lastGood → s.pastCurrent) (hcurrent : goodCopy s.current = none) :
    Loads (s.leave which) := by
  refine Loads.nextCopy ?_ hcurrent
  cases which with
  | current =>
    intro _ _
    exact Bool.or_true _
  | lastGood =>
    intro hsome hnone
    show (s.inPlace || false) = true
    rw [Bool.or_false]
    exact h.inPlace (hpast rfl) hsome hnone

theorem Loads.at_copy (h : Loads s)
    (hp : s.process = .loading (.reading which) ∨ s.process = .loading (.moving which))
    (hbad : goodCopy (s.file which) = none) :
    goodCopy s.current = none ∧ (which = .lastGood → s.pastCurrent) := by
  cases which with
  | current =>
    refine ⟨hbad, ?_⟩
    intro hne
    cases hne
  | lastGood => exact ⟨h.second hp, fun _ => Or.inr hp⟩

theorem Loads.load (h : Loads s) (hs : LoadStep s s') : Loads s' := by
  cases hs with
  | swept tmp hp =>
    refine ⟨?_, ?_, ?_⟩
    · rintro (hr | hr | hr) <;> cases hr
    · intro which hr
      cases hr
    · rintro (hr | hr) <;> cases hr
  | absent which hp hfile =>
    have hbad : goodCopy (s.file which) = none := by
      rw [hfile]
      rfl
    obtain ⟨hcurrent, hpast⟩ := h.at_copy (Or.inl hp) hbad
    refine Loads.nextCopy ?_ hcurrent
    cases which with
    | current =>
      intro hsome
      rw [show s.current = none from hfile] at hsome
      cases hsome
    | lastGood => exact h.inPlace (hpast rfl)
  | took which n hp hfile =>
    refine ⟨?_, ?_, ?_⟩
    · intro _ hsome hnone
      cases which with
      | current => cases (show goodCopy s.current = some n from hfile).symm.trans hnone
      | lastGood => exact h.inPlace (Or.inr (Or.inl hp)) hsome hnone
    · intro which hr
      cases hr
    · rintro (hr | hr) <;> cases hr
  | refused which hp hfile =>
    refine ⟨?_, ?_, ?_⟩
    · rintro (hr | hr | hr) hsome hnone
      · cases hr
      · cases hr
      · cases hr
        exact h.inPlace (Or.inr (Or.inl hp)) hsome hnone
    · intro which' hr
      cases hr
      exact hfile
    · rintro (hr | hr)
      · cases hr
      · cases hr
        exact h.second (Or.inl hp)
  | unread which hp hfile =>
    obtain ⟨hcurrent, hpast⟩ := h.at_copy (Or.inl hp) hfile
    exact h.leave hpast hcurrent
  | moved which hp =>
    obtain ⟨hcurrent, hpast⟩ := h.at_copy (Or.inr hp) (h.torn which hp)
    cases which with
    | current =>
      refine Loads.nextCopy ?_ rfl
      intro hsome
      cases hsome
    | lastGood => exact Loads.nextCopy (h.inPlace (hpast rfl)) hcurrent
  | stuck which hp =>
    obtain ⟨hcurrent, hpast⟩ := h.at_copy (Or.inr hp) (h.torn which hp)
    exact h.leave hpast hcurrent

/-! ## The write -/

structure Kept (s : SystemDocFile) : Prop where
  copies : Copies s
  writes : Writes s
  loads : Loads s

/-- What the file steps of a write never touch. -/
structure WriteFrame (s t : SystemDocFile) : Prop where
  waiting : t.waiting = s.waiting
  resolved : t.resolved = s.resolved
  damaged : t.damaged = s.damaged
  taken : t.taken = s.taken
  process : t.process = s.process
  inPlace : t.inPlace = s.inPlace

theorem keepCurrent_frame : WriteFrame s s.keepCurrent := by
  cases hc : s.current with
  | none =>
    rw [keepCurrent_of_none hc]
    exact ⟨rfl, rfl, rfl, rfl, rfl, rfl⟩
  | some copy =>
    rw [keepCurrent_of_some hc]
    exact ⟨rfl, rfl, rfl, rfl, rfl, rfl⟩

theorem Loads.of_ready (hp : s.process = .ready)
    (hfound : s.current.isSome = true → goodCopy s.current = none → s.inPlace = true) :
    Loads s := by
  refine ⟨fun _ => hfound, ?_, ?_⟩
  · intro which hr
    cases hp.symm.trans hr
  · rintro (hr | hr) <;> cases hp.symm.trans hr

variable {t : SystemDocFile} {w : DocWrite} {stage : DocWriteStage}

theorem Writes.waits (h : Writes s) (hf : WriteFrame s t) :
    ∀ asked, t.waiting = some asked → t.process = .ready ∧ ∀ a ∈ asked, a ≤ t.taken := by
  rw [hf.waiting, hf.process, hf.taken]
  exact h.waiting

theorem Writes.settled (h : Writes s) (hf : WriteFrame s t) : ∀ m ∈ t.resolved, m < t.taken := by
  rw [hf.resolved, hf.taken]
  exact h.resolved

theorem Writes.goTo (h : Writes s) (hw : s.running = some w) (hf : WriteFrame s t)
    (hfilled : stage.filled = true → t.tmp = some ⟨w.snapshot, .good⟩)
    (hkept : stage = .landing → t.current = none)
    (hlanded : stage.landed = true → t.current = some ⟨w.snapshot, .good⟩) :
    Writes (t.goTo w stage) := by
  obtain ⟨hp, hstaged⟩ := h.running w hw
  have hwaits := h.waits hf
  have hsettled := h.settled hf
  refine ⟨?_, hwaits, hsettled⟩
  intro w' hw'
  obtain rfl : { w with stage } = w' := some.inj hw'
  refine ⟨hf.process.trans hp, ?_, ?_, hstaged.asked, hfilled, hkept, hlanded⟩
  · show ∀ m ∈ t.resolved, m < w.snapshot
    rw [hf.resolved]
    exact hstaged.newest
  · show w.snapshot < t.taken
    rw [hf.taken]
    exact hstaged.taken

theorem Writes.reject (h : Writes s) (hf : WriteFrame s t) : Writes t.reject := by
  have hwaits := h.waits hf
  have hsettled := h.settled hf
  exact ⟨fun _ hw => (by cases hw), hwaits, hsettled⟩

theorem Writes.resolve (h : Writes s) (hw : s.running = some w) (hf : WriteFrame s t) :
    Writes (t.resolve w) := by
  have hwaits := h.waits hf
  refine ⟨fun _ hw => (by cases hw), hwaits, fun m hm => ?_⟩
  rcases mem_snoc.mp hm with hm | hm
  · exact h.settled hf m hm
  · rw [hm]
    exact hf.taken ▸ (h.running w hw).2.taken

theorem Kept.pass (h : Kept s) (hw : s.running = some w) (hf : WriteFrame s t)
    (hcurrent : t.current = s.current) (hlast : t.lastGood = s.lastGood)
    (hfilled : stage.filled = true → t.tmp = some ⟨w.snapshot, .good⟩)
    (hkept : stage ≠ .landing) (hlanded : stage.landed = true → w.stage.landed = true) :
    Kept (t.goTo w stage) := by
  obtain ⟨hp, hstaged⟩ := h.writes.running w hw
  refine ⟨h.copies.congr hcurrent hlast hf.resolved hf.damaged,
    h.writes.goTo hw hf hfilled (fun heq => absurd heq hkept) ?_, ?_⟩
  · intro hl
    rw [hcurrent]
    exact hstaged.landed (hlanded hl)
  · refine Loads.of_ready (hf.process.trans hp) ?_
    show t.current.isSome = true → goodCopy t.current = none → t.inPlace = true
    rw [hcurrent, hf.inPlace]
    exact h.loads.inPlace (Or.inl hp)

theorem Kept.reject (h : Kept s) (hw : s.running = some w) (hf : WriteFrame s t)
    (hcurrent : t.current = s.current) (hlast : t.lastGood = s.lastGood) : Kept t.reject := by
  obtain ⟨hp, -⟩ := h.writes.running w hw
  refine ⟨h.copies.congr hcurrent hlast hf.resolved hf.damaged, h.writes.reject hf, ?_⟩
  refine Loads.of_ready (hf.process.trans hp) ?_
  show t.current.isSome = true → goodCopy t.current = none → t.inPlace = true
  rw [hcurrent, hf.inPlace]
  exact h.loads.inPlace (Or.inl hp)

theorem Kept.resolve (h : Kept s) (hw : s.running = some w) (hf : WriteFrame s t)
    (hcopies : Copies t) (hcurrent : t.current = some ⟨w.snapshot, .good⟩) :
    Kept (t.resolve w) := by
  obtain ⟨hp, hstaged⟩ := h.writes.running w hw
  refine ⟨hcopies.resolve hcurrent ?_, h.writes.resolve hw hf, ?_⟩
  · rw [hf.resolved]
    exact hstaged.newest
  · refine Loads.of_ready (hf.process.trans hp) ?_
    intro _ hnone
    rw [show (t.resolve w).current = some ⟨w.snapshot, .good⟩ from hcurrent] at hnone
    cases hnone

theorem Kept.keep (h : Kept s) (hw : s.running = some w) (hstage : w.stage = .keeping)
    (hclear : s.inPlace = false) : Kept (s.keepCurrent.goTo w .landing) := by
  obtain ⟨hp, hstaged⟩ := h.writes.running w hw
  have hfound : s.current.isSome = true → goodCopy s.current ≠ none := by
    intro hsome hnone
    rw [h.loads.inPlace (Or.inl hp) hsome hnone] at hclear
    cases hclear
  have hnone : s.keepCurrent.current = none := by
    cases hc : s.current with
    | none =>
      rw [keepCurrent_of_none hc]
      exact hc
    | some copy => rw [keepCurrent_of_some hc]
  have htmp : s.keepCurrent.tmp = s.tmp := by
    cases hc : s.current with
    | none => rw [keepCurrent_of_none hc]
    | some copy => rw [keepCurrent_of_some hc]
  have hcopies : Copies (s.keepCurrent.goTo w .landing) :=
    (h.copies.keepCurrent hfound).congr rfl rfl rfl rfl
  refine ⟨hcopies, h.writes.goTo hw keepCurrent_frame ?_ (fun _ => hnone) ?_, ?_⟩
  · intro _
    rw [htmp]
    exact hstaged.filled (by rw [hstage]; rfl)
  · intro hl
    cases hl
  · refine Loads.of_ready (keepCurrent_frame.process.trans hp) ?_
    show s.keepCurrent.current.isSome = true → _
    rw [hnone]
    intro hsome
    cases hsome

theorem Kept.land (h : Kept s) (hw : s.running = some w) (hstage : w.stage = .landing) :
    Kept ({ s with current := s.tmp, tmp := none }.goTo w .dirOpening) ∧
      Kept ({ s with current := s.tmp, tmp := none }.resolve w) := by
  obtain ⟨hp, hstaged⟩ := h.writes.running w hw
  have htmp := hstaged.filled (by rw [hstage]; rfl)
  rw [htmp]
  have hf : WriteFrame s { s with current := some ⟨w.snapshot, .good⟩, tmp := none } :=
    ⟨rfl, rfl, rfl, rfl, rfl, rfl⟩
  have hcopies : Copies { s with current := some ⟨w.snapshot, .good⟩, tmp := none } :=
    h.copies.land (hstaged.kept hstage) hstaged.newest
  refine ⟨⟨hcopies.congr rfl rfl rfl rfl, h.writes.goTo hw hf ?_ ?_ fun _ => rfl, ?_⟩,
    h.resolve hw hf hcopies rfl⟩
  · intro hl
    cases hl
  · intro hl
    cases hl
  · refine Loads.of_ready hp ?_
    intro _ hnone
    cases hnone

theorem Kept.passOver (h : Kept s) (hw : s.running = some w) (hplain : stage.filled = false)
    (hlanded : stage.landed = true → w.stage.landed = true) : Kept (s.goTo w stage) := by
  refine h.pass hw ⟨rfl, rfl, rfl, rfl, rfl, rfl⟩ rfl rfl ?_ ?_ hlanded
  · intro hfilled
    cases hplain.symm.trans hfilled
  · rintro rfl
    cases hplain

theorem Kept.write (h : Kept s) (hclear : s.clear (.write ok) = true)
    (hs : s.write posix ok = some s') : Kept s' := by
  obtain ⟨⟨n, asked, stage⟩, hw, rfl⟩ := map_eq_some_iff.mp hs
  obtain ⟨hp, hstaged⟩ := h.writes.running _ hw
  have hframe : WriteFrame s s := ⟨rfl, rfl, rfl, rfl, rfl, rfl⟩
  have hno : ∀ {P : Prop}, false = true → P := fun hf => absurd hf Bool.false_ne_true
  cases stage with
  | mkdir =>
    cases ok with
    | true =>
      exact h.pass hw ⟨rfl, rfl, rfl, rfl, rfl, rfl⟩ rfl rfl hno DocWriteStage.noConfusion hno
    | false => exact h.reject hw hframe rfl rfl
  | opening =>
    cases ok with
    | true =>
      exact h.pass hw ⟨rfl, rfl, rfl, rfl, rfl, rfl⟩ rfl rfl hno DocWriteStage.noConfusion hno
    | false => exact h.passOver hw rfl hno
  | writing =>
    cases ok with
    | true =>
      exact h.pass hw ⟨rfl, rfl, rfl, rfl, rfl, rfl⟩ rfl rfl (fun _ => rfl)
        DocWriteStage.noConfusion hno
    | false => exact h.passOver hw rfl hno
  | syncing =>
    cases ok with
    | true =>
      exact h.pass hw hframe rfl rfl (fun _ => hstaged.filled rfl) DocWriteStage.noConfusion hno
    | false => exact h.passOver hw rfl hno
  | closing failed =>
    cases failed with
    | true => exact h.passOver hw rfl hno
    | false =>
      cases ok with
      | true =>
        exact h.pass hw hframe rfl rfl (fun _ => hstaged.filled rfl) DocWriteStage.noConfusion hno
      | false => exact h.passOver hw rfl hno
  | keeping =>
    cases ok with
    | true =>
      refine h.keep hw rfl ?_
      unfold clear at hclear
      rw [hw] at hclear
      simpa using hclear
    | false => exact h.passOver hw rfl hno
  | landing =>
    cases ok with
    | true =>
      cases posix with
      | true => exact (h.land hw rfl).1
      | false => exact (h.land hw rfl).2
    | false => exact h.passOver hw rfl hno
  | cleaning => exact h.reject hw ⟨rfl, rfl, rfl, rfl, rfl, rfl⟩ rfl rfl
  | dirOpening =>
    cases ok with
    | true => exact h.passOver hw rfl fun _ => rfl
    | false => exact h.reject hw hframe rfl rfl
  | dirSyncing => exact h.passOver hw rfl fun _ => rfl
  | dirClosing failed =>
    cases failed with
    | true => exact h.reject hw hframe rfl rfl
    | false =>
      cases ok with
      | true => exact h.resolve hw hframe h.copies (hstaged.landed rfl)
      | false => exact h.reject hw hframe rfl rfl

/-! ## The other steps -/

theorem Kept.sweep {dirReady inPlace : Bool} (h : Kept s) (hp : s.process ≠ .ready ∨
    s.waiting = none ∧ s.running = none) :
    Kept { s with process := .loading .sweeping, dirReady, inPlace } := by
  refine ⟨h.copies.congr rfl rfl rfl rfl, ⟨?_, ?_, h.writes.resolved⟩, ?_, ?_, ?_⟩
  · intro w hw
    rcases hp with hp | ⟨-, hnone⟩
    · exact absurd (h.writes.running w hw).1 hp
    · cases hnone.symm.trans hw
  · intro asked hw
    rcases hp with hp | ⟨hnone, -⟩
    · exact absurd (h.writes.waiting asked hw).1 hp
    · cases hnone.symm.trans hw
  · rintro (hr | hr | hr) <;> cases hr
  · intro which hr
    cases hr
  · rintro (hr | hr) <;> cases hr

theorem Kept.boot (h : Kept s) (hs : s.boot = some s') : Kept s' := by
  unfold SystemDocFile.boot at hs
  split at hs
  · next hp =>
    obtain rfl := some.inj hs
    refine h.sweep (Or.inl ?_)
    rw [hp]
    exact DocProcess.noConfusion
  · cases hs

theorem Kept.reload (h : Kept s) (hs : s.reload = some s') : Kept s' := by
  unfold SystemDocFile.reload at hs
  split at hs
  · next hw hr =>
    obtain rfl := some.inj hs
    exact h.sweep (Or.inr ⟨hw, hr⟩)
  · cases hs

theorem Kept.persist (h : Kept s) (hs : s.persist = some s') : Kept s' := by
  unfold SystemDocFile.persist at hs
  split at hs
  · next hp =>
    obtain rfl := some.inj hs
    refine ⟨h.copies.congr rfl rfl rfl rfl, ⟨?_, ?_, h.writes.resolved⟩, ?_⟩
    · intro w hw
      obtain ⟨hr, hst⟩ := h.writes.running w hw
      exact ⟨hr, hst.newest, hst.taken, hst.asked, hst.filled, hst.kept, hst.landed⟩
    · intro asked hasked
      obtain rfl := some.inj hasked
      refine ⟨hp, ?_⟩
      intro a ha
      rcases mem_snoc.mp ha with ha | ha
      · cases hw : s.waiting with
        | none =>
          rw [hw] at ha
          cases ha
        | some before =>
          rw [hw] at ha
          exact (h.writes.waiting before hw).2 a ha
      · exact Nat.le_of_eq ha
    · exact Loads.of_ready hp (h.loads.inPlace (Or.inl hp))
  · cases hs

theorem Kept.begin (h : Kept s) (hs : s.begin = some s') : Kept s' := by
  unfold SystemDocFile.begin at hs
  split at hs
  · next asked hr hw =>
    obtain rfl := some.inj hs
    obtain ⟨hp, hasked⟩ := h.writes.waiting asked hw
    refine ⟨h.copies.congr rfl rfl rfl rfl, ⟨?_, ?_, ?_⟩,
      Loads.of_ready hp (h.loads.inPlace (Or.inl hp))⟩
    · intro w hw'
      obtain rfl := some.inj hw'
      refine ⟨hp, h.writes.resolved, Nat.lt_succ_self _, hasked, ?_, ?_, ?_⟩ <;>
        cases s.dirReady <;> intro hstage <;> cases hstage
    · intro asked' hnone
      cases hnone
    · intro m hm
      exact Nat.lt_succ_of_lt (h.writes.resolved m hm)
  · cases hs

theorem Kept.crash (h : Kept s) : Kept s.crash := by
  refine ⟨h.copies.congr rfl rfl rfl rfl, ⟨?_, ?_, h.writes.resolved⟩, ?_, ?_, ?_⟩
  · intro w hw
    cases hw
  · intro asked hw
    cases hw
  · rintro (hr | hr | hr) <;> cases hr
  · intro which hr
    cases hr
  · rintro (hr | hr) <;> cases hr

theorem Kept.damage {state : CopyState} (h : Kept s)
    (hother : (goodCopy (s.file which.other)).isSome = true) (hstate : state ≠ .good)
    (hs : s.damage which state = some s') : Kept s' := by
  have hcopies := h.copies.damage hother hstate hs
  unfold SystemDocFile.damage at hs
  split at hs
  · next copy hp hfile =>
    obtain rfl := some.inj hs
    have hne : s.process ≠ .ready := by
      rw [hp]
      exact DocProcess.noConfusion
    refine ⟨hcopies, ⟨?_, ?_, ?_⟩, ?_, ?_, ?_⟩
    · intro w hw
      refine absurd (h.writes.running w ?_).1 hne
      cases which <;> exact hw
    · intro asked hw
      refine absurd (h.writes.waiting asked ?_).1 hne
      cases which <;> exact hw
    · cases which <;> exact h.writes.resolved
    · cases which <;> rintro (hr | hr | hr) <;> cases hp.symm.trans hr
    · cases which <;> intro which' hr <;> cases hp.symm.trans hr
    · cases which <;> rintro (hr | hr) <;> cases hp.symm.trans hr
  · cases hs

def careful (s : SystemDocFile) (e : DocFileEvent) : Bool :=
  s.spared e && s.clear e

theorem Kept.next {e : DocFileEvent} (h : Kept s) (hcareful : s.careful e = true)
    (hs : (docFileMachine posix).next s e = some s') : Kept s' := by
  obtain ⟨hspared, hclear⟩ := Bool.and_eq_true_iff.mp hcareful
  cases e with
  | boot => exact h.boot hs
  | reload => exact h.reload hs
  | load ok =>
    have hstep := load_step hs
    exact ⟨h.copies.load h.loads hstep, h.writes.load hstep, h.loads.load hstep⟩
  | persist => exact h.persist hs
  | begin => exact h.begin hs
  | write ok => exact h.write hclear hs
  | crash =>
    obtain rfl := some.inj hs
    exact h.crash
  | tear which => exact h.damage hspared CopyState.noConfusion hs
  | fault which => exact h.damage hspared CopyState.noConfusion hs

theorem Kept.start : Kept {} := by
  refine ⟨⟨?_, fun _ => Or.inr rfl, ?_⟩, ⟨?_, ?_, ?_⟩, ?_, ?_, ?_⟩
  · intro n hn
    cases hn
  · intro n g hn
    cases hn
  · intro w hw
    cases hw
  · intro asked hw
    cases hw
  · intro m hm
    cases hm
  · rintro (hr | hr | hr) <;> cases hr
  · intro which hr
    cases hr
  · rintro (hr | hr) <;> cases hr

theorem kept_of_reaches
    (h : (docFileMachine posix).Reaches (fun s e => s.careful e = true) s) : Kept s :=
  h.invariant Kept.start fun _ _ _ hk hcareful hs => hk.next hcareful hs

end SystemDocFile
end VibeField.Fieldd
