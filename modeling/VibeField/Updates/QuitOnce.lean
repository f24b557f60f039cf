import Mathlib.Algebra.GroupWithZero.Nat
import VibeField.Updates.QuitFlow

/-!
# The quit flow ends once

The plan that is current says what its record waits for: the answer of `prepare`, the timer, or
`installStalled`.  A plan that is not current any more waits for nothing but late answers, and an
exit is under way or has come, or it was aborted.
-/

namespace VibeField.Updates.QuitFlow

open List Option

variable {s s' : State} {u k : Nat} {code : Nat} {up : Update} {reason : String}

/-! ## What is told of a plan -/

def Told.isAnswer (plan : Nat) : Told → Bool
  | .answered u _ => u == plan
  | _ => false

def Told.apart (u : Nat) : Told → Bool
  | .answered v _ | .install v | .aborted v _ | .exits v | .relaunch v => v != u
  | _ => true

def Update.answered (up : Update) : Bool := up.phase != .armed && !up.awaitsPrepare

def State.answered (s : State) (u : Nat) : Bool := (s.updates[u]?).any Update.answered

structure Tale (told : List Told) (u : Nat) (answered : Bool) : Prop where
  answers : told.countP (Told.isAnswer u) = if answered then 1 else 0
  outcomes : told.countP (Told.isOutcome u) ≤ told.countP (Told.isAnswer u)
  outcome : .fatal ∉ told → told.countP (Told.isOutcome u) = told.countP (Told.isAnswer u)
  install : .install u ∈ told → .answered u .install ∈ told
  relaunches : told.count (.relaunch u) ≤ told.countP (Told.isAnswer u)
  relaunch : .relaunch u ∈ told → ∃ reason, .answered u (.exit true reason) ∈ told

variable {answered : Bool} {f : Update → Update} {l told : List Told} {t : Told}

theorem countP_apart {p : Told → Bool} (hl : ∀ t ∈ l, t.apart u = true)
    (hp : ∀ t, t.apart u = true → p t = false) : l.countP p = 0 :=
  countP_eq_zero.mpr fun t ht hpt => by
    rw [hp t (hl t ht)] at hpt
    cases hpt

theorem isAnswer_apart (t : Told) (h : t.apart u = true) : t.isAnswer u = false := by
  cases t <;> simp_all [Told.apart, Told.isAnswer]

theorem isOutcome_apart (t : Told) (h : t.apart u = true) : t.isOutcome u = false := by
  cases t <;> simp_all [Told.apart, Told.isOutcome]

theorem not_mem_apart (hl : ∀ t ∈ l, t.apart u = true) (ht : t.apart u = false) :
    t ∉ l := fun hmem => by
  rw [hl t hmem] at ht
  cases ht

theorem Tale.append (h : Tale told u answered) (hl : ∀ t ∈ l, t.apart u = true) :
    Tale (told ++ l) u answered := by
  have hanswer := countP_apart hl isAnswer_apart
  have houtcome := countP_apart hl isOutcome_apart
  have hrelaunch : .relaunch u ∉ l := not_mem_apart hl (by simp [Told.apart])
  have hinstall : .install u ∉ l := not_mem_apart hl (by simp [Told.apart])
  refine ⟨?_, ?_, fun hfatal => ?_, fun hin => ?_, ?_, fun hin => ?_⟩
  · rw [countP_append, hanswer, Nat.add_zero, h.answers]
  · rw [countP_append, countP_append, hanswer, houtcome]
    exact h.outcomes
  · rw [countP_append, countP_append, hanswer, houtcome]
    exact h.outcome fun hin => hfatal (mem_append_left l hin)
  · exact mem_append_left l (h.install ((mem_append.mp hin).resolve_right hinstall))
  · rw [count_append, countP_append, hanswer, count_eq_zero.mpr hrelaunch]
    exact h.relaunches
  · obtain ⟨reason, hmem⟩ := h.relaunch ((mem_append.mp hin).resolve_right hrelaunch)
    exact ⟨reason, mem_append_left l hmem⟩

theorem Tale.answer (h : Tale told u false) (hanswer : l.countP (Told.isAnswer u) = 1)
    (hle : l.countP (Told.isOutcome u) ≤ 1)
    (houtcome : .fatal ∉ told → l.countP (Told.isOutcome u) = 1)
    (hinstall : .install u ∈ l → .answered u .install ∈ l) (hrelaunches : l.count (.relaunch u) ≤ 1)
    (hrelaunch : .relaunch u ∈ l → ∃ reason, .answered u (.exit true reason) ∈ l) :
    Tale (told ++ l) u true := by
  have hnone : told.countP (Told.isAnswer u) = 0 := h.answers
  have houtcomes := h.outcomes
  have hcount := h.relaunches
  rw [hnone, Nat.le_zero] at houtcomes hcount
  refine ⟨?_, ?_, fun hfatal => ?_, fun hin => ?_, ?_, fun hin => ?_⟩
  · rw [countP_append, hnone, hanswer]
    rfl
  · rw [countP_append, countP_append, hnone, houtcomes, hanswer, Nat.zero_add]
    exact hle
  · rw [countP_append, countP_append, hnone, houtcomes, hanswer,
      houtcome fun hin => hfatal (mem_append_left l hin)]
  · rcases mem_append.mp hin with hold | hnew
    · exact mem_append_left l (h.install hold)
    · exact mem_append_right told (hinstall hnew)
  · rw [count_append, countP_append, hnone, hcount, hanswer, Nat.zero_add]
    exact hrelaunches
  · rcases mem_append.mp hin with hold | hnew
    · exact absurd hold (count_eq_zero.mp hcount)
    · obtain ⟨reason, hmem⟩ := hrelaunch hnew
      exact ⟨reason, mem_append_right told hmem⟩

/-! ## What holds -/

/-- What a record waits for. -/
structure Rec (s : State) (u : Nat) (up : Update) : Prop where
  prepare : up.awaitsPrepare = true → up.phase = .preparing
  timer : up.timer = true → up.phase = .installing ∧ s.update = some u
  stalled : up.awaitsStalled = true → up.phase = .stalling
  armed : s.update = some u → up.phase = .preparing → up.awaitsPrepare = true
  installing : s.update = some u → up.phase = .installing → up.timer = true
  stalling : s.update = some u → up.phase = .stalling → up.awaitsStalled = true
  /-- A plan that lost its place before its answer lost it to a fatal. -/
  lost : s.update ≠ some u → up.answered = false → .fatal ∈ s.told
  gone : s.update ≠ some u → up.phase = .installing ∨ up.phase = .stalling → s.exiting.isSome = true

structure Inv (s : State) : Prop where
  current : ∀ u, s.update = some u → u < s.updates.length
  exiting : s.exiting.isSome = true → s.update = none
  exits : s.told.countP Told.isExit = if s.exited then 1 else 0
  exited : s.exited = true → s.exiting.isSome = true
  recs : ∀ u up, s.updates[u]? = some up → Rec s u up
  tales : ∀ u, Tale s.told u (s.answered u)

theorem inv_start : Inv .start where
  current := by simp [State.start]
  exiting := by simp [State.start]
  exits := by simp [State.start]
  exited := by simp [State.start]
  recs := by simp [State.start]
  tales u := by constructor <;> simp [State.start, State.answered]

/-! ## Steps -/

def Told.aside : Told → Bool
  | .prepare _ | .installStalled _ _ | .closeWindows | .dispose | .fatal => true
  | _ => false

theorem apart_aside (h : t.aside = true) : t.apart u = true := by
  cases t <;> simp_all [Told.apart, Told.aside]

theorem exits_append (hl : ∀ t ∈ l, t.isExit = false) :
    (told ++ l).countP Told.isExit = told.countP Told.isExit := by
  have hzero : l.countP Told.isExit = 0 := countP_eq_zero.mpr fun t ht he => by
    rw [hl t ht] at he
    cases he
  rw [countP_append, hzero, Nat.add_zero]

theorem isExit_aside (h : t.aside = true) : t.isExit = false := by
  cases t <;> simp_all [Told.isExit, Told.aside]

theorem any_some {o : Option Update} {p : Update → Bool} (h : o.any p = true) :
    ∃ up, o = some up ∧ p up = true := by
  cases o with
  | none => cases h
  | some up => exact ⟨up, rfl, h⟩

theorem getElem?_modify' (l : List Update) (f : Update → Update) :
    (l.modify u f)[k]? = if u = k then (l[k]?).map f else l[k]? := by
  rw [List.getElem?_modify]
  split <;> cases l[k]? <;> simp_all

theorem modify_twice (l : List Update) (f g : Update → Update) :
    (l.modify u f).modify u g = l.modify u fun up => g (f up) := by
  refine ext_getElem? fun k => ?_
  rw [getElem?_modify', getElem?_modify', getElem?_modify']
  split
  · rw [Option.map_map]
    rfl
  · rfl

theorem Inv.frame (h : Inv s) (hupdates : s'.updates = s.updates) (hupdate : s'.update = s.update)
    (hexiting : s'.exiting = s.exiting) (hexited : s'.exited = s.exited)
    (htold : s'.told = s.told ++ l) (hl : ∀ t ∈ l, t.aside = true) : Inv s' where
  current := by rw [hupdate, hupdates]; exact h.current
  exiting := by rw [hexiting, hupdate]; exact h.exiting
  exits := by
    rw [htold, exits_append fun t ht => isExit_aside (hl t ht), hexited]
    exact h.exits
  exited := by rw [hexited, hexiting]; exact h.exited
  recs k up hk := by
    rw [hupdates] at hk
    have hrec := h.recs k up hk
    refine ⟨hrec.prepare, ?_, hrec.stalled, ?_, ?_, ?_, ?_, ?_⟩
    · rw [hupdate]; exact hrec.timer
    · rw [hupdate]; exact hrec.armed
    · rw [hupdate]; exact hrec.installing
    · rw [hupdate]; exact hrec.stalling
    · rw [hupdate, htold]
      exact fun hne hanswered => mem_append_left l (hrec.lost hne hanswered)
    · rw [hupdate, hexiting]; exact hrec.gone
  tales k := by
    rw [State.answered, hupdates, htold]
    exact (h.tales k).append fun t ht => apart_aside (hl t ht)

theorem Inv.leave (h : Inv s)
    (hcurrent : ∀ k, s.update = some k → k = u) (hupdates : s'.updates = s.updates.modify u f)
    (hf : ∀ up, (f up).phase = up.phase ∧ (f up).awaitsPrepare = up.awaitsPrepare ∧
      (f up).timer = false ∧ ((f up).awaitsStalled = true → up.awaitsStalled = true))
    (hupdate : s'.update = none) (hexiting : s'.exiting.isSome = true)
    (hexited : s'.exited = s.exited) (htold : s'.told = s.told ++ l)
    (hl : ∀ t ∈ l, t.aside = true)
    (hlost : ∀ up, s.update = some u → s.updates[u]? = some up → up.answered = false →
      .fatal ∈ s'.told) : Inv s' where
  current := by rw [hupdate]; simp
  exiting _ := hupdate
  exits := by
    rw [htold, exits_append fun t ht => isExit_aside (hl t ht), hexited]
    exact h.exits
  exited _ := hexiting
  recs k up hk := by
    rw [hupdates, getElem?_modify'] at hk
    have hfatal : .fatal ∈ s.told → .fatal ∈ s'.told := fun hin => by
      rw [htold]
      exact mem_append_left l hin
    have hgone : s'.update ≠ some k → up.phase = .installing ∨ up.phase = .stalling →
        s'.exiting.isSome = true := fun _ _ => hexiting
    by_cases huk : u = k
    · subst huk
      rw [if_pos rfl, map_eq_some_iff] at hk
      obtain ⟨old, hold, rfl⟩ := hk
      obtain ⟨hphase, hprepare, htimer, hstalled⟩ := hf old
      have hrec := h.recs u old hold
      refine ⟨?_, by simp [htimer], ?_, by simp [hupdate], by simp [hupdate], by simp [hupdate], ?_,
        hgone⟩
      · rw [hphase, hprepare]
        exact hrec.prepare
      · rw [hphase]
        exact fun hs => hrec.stalled (hstalled hs)
      · intro _ hanswered
        rw [Update.answered, hphase, hprepare] at hanswered
        by_cases hcur : s.update = some u
        · exact hlost old hcur hold hanswered
        · exact hfatal (hrec.lost hcur hanswered)
    · rw [if_neg huk] at hk
      have hrec := h.recs k up hk
      have hcur : s.update ≠ some k := fun hc => huk (hcurrent k hc).symm
      refine ⟨hrec.prepare, fun ht => absurd (hrec.timer ht).2 hcur, hrec.stalled,
        by simp [hupdate], by simp [hupdate], by simp [hupdate], ?_, hgone⟩
      exact fun _ hanswered => hfatal (hrec.lost hcur hanswered)
  tales k := by
    have hanswered : s'.answered k = s.answered k := by
      rw [State.answered, State.answered, hupdates, getElem?_modify']
      split
      · cases s.updates[k]? with
        | none => rfl
        | some up => simp [Update.answered, hf up]
      · rfl
    rw [hanswered, htold]
    exact (h.tales k).append fun t ht => apart_aside (hl t ht)

theorem Inv.modify (h : Inv s) (hupdates : s'.updates = s.updates.modify u f)
    (hupdate : s'.update = s.update ∨ s'.update = none ∧ s.update = some u)
    (hexiting : s'.exiting = s.exiting) (hexited : s'.exited = s.exited)
    (htold : s'.told = s.told ++ l) (hl : ∀ t ∈ l, t.isExit = false)
    (hrec : ∀ old, s.updates[u]? = some old → Rec s' u (f old))
    (htale : ∀ k, Tale s'.told k (s'.answered k)) : Inv s' where
  current k hk := by
    rw [hupdates, length_modify]
    rcases hupdate with he | ⟨he, -⟩
    · exact h.current k (he ▸ hk)
    · rw [he] at hk
      cases hk
  exiting hsome := by
    rw [hexiting] at hsome
    have hnone := h.exiting hsome
    rcases hupdate with he | ⟨he, -⟩
    · rw [he, hnone]
    · exact he
  exits := by
    rw [htold, exits_append hl, hexited]
    exact h.exits
  exited := by rw [hexited, hexiting]; exact h.exited
  recs k up hk := by
    rw [hupdates, getElem?_modify'] at hk
    by_cases huk : u = k
    · subst huk
      rw [if_pos rfl, map_eq_some_iff] at hk
      obtain ⟨old, hold, rfl⟩ := hk
      exact hrec old hold
    · rw [if_neg huk] at hk
      have hk' := h.recs k up hk
      have hcur : s'.update = some k ↔ s.update = some k := by
        rcases hupdate with he | ⟨he, hu⟩
        · rw [he]
        · rw [he, hu]
          simp [huk]
      refine ⟨hk'.prepare, fun ht => ⟨(hk'.timer ht).1, hcur.mpr (hk'.timer ht).2⟩, hk'.stalled,
        fun hc => hk'.armed (hcur.mp hc), fun hc => hk'.installing (hcur.mp hc),
        fun hc => hk'.stalling (hcur.mp hc), fun hc hanswered => ?_, fun hc hphase => ?_⟩
      · rw [htold]
        exact mem_append_left l (hk'.lost (fun he => hc (hcur.mpr he)) hanswered)
      · rw [hexiting]
        exact hk'.gone (fun he => hc (hcur.mpr he)) hphase
  tales := htale

theorem Inv.runOnce (h : Inv s) (hu : s.update = none) : Inv (s.runOnce code) := by
  rw [State.runOnce]
  split
  · exact h
  · have htold :
        ((({ s with exiting := some code } : State).tell .closeWindows).tell .dispose).told =
        s.told ++ [.closeWindows, .dispose] := append_assoc ..
    constructor
    · intro k hk
      exact h.current k hk
    · exact fun _ => hu
    · rw [htold, exits_append (by simp [Told.isExit])]
      exact h.exits
    · exact fun _ => rfl
    · intro k up hk
      have hk' := h.recs k up hk
      refine ⟨hk'.prepare, hk'.timer, hk'.stalled, hk'.armed, hk'.installing, hk'.stalling, ?_,
        fun _ _ => rfl⟩
      rw [htold]
      exact fun hc hanswered => mem_append_left _ (hk'.lost hc hanswered)
    · intro k
      rw [htold]
      exact (h.tales k).append (by simp [Told.apart])

theorem tale_modify (h : Inv s) (hupdates : s'.updates = s.updates.modify u f)
    (hf : ∀ old, s.updates[u]? = some old → (f old).answered = old.answered)
    (htold : s'.told = s.told ++ l) (hl : ∀ t ∈ l, t.aside = true) (k : Nat) :
    Tale s'.told k (s'.answered k) := by
  have hanswered : s'.answered k = s.answered k := by
    rw [State.answered, State.answered, hupdates, getElem?_modify']
    split
    · next huk =>
      subst huk
      cases hold : s.updates[u]? with
      | none => rfl
      | some old => simpa using hf old hold
    · rfl
  rw [hanswered, htold]
  exact (h.tales k).append fun t ht => apart_aside (hl t ht)

theorem Inv.stall (h : Inv s) : Inv (s.stall u reason) := by
  rw [State.stall]
  split
  · exact h
  · next up hup =>
    split
    · next hphase =>
      refine h.modify rfl (.inl rfl) rfl rfl rfl (by simp [Told.isExit]) (fun old hold => ?_)
        (tale_modify h rfl (fun old hold => ?_) rfl (by simp [Told.aside]))
      · rw [hup] at hold
        cases hold
        have hrec := h.recs u up hup
        constructor
        · intro hprepare
          rw [hrec.prepare hprepare] at hphase
          cases hphase
        · exact fun ht => by cases ht
        · exact fun _ => rfl
        · exact fun _ hp => by cases hp
        · exact fun _ hp => by cases hp
        · exact fun _ _ => rfl
        · intro hc hanswered
          have hp : up.awaitsPrepare = true := by simpa [Update.answered] using hanswered
          rw [hrec.prepare hp] at hphase
          cases hphase
        · exact fun hc _ => hrec.gone hc (.inl hphase)
      · rw [hup] at hold
        cases hold
        rw [Update.answered, Update.answered, hphase]
        rfl
    · exact h

theorem Inv.exiting_none (h : Inv s) (hu : s.update = some u) : s.exiting = none := by
  cases he : s.exiting with
  | none => rfl
  | some code =>
    have hnone := h.exiting (by rw [he]; rfl)
    rw [hu] at hnone
    cases hnone

theorem runOnce_eq (h : s.exiting = none) (code : Nat) : s.runOnce code =
    { s with exiting := some code, told := s.told ++ [.closeWindows, .dispose] } := by
  rw [State.runOnce, h]
  simp [State.tell]

theorem Inv.quitUpdate (h : Inv s) (hu : s.update = some u) (he : s.exiting = none) :
    Inv (s.quitUpdate u) := by
  rw [State.quitUpdate]
  split
  · exact h
  · next up hup =>
    split
    · next hphase =>
      have heq : (s.clearUpdate u).exiting = none := he
      rw [runOnce_eq heq]
      refine h.leave (fun k hk => (some.inj (hu.symm.trans hk)).symm) rfl
        (fun up => ⟨rfl, rfl, rfl, fun hs => hs⟩) ?_ rfl rfl rfl (by simp [Told.aside])
        (fun old _ hold hanswered => ?_)
      · show (if s.update = some u then none else s.update) = none
        rw [if_pos hu]
      · rw [hup] at hold
        cases hold
        have hp : up.awaitsPrepare = true := by simpa [Update.answered, hphase] using hanswered
        rw [(h.recs u up hup).prepare hp] at hphase
        cases hphase
    · next hphase =>
      have htold : (((s.setUpdate u fun update =>
          { update with phase := .preparing, awaitsPrepare := true }).tell .closeWindows).tell
            (.prepare u)).told = s.told ++ [.closeWindows, .prepare u] := append_assoc ..
      refine h.modify rfl (.inl rfl) rfl rfl htold (by simp [Told.isExit]) (fun old hold => ?_)
        (tale_modify h rfl (fun old hold => ?_) htold (by simp [Told.aside]))
      · rw [hup] at hold
        cases hold
        have hrec := h.recs u up hup
        constructor
        · exact fun _ => rfl
        · intro ht
          have hp := (hrec.timer ht).1
          rw [hphase] at hp
          cases hp
        · intro hs
          have hp := hrec.stalled hs
          rw [hphase] at hp
          cases hp
        · exact fun _ _ => rfl
        · exact fun _ hp => by cases hp
        · exact fun _ hp => by cases hp
        · exact fun hc => absurd hu hc
        · exact fun hc => absurd hu hc
      · rw [hup] at hold
        cases hold
        rw [Update.answered, Update.answered, hphase]
        rfl
    · exact h

theorem Inv.willQuit (h : Inv s) : Inv s.willQuit := by
  rw [State.willQuit]
  split
  · next hu he => exact h.quitUpdate hu he
  · next hno =>
    cases hu : s.update with
    | none => exact h.runOnce hu
    | some u =>
      cases he : s.exiting with
      | none => exact absurd he (hno u hu)
      | some code => rwa [State.runOnce, he]

theorem Inv.fatal (h : Inv s) : Inv s.fatal := by
  have htell : Inv (s.tell .fatal) := h.frame rfl rfl rfl rfl rfl (by simp [Told.aside])
  rw [State.fatal]
  split
  · next u hu =>
    have he := h.exiting_none hu
    have heq : ((s.tell .fatal).clearUpdate u).exiting = none := he
    rw [runOnce_eq heq]
    refine htell.leave (fun k hk => (some.inj (hu.symm.trans hk)).symm) rfl
      (fun up => ⟨rfl, rfl, rfl, fun hs => hs⟩) ?_ rfl rfl rfl (by simp [Told.aside])
      (fun old _ hold hanswered => ?_)
    · show (if s.update = some u then none else s.update) = none
      rw [if_pos hu]
    · show .fatal ∈ s.told ++ [.fatal] ++ [.closeWindows, .dispose]
      simp
  · next hu => exact htell.runOnce hu

theorem Inv.armUpdate (h : Inv s) : Inv s.armUpdate := by
  rw [State.armUpdate]
  split
  · next hmay =>
    rw [State.mayArm, Bool.and_eq_true, isNone_iff_eq_none,
      isNone_iff_eq_none] at hmay
    obtain ⟨he, hu⟩ := hmay
    have hget : ∀ k up, (s.updates ++ [Update.fresh])[k]? = some up →
        s.updates[k]? = some up ∨ k = s.updates.length ∧ up = .fresh := fun k up hk => by
      rw [List.getElem?_append] at hk
      split at hk
      · exact .inl hk
      · rw [List.getElem?_singleton] at hk
        split at hk
        · cases hk
          exact .inr ⟨by omega, rfl⟩
        · cases hk
    constructor
    · intro k hk
      obtain rfl : s.updates.length = k := some.inj hk
      simp
    · intro hsome
      rw [he] at hsome
      cases hsome
    · exact h.exits
    · exact h.exited
    · intro k up hk
      rcases hget k up hk with hold | ⟨rfl, rfl⟩
      · have hk' := h.recs k up hold
        have hlt := (List.getElem?_eq_some_iff.mp hold).1
        have hcur : some s.updates.length ≠ some k := fun hc => by
          cases hc
          exact Nat.lt_irrefl _ hlt
        have hnone : s.update ≠ some k := by simp [hu]
        exact ⟨hk'.prepare, fun ht => absurd (hk'.timer ht).2 hnone, hk'.stalled,
          fun hc => absurd hc hcur, fun hc => absurd hc hcur, fun hc => absurd hc hcur,
          fun _ => hk'.lost hnone, fun _ => hk'.gone hnone⟩
      · exact ⟨by simp [Update.fresh], by simp [Update.fresh], by simp [Update.fresh],
          by simp [Update.fresh], by simp [Update.fresh], by simp [Update.fresh],
          fun hc => absurd rfl hc, fun hc => absurd rfl hc⟩
    · intro k
      have hanswered : ((s.updates ++ [Update.fresh])[k]?).any Update.answered =
          s.answered k := by
        rw [State.answered, List.getElem?_append]
        split
        · rfl
        · next hlen =>
          rw [List.getElem?_eq_none (Nat.not_lt.mp hlen), List.getElem?_singleton]
          split <;> rfl
      show Tale s.told k (((s.updates ++ [Update.fresh])[k]?).any Update.answered)
      rw [hanswered]
      exact h.tales k
  · exact h

theorem Inv.timer_eq (h : Inv s) (hup : s.updates[u]? = some up) (ht : up.timer = true) :
    s.timer u = s.stall u "the install did not quit the app in time" := by
  have hphase := ((h.recs u up hup).timer ht).1
  have hget : (s.setUpdate u fun update => { update with timer := false }).updates[u]? =
      some { up with timer := false } := by
    show (s.updates.modify u _)[u]? = _
    rw [getElem?_modify', if_pos rfl, hup]
    rfl
  rw [State.timer, State.stall, State.stall, hget, hup]
  simp only [hphase, if_true, State.setUpdate, State.tell, modify_twice]

theorem Inv.timer (h : Inv s) (hup : s.updates[u]? = some up) (ht : up.timer = true) :
    Inv (s.timer u) := by
  rw [h.timer_eq hup ht]
  exact h.stall

theorem runOnce_leaves (s : State) (code : Nat) : (s.runOnce code).updates = s.updates ∧
    (s.runOnce code).update = s.update ∧ (s.runOnce code).exiting.isSome = true ∧
    (s.runOnce code).exited = s.exited ∧
    ∃ l, (s.runOnce code).told = s.told ++ l ∧ ∀ t ∈ l, t.aside = true := by
  cases he : s.exiting with
  | some other =>
    have heq : s.runOnce code = s := by rw [State.runOnce, he]
    rw [heq, he]
    exact ⟨rfl, rfl, rfl, rfl, [], by simp, by simp⟩
  | none =>
    rw [runOnce_eq he]
    exact ⟨rfl, rfl, rfl, rfl, [.closeWindows, .dispose], rfl, by simp [Told.aside]⟩

theorem Inv.stalled (h : Inv s) (hup : s.updates[u]? = some up) (hs : up.awaitsStalled = true) :
    Inv (s.stalled u) := by
  have hrec := h.recs u up hup
  have hphase := hrec.stalled hs
  have hanswered : up.answered = true := by
    rw [Update.answered, hphase]
    cases hp : up.awaitsPrepare with
    | false => rfl
    | true =>
      have hpreparing := hrec.prepare hp
      rw [hphase] at hpreparing
      cases hpreparing
  have hcurrent : s.update = some u ∨ s.update = none := by
    by_cases hu : s.update = some u
    · exact .inl hu
    · exact .inr (h.exiting (hrec.gone hu (.inr hphase)))
  obtain ⟨hupdates, hupdate, hexiting, hexited, l, htold, hl⟩ := runOnce_leaves
    ((s.setUpdate u fun update => { update with awaitsStalled := false }).clearUpdate u) 0
  refine h.leave (u := u) (fun k hk => ?_) (hupdates.trans (modify_twice ..))
    (fun up => ⟨rfl, rfl, rfl, fun hs => Bool.noConfusion hs⟩) (hupdate.trans ?_) hexiting hexited
    htold hl (fun old _ hold hno => ?_)
  · rcases hcurrent with hu | hu
    · exact (some.inj (hu.symm.trans hk)).symm
    · rw [hu] at hk
      cases hk
  · show (if s.update = some u then none else s.update) = none
    rcases hcurrent with hu | hu
    · rw [if_pos hu]
    · rw [hu]
      rfl
  · rw [hup] at hold
    cases hold
    rw [hanswered] at hno
    cases hno

/-- What an answer tells, of this plan alone. -/
structure Answers (told l : List Told) (u : Nat) : Prop where
  apart : ∀ t ∈ l, ∀ k, u ≠ k → t.apart k = true
  exits : ∀ t ∈ l, t.isExit = false
  answer : l.countP (Told.isAnswer u) = 1
  le : l.countP (Told.isOutcome u) ≤ 1
  outcome : .fatal ∉ told → l.countP (Told.isOutcome u) = 1
  install : .install u ∈ l → .answered u .install ∈ l
  relaunches : l.count (.relaunch u) ≤ 1
  relaunch : .relaunch u ∈ l → ∃ reason, .answered u (.exit true reason) ∈ l

theorem Inv.answer (h : Inv s) (hup : s.updates[u]? = some up) (hp : up.awaitsPrepare = true)
    (hupdates : s'.updates = s.updates.modify u f) (hf : (f up).answered = true)
    (hupdate : s'.update = s.update ∨ s'.update = none ∧ s.update = some u)
    (hexiting : s'.exiting = s.exiting) (hexited : s'.exited = s.exited)
    (htold : s'.told = s.told ++ l) (hl : Answers s.told l u) (hrec : Rec s' u (f up)) :
    Inv s' := by
  refine h.modify hupdates hupdate hexiting hexited htold hl.exits (fun old hold => ?_) fun k => ?_
  · rw [hup] at hold
    cases hold
    exact hrec
  · rw [htold]
    by_cases hk : k = u
    · subst hk
      have hnew : s'.answered k = true := by
        rw [State.answered, hupdates, getElem?_modify', if_pos rfl, hup]
        exact hf
      have hold : s.answered k = false := by
        rw [State.answered, hup]
        simp [Update.answered, hp]
      have htale := h.tales k
      rw [hold] at htale
      rw [hnew]
      exact htale.answer hl.answer hl.le hl.outcome hl.install hl.relaunches hl.relaunch
    · have hsame : s'.answered k = s.answered k := by
        rw [State.answered, State.answered, hupdates, getElem?_modify', if_neg (Ne.symm hk)]
      rw [hsame]
      exact (h.tales k).append fun t ht => hl.apart t ht k (Ne.symm hk)

theorem prepared_lost (hu : s.update ≠ some u) (p : Prepared) : s.prepared u p =
    { s with
      updates := s.updates.modify u fun up => { up with awaitsPrepare := false }
      told := s.told ++ [.answered u p] } := by
  simp [State.prepared, State.tell, State.setUpdate, hu]

theorem prepared_install (hu : s.update = some u) : s.prepared u .install =
    { s with
      updates := s.updates.modify u fun up =>
        { up with awaitsPrepare := false, phase := .installing, timer := true }
      inside := some u
      told := s.told ++ [.answered u .install, .install u] } := by
  simp [State.prepared, State.tell, State.setUpdate, hu, modify_twice]

def State.answer (s : State) (u : Nat) (l : List Told) : State :=
  { s with
    updates := s.updates.modify u fun up => { up with awaitsPrepare := false, timer := false }
    update := none
    told := s.told ++ l }

theorem prepared_abort (hu : s.update = some u) (reason : String) :
    s.prepared u (.abort reason) =
      s.answer u [.answered u (.abort reason), .aborted u reason] := by
  simp [State.prepared, State.tell, State.setUpdate, State.clearUpdate, State.answer, hu,
    modify_twice]

theorem prepared_exit (hu : s.update = some u) (relaunch : Bool) (reason : String) :
    s.prepared u (.exit relaunch reason) =
      (s.answer u (.answered u (.exit relaunch reason) ::
        (if relaunch then [.relaunch u, .exits u] else [.exits u]))).runOnce 0 := by
  cases relaunch <;>
    simp [State.prepared, State.tell, State.setUpdate, State.clearUpdate, State.answer, hu,
      modify_twice]

theorem prepared_threw (hu : s.update = some u) (reason : String) :
    s.prepared u (.threw reason) =
      (s.answer u [.answered u (.threw reason), .exits u]).runOnce 0 := by
  simp [State.prepared, State.tell, State.setUpdate, State.clearUpdate, State.answer, hu,
    modify_twice]

theorem Inv.prepared (h : Inv s) (hup : s.updates[u]? = some up) (hp : up.awaitsPrepare = true)
    (p : Prepared) : Inv (s.prepared u p) := by
  have hrec := h.recs u up hup
  have hphase := hrec.prepare hp
  have htimer : ¬up.timer = true := fun ht => by
    have hinstalling := (hrec.timer ht).1
    rw [hphase] at hinstalling
    cases hinstalling
  have hstalled : ¬up.awaitsStalled = true := fun hs => by
    have hstalling := hrec.stalled hs
    rw [hphase] at hstalling
    cases hstalling
  by_cases hu : s.update = some u
  · have hclear : ∀ l, Answers s.told l u → Inv (s.answer u l) := fun l hl => by
      refine h.answer hup hp rfl (by simp [Update.answered, hphase]) (.inr ⟨rfl, hu⟩) rfl rfl rfl hl
        ⟨fun hc => Bool.noConfusion hc, fun hc => Bool.noConfusion hc, fun hc => absurd hc hstalled,
          fun hc => (by cases hc), fun hc => (by cases hc), fun hc => (by cases hc),
          fun _ hno => ?_, fun _ hor => ?_⟩
      · simp [Update.answered, hphase] at hno
      · simp [hphase] at hor
    cases p with
    | install =>
      rw [prepared_install hu]
      refine h.answer (f := fun up =>
        { up with awaitsPrepare := false, phase := .installing, timer := true }) hup hp rfl rfl
        (.inl rfl) rfl rfl rfl ?_ ?_
      · constructor <;> simp [Told.apart, Told.isExit, Told.isAnswer, Told.isOutcome]
      · exact ⟨fun hc => Bool.noConfusion hc, fun _ => ⟨rfl, hu⟩, fun hc => absurd hc hstalled,
          fun _ hc => (by cases hc), fun _ _ => rfl, fun _ hc => (by cases hc),
          fun hc => absurd hu hc, fun hc => absurd hu hc⟩
    | abort reason =>
      rw [prepared_abort hu]
      refine hclear _ ?_
      constructor <;> simp [Told.apart, Told.isExit, Told.isAnswer, Told.isOutcome]
    | exit relaunch reason =>
      rw [prepared_exit hu]
      refine (hclear _ ?_).runOnce rfl
      cases relaunch <;>
        constructor <;> simp [Told.apart, Told.isExit, Told.isAnswer, Told.isOutcome]
    | threw reason =>
      rw [prepared_threw hu]
      refine (hclear _ ?_).runOnce rfl
      constructor <;> simp [Told.apart, Told.isExit, Told.isAnswer, Told.isOutcome]
  · have hfatal := hrec.lost hu (by simp [Update.answered, hp])
    rw [prepared_lost hu]
    refine h.answer hup hp rfl (by simp [Update.answered, hphase]) (.inl rfl) rfl rfl rfl ?_ ?_
    · constructor <;> simp [Told.apart, Told.isExit, Told.isAnswer, Told.isOutcome, hfatal]
    · exact ⟨fun hc => Bool.noConfusion hc, fun hc => absurd hc htimer,
        fun hc => absurd hc hstalled, fun hc => absurd hc hu, fun hc => absurd hc hu,
        fun hc => absurd hc hu, fun _ _ => mem_append_left _ hfatal,
        fun _ hor => by simp [hphase] at hor⟩

theorem Inv.installReturns (h : Inv s) (threw : Option String) :
    Inv (s.installReturns u threw) := by
  have hinside : Inv { s with inside := none } :=
    h.frame rfl rfl rfl rfl (append_nil _).symm (by simp)
  cases threw with
  | none => exact hinside
  | some reason => exact hinside.stall

theorem Inv.torndown (h : Inv s) (he : s.exiting = some code) (hno : s.exited = false) :
    Inv (s.torndown code) where
  __ := h
  exits := by
    have hzero := h.exits
    rw [hno] at hzero
    show (s.told ++ [Told.exit code]).countP Told.isExit = 1
    rw [countP_append, hzero]
    rfl
  exited _ := by
    show s.exiting.isSome = true
    rw [he]
    rfl
  recs k up hk := by
    have hrec := h.recs k up hk
    exact ⟨hrec.prepare, hrec.timer, hrec.stalled, hrec.armed, hrec.installing, hrec.stalling,
      fun hc hanswered => mem_append_left _ (hrec.lost hc hanswered), hrec.gone⟩
  tales k := (h.tales k).append (by simp [Told.apart])

theorem Inv.step {e : Event} (h : Inv s) (hs : s.step e = some s') : Inv s' := by
  cases e with
  | willQuit =>
    cases hs
    exact h.willQuit
  | armUpdate =>
    cases hs
    exact h.armUpdate
  | updateInstallFailed reason =>
    cases hs
    rw [State.updateInstallFailed]
    split
    · exact h.stall
    · exact h
  | fatal =>
    cases hs
    exact h.fatal
  | prepared u p =>
    simp only [State.step] at hs
    split at hs
    · next hcan =>
      cases hs
      obtain ⟨up, hup, hp⟩ := any_some hcan.2
      exact h.prepared hup hp p
    · cases hs
  | installReturns threw =>
    obtain ⟨u, -, rfl⟩ := map_eq_some_iff.mp hs
    exact h.installReturns threw
  | timer u =>
    simp only [State.step] at hs
    split at hs
    · next hcan =>
      cases hs
      obtain ⟨up, hup, ht⟩ := any_some hcan.2
      exact h.timer hup ht
    · cases hs
  | stalled u =>
    simp only [State.step] at hs
    split at hs
    · next hcan =>
      cases hs
      obtain ⟨up, hup, hst⟩ := any_some hcan.2
      exact h.stalled hup hst
    · cases hs
  | torndown =>
    simp only [State.step] at hs
    split at hs
    · next code he =>
      split at hs
      · next hcan =>
        cases hs
        exact h.torndown he hcan.2
      · cases hs
    · cases hs

theorem inv_of_reachable (h : machine.Reachable s) : Inv s :=
  h.invariant inv_start fun _ _ _ hinv hs => hinv.step hs

/-! ## An exit follows -/

/-- An exit is under way, or the current plan is past preparing. -/
def State.Past (s : State) : Prop :=
  s.exiting.isSome = true ∨ ∃ u up, s.update = some u ∧ s.updates[u]? = some up ∧
    (up.phase = .installing ∨ up.phase = .stalling)

def Update.weight (up : Update) : Nat := 2 * up.timer.toNat + up.awaitsStalled.toNat

def State.left (s : State) : Nat :=
  2 * s.inside.isSome.toNat + (s.updates.map Update.weight).sum

theorem weight_modify {l : List Update} (hup : l[u]? = some up) :
    ((l.modify u f).map Update.weight).sum + up.weight =
      (l.map Update.weight).sum + (f up).weight := by
  induction l generalizing u with
  | nil => cases hup
  | cons x l ih =>
    cases u with
    | zero =>
      cases hup
      simp only [modify_zero_cons, map_cons, sum_cons]
      omega
    | succ u =>
      have hrest := ih (u := u) hup
      simp only [modify_succ_cons, map_cons, sum_cons]
      omega

theorem left_stall (h : Inv s) : (s.stall u reason).left ≤ s.left + 1 ∧
    (∀ up, s.updates[u]? = some up → up.timer = true → (s.stall u reason).left < s.left) := by
  rw [State.stall]
  split
  · next hnone => exact ⟨Nat.le_succ _, fun up hup => by rw [hnone] at hup; cases hup⟩
  · next up hup =>
    split
    · next hphase =>
      have hnone : up.awaitsStalled = false := by
        cases hs : up.awaitsStalled with
        | false => rfl
        | true =>
          have hstalling := (h.recs u up hup).stalled hs
          rw [hphase] at hstalling
          cases hstalling
      have hsum := weight_modify (f := fun update =>
        { update with phase := .stalling, timer := false, awaitsStalled := true }) hup
      simp only [Update.weight, hnone, Bool.toNat_false, Bool.toNat_true] at hsum
      simp only [State.left, State.tell, State.setUpdate]
      refine ⟨by omega, fun up' hup' ht => ?_⟩
      rw [hup] at hup'
      cases hup'
      rw [ht, Bool.toNat_true] at hsum
      omega
    · next hphase =>
      refine ⟨Nat.le_succ _, fun up' hup' ht => ?_⟩
      rw [hup] at hup'
      cases hup'
      exact absurd ((h.recs u up hup).timer ht).1 hphase

theorem past_stall (h : s.Past) : (s.stall u reason).Past := by
  rw [State.stall]
  split
  · exact h
  · next up hup =>
    split
    · rcases h with hsome | ⟨k, old, hcur, hold, hphase⟩
      · exact .inl hsome
      · refine .inr ⟨k, ?_⟩
        by_cases huk : u = k
        · subst huk
          refine ⟨{ up with phase := .stalling, timer := false, awaitsStalled := true }, hcur, ?_,
            .inr rfl⟩
          show (s.updates.modify u _)[u]? = _
          rw [getElem?_modify', if_pos rfl, hup]
          rfl
        · refine ⟨old, hcur, ?_, hphase⟩
          show (s.updates.modify u _)[k]? = _
          rw [getElem?_modify', if_neg huk, hold]
    · exact h

theorem Inv.inner_enabled (h : Inv s) (hpast : s.Past) :
    Exited s ∨ ∃ e s', Inner e ∧ machine.next s e = some s' := by
  cases hin : s.inside with
  | some v =>
    refine .inr ⟨.installReturns none, s.installReturns v none, trivial, ?_⟩
    show (s.inside.map fun u => s.installReturns u none) = _
    rw [hin]
    rfl
  | none =>
    rcases hpast with hsome | ⟨u, up, hcur, hup, hphase⟩
    · obtain ⟨code, hcode⟩ := isSome_iff_exists.mp hsome
      cases hexited : s.exited with
      | true =>
        have hone := h.exits
        rw [hexited, if_pos rfl] at hone
        have hpos : 0 < s.told.countP Told.isExit := by omega
        exact .inl (countP_pos_iff.mp hpos)
      | false =>
        refine .inr ⟨.torndown, s.torndown code, trivial, ?_⟩
        show s.step .torndown = _
        simp only [State.step, hcode, hin, hexited]
        rfl
    · have hrec := h.recs u up hup
      rcases hphase with hinstalling | hstalling
      · have ht := hrec.installing hcur hinstalling
        refine .inr ⟨.timer u, s.timer u, trivial, ?_⟩
        show s.step (.timer u) = _
        simp only [State.step, hup, hin, Option.any_some, ht]
        rfl
      · have hst := hrec.stalling hcur hstalling
        refine .inr ⟨.stalled u, s.stalled u, trivial, ?_⟩
        show s.step (.stalled u) = _
        simp only [State.step, hup, hin, Option.any_some, hst]
        rfl

theorem left_inside (hin : s.inside.isSome = true) :
    ({ s with inside := none } : State).left + 2 = s.left := by
  simp only [State.left, hin, isSome_none, Bool.toNat_true, Bool.toNat_false]
  omega

theorem left_runOnce (s : State) (code : Nat) : (s.runOnce code).left = s.left := by
  rw [State.runOnce]
  split <;> rfl

theorem left_stalled (hup : s.updates[u]? = some up) (hs : up.awaitsStalled = true) :
    (s.stalled u).left < s.left := by
  have hsum := weight_modify (f := fun update =>
    { update with awaitsStalled := false, timer := false }) hup
  simp only [Update.weight, hs, Bool.toNat_false, Bool.toNat_true] at hsum
  rw [State.stalled, left_runOnce]
  simp only [State.left, State.clearUpdate, State.setUpdate, modify_twice]
  omega

theorem Inv.exit_follows (h : Inv s) (hpast : s.Past) : ExitFollows s := by
  refine Machine.Inevitable.of_measure (P := fun s => Inv s ∧ s.Past) State.left
    (fun s hs => hs.1.inner_enabled hs.2) (fun s e s' hs he hstep => ?_) ⟨h, hpast⟩
  obtain ⟨hinv, hpast⟩ := hs
  have hinv' : Inv s' := hinv.step hstep
  cases e with
  | installReturns threw =>
    obtain ⟨u, hin, rfl⟩ := map_eq_some_iff.mp hstep
    have hless := left_inside (s := s) (by rw [hin]; rfl)
    refine .inr ⟨⟨hinv', ?_⟩, ?_⟩
    · cases threw with
      | none => exact hpast
      | some reason => exact past_stall (s := { s with inside := none }) hpast
    · cases threw with
      | none =>
        show ({ s with inside := none } : State).left < s.left
        omega
      | some reason =>
        have hinside : Inv { s with inside := none } :=
          hinv.frame rfl rfl rfl rfl (append_nil _).symm (by simp)
        have hstall : (State.stall { s with inside := none } u reason).left ≤
            ({ s with inside := none } : State).left + 1 := (left_stall hinside).1
        show (State.stall { s with inside := none } u reason).left < s.left
        omega
  | timer u =>
    change s.step (.timer u) = some s' at hstep
    simp only [State.step] at hstep
    split at hstep
    · next hcan =>
      cases hstep
      obtain ⟨up, hup, ht⟩ := any_some hcan.2
      rw [hinv.timer_eq hup ht] at hinv' ⊢
      exact .inr ⟨⟨hinv', past_stall hpast⟩, (left_stall hinv).2 up hup ht⟩
    · cases hstep
  | stalled u =>
    change s.step (.stalled u) = some s' at hstep
    simp only [State.step] at hstep
    split at hstep
    · next hcan =>
      cases hstep
      obtain ⟨up, hup, hs⟩ := any_some hcan.2
      exact .inr ⟨⟨hinv', .inl (runOnce_leaves _ 0).2.2.1⟩, left_stalled hup hs⟩
    · cases hstep
  | torndown =>
    change s.step .torndown = some s' at hstep
    simp only [State.step] at hstep
    split at hstep
    · next code _ =>
      split at hstep
      · cases hstep
        exact .inl ⟨.exit code, by simp [State.torndown, State.tell], rfl⟩
      · cases hstep
    · cases hstep
  | _ => cases he

theorem Inv.free (h : Inv s) (hu : s.update = none) (he : s.exiting = none) : Free s where
  quit s' hs := by
    change some s.willQuit = some s' at hs
    cases hs
    have heq : s.willQuit = s.runOnce 0 := by rw [State.willQuit, hu]
    refine h.willQuit.exit_follows (.inl ?_)
    rw [heq]
    exact (runOnce_leaves s 0).2.2.1
  arm s' hs := by
    change some s.armUpdate = some s' at hs
    cases hs
    have harm : s.armUpdate =
        { s with updates := s.updates ++ [.fresh], update := some s.updates.length } := by
      simp [State.armUpdate, State.mayArm, hu, he]
    rw [harm]
    refine ⟨s.updates.length, rfl, fun s'' hs => ?_⟩
    change some (State.willQuit _) = some s'' at hs
    cases hs
    simp [State.willQuit, State.quitUpdate, State.tell, State.setUpdate, he, Update.fresh]

theorem Inv.aborted (h : Inv s) (hu : s.update = some u)
    (hs : machine.next s (.prepared u (.abort reason)) = some s') : Free s' := by
  change s.step (.prepared u (.abort reason)) = some s' at hs
  have hinv := h.step hs
  simp only [State.step] at hs
  split at hs
  · cases hs
    rw [prepared_abort hu] at hinv ⊢
    exact hinv.free rfl (h.exiting_none hu)
  · cases hs

theorem Tale.answers_le (h : Tale told u answered) : told.countP (Told.isAnswer u) ≤ 1 := by
  rw [h.answers]
  split <;> omega

theorem Tale.install_le (h : Tale told u answered) : told.count (.install u) ≤ 1 := by
  have hle : told.count (.install u) ≤ told.countP (Told.isOutcome u) :=
    countP_mono_left fun t _ ht => by
      rw [beq_iff_eq.mp ht]
      exact beq_self_eq_true u
  exact Nat.le_trans hle (Nat.le_trans h.outcomes h.answers_le)

theorem quits_once (s : State) (hr : machine.Reachable s) : Once s := by
  have h := inv_of_reachable hr
  constructor
  · rw [h.exits]
    split <;> omega
  · exact fun u => ⟨(h.tales u).install_le, (h.tales u).install⟩
  · exact fun u =>
      ⟨Nat.le_trans (h.tales u).relaunches (h.tales u).answers_le, (h.tales u).relaunch⟩
  · intro u
    have htale := h.tales u
    refine ⟨Nat.le_trans htale.outcomes htale.answers_le, fun hfatal p hin => ?_⟩
    have hpos : 0 < s.told.countP (Told.isAnswer u) :=
      List.countP_pos_iff.mpr ⟨.answered u p, hin, beq_self_eq_true u⟩
    have hle := htale.answers_le
    rw [htale.outcome hfatal]
    omega
  · exact h.free
  · exact fun u up hu hup hphase => h.exit_follows (.inr ⟨u, up, hu, hup, hphase⟩)
  · exact fun hsome => h.exit_follows (.inl hsome)
  · exact fun u reason s' hu hs => h.aborted hu hs

/-- A plan aborts, and the install of the next quits the app before it throws. -/
theorem quits_once_late : ∃ s, Once s ∧ .exit 0 ∈ s.told ∧ .aborted 0 "busy" ∈ s.told := by
  obtain ⟨s, hreach, hp⟩ := Machine.exists_of_run (M := machine)
    (fun s => decide (.exit 0 ∈ s.told) && decide (.aborted 0 "busy" ∈ s.told))
    [.armUpdate, .willQuit, .prepared 0 (.abort "busy"), .armUpdate, .willQuit,
      .prepared 1 .install, .willQuit, .installReturns (some "late"), .torndown] (by decide)
  rw [Bool.and_eq_true, decide_eq_true_eq, decide_eq_true_eq] at hp
  exact ⟨s, quits_once s hreach, hp⟩

end VibeField.Updates.QuitFlow
