import VibeField.Native.PullFiles

/-!
# What is sent of the pulls, and what is swept

A pull that has a row has no end yet, and one that has none has one.  No sweep at work is about to
remove what a pull with a row wrote, where each was listed before it wrote.
-/

namespace VibeField.Native.FileTransfer

open List

variable {Root : Type} {s s' : State Root} {p q n : Nat} {u u' v : Pull Root} {r : Running Root}
  {d : Detach} {o : Sent Root}

/-! ## Ends -/

def Rowed (s : State Root) (p : Nat) : Prop := ∃ u r, Own s p u r

structure Told (s : State Root) : Prop where
  live : ∀ p, Rowed s p → s.sent.countP (Sent.ends p) = 0
  gone : ∀ p, p < s.pulls.length → ¬Rowed s p → s.sent.countP (Sent.ends p) = 1
  known : ∀ o ∈ s.sent, ∀ p, o.ends p = true ∨ o = .accepted p → p < s.pulls.length
  order : ∀ before o after, s.sent = before ++ o :: after → s.Fits before o

theorem Rowed.lt (h : Rowed s p) : p < s.pulls.length := by
  obtain ⟨u, r, ho⟩ := h
  exact (List.getElem?_eq_some_iff.mp ho.pull).1

theorem countP_ends_snoc (hsent : s'.sent = s.sent ++ [o]) :
    s'.sent.countP (Sent.ends p) = s.sent.countP (Sent.ends p) + if o.ends p then 1 else 0 := by
  rw [hsent, countP_append, countP_singleton]

theorem State.Fits.later {before : List (Sent Root)} (h : s.Fits before o)
    (hbefore : ∀ p, Sent.accepted p ∈ before → p < s.pulls.length)
    (hpulls : ∀ (p : Nat) (u' : Pull Root), p < s.pulls.length → s'.pulls[p]? = some u' →
      ∃ u : Pull Root, s.pulls[p]? = some u ∧ u'.params = u.params) : s'.Fits before o := by
  cases o with
  | progress q _ _ _ => exact h
  | snapshot rows =>
    intro p u' hu' haccepted hends
    obtain ⟨u, hu, hparams⟩ := hpulls p u' (hbefore p haccepted) hu'
    rw [hparams]
    exact h p u hu haccepted hends
  | accepted q => trivial
  | completed q _ _ _ _ _ => trivial
  | failed q _ _ _ => trivial

theorem Told.congr (h : Told s) (hsent : s'.sent = s.sent)
    (hlen : s'.pulls.length = s.pulls.length)
    (hpulls : ∀ (p : Nat) (u' : Pull Root), p < s.pulls.length → s'.pulls[p]? = some u' →
      ∃ u : Pull Root, s.pulls[p]? = some u ∧ u'.params = u.params)
    (hrowed : ∀ p, Rowed s' p ↔ Rowed s p) : Told s' := by
  refine ⟨fun p hp => ?_, fun p hp hno => ?_, fun o ho p hp => ?_, fun before o after heq => ?_⟩
  · rw [hsent]
    exact h.live p ((hrowed p).mp hp)
  · rw [hsent]
    exact h.gone p (hlen ▸ hp) fun hr => hno ((hrowed p).mpr hr)
  · rw [hlen]
    exact h.known o (hsent ▸ ho) p hp
  · rw [hsent] at heq
    refine (h.order before o after heq).later (fun p hp => ?_) hpulls
    exact h.known _ (heq ▸ mem_append_left _ hp) p (.inr rfl)

theorem Told.snoc (h : Told s) (hsent : s'.sent = s.sent ++ [o])
    (hlen : s.pulls.length ≤ s'.pulls.length)
    (hpulls : ∀ (p : Nat) (u' : Pull Root), p < s.pulls.length → s'.pulls[p]? = some u' →
      ∃ u : Pull Root, s.pulls[p]? = some u ∧ u'.params = u.params)
    (hrowed : ∀ p, p < s.pulls.length → (Rowed s' p ↔ Rowed s p ∧ o.ends p = false))
    (hnew : ∀ p, s.pulls.length ≤ p → p < s'.pulls.length → Rowed s' p)
    (hends : ∀ p, o.ends p = true → Rowed s p)
    (haccepted : ∀ p, o = .accepted p → p < s'.pulls.length)
    (hfits : s'.Fits s.sent o) : Told s' := by
  have hnone : ∀ p, s.pulls.length ≤ p → s.sent.countP (Sent.ends p) = 0 := by
    intro p hp
    refine countP_eq_zero.mpr fun o ho hends => ?_
    exact absurd (h.known o ho p (.inl hends)) (Nat.not_lt_of_le hp)
  refine ⟨fun p hp => ?_, fun p hp hno => ?_, fun o' ho p hp => ?_, fun before o' after heq => ?_⟩
  · rw [countP_ends_snoc hsent]
    rcases Nat.lt_or_ge p s.pulls.length with hlt | hge
    · obtain ⟨hr, he⟩ := (hrowed p hlt).mp hp
      rw [h.live p hr, he]
      rfl
    · rw [hnone p hge, if_neg]
      intro he
      exact absurd (hends p he).lt (Nat.not_lt_of_le hge)
  · rcases Nat.lt_or_ge p s.pulls.length with hlt | hge
    · rw [countP_ends_snoc hsent]
      cases he : o.ends p with
      | true =>
        rw [h.live p (hends p he)]
        rfl
      | false =>
        rw [h.gone p hlt fun hr => hno ((hrowed p hlt).mpr ⟨hr, he⟩)]
        rfl
    · exact absurd (hnew p hge hp) hno
  · rw [hsent] at ho
    rcases mem_snoc.mp ho with ho | ho
    · exact Nat.lt_of_lt_of_le (h.known o' ho p hp) hlen
    · rw [ho] at hp
      rcases hp with hp | hp
      · exact Nat.lt_of_lt_of_le (hends p hp).lt hlen
      · exact haccepted p hp
  · rw [hsent] at heq
    rcases append_eq_append_iff.mp heq with ⟨l, hl, hr⟩ | ⟨l, hl, hr⟩
    · -- what was sent before is all of `before`
      cases l with
      | nil =>
        rw [append_nil] at hl
        rw [nil_append] at hr
        cases hr
        rw [hl]
        exact hfits
      | cons x l =>
        rw [cons_append] at hr
        have hlen' := congrArg List.length hr
        simp at hlen'
    · cases l with
      | nil =>
        rw [append_nil] at hl
        rw [nil_append] at hr
        cases hr
        rw [← hl]
        exact hfits
      | cons x l =>
        rw [cons_append] at hr
        obtain ⟨rfl, -⟩ := List.cons.inj hr
        refine (h.order before o' l hl).later (fun p hp => ?_) hpulls
        exact h.known _ (hl ▸ mem_append_left _ hp) p (.inr rfl)

/-! ## Sweeps -/

structure Swept (s : State Root) : Prop where
  temp : ∀ (p : Nat) (u : Pull Root), s.pulls[p]? = some u → ∀ name ∈ u.temps,
    isTempOf name u.landed = true
  spared : ∀ (p : Nat) (u : Pull Root) (r : Running Root), Own s p u r → ∀ name ∈ u.temps,
    Unswept s u name
  removes : ∀ root name, s.sweeps.Outstanding (.remove root name) →
    tempSuffix.isSuffixOf name = true

theorem Swept.congr (h : Swept s) (hsweeps : s'.sweeps = s.sweeps)
    (hpulls : ∀ (p : Nat) (v : Pull Root), s'.pulls[p]? = some v → v.temps = [] ∨
      ∃ w : Pull Root, s.pulls[p]? = some w ∧ v.params = w.params ∧ v.temps = w.temps ∧
        (Rowed s' p → Rowed s p)) : Swept s' := by
  refine ⟨fun p v hv name hname => ?_, fun p v r ho name hname => ?_, fun root name hout => ?_⟩
  · rcases hpulls p v hv with hnil | ⟨w, hw, hparams, htemps, -⟩
    · rw [hnil] at hname
      cases hname
    · rw [Pull.landed, hparams]
      exact h.temp p w hw name (htemps ▸ hname)
  · rcases hpulls p v ho.pull with hnil | ⟨w, hw, hparams, htemps, hrowed⟩
    · rw [hnil] at hname
      cases hname
    · obtain ⟨w', r', ho'⟩ := hrowed ⟨v, r, ho⟩
      cases ho'.eq_pull hw
      rw [Unswept, hsweeps, Pull.landed, hparams]
      exact h.spared p w r' ho' name (htemps ▸ hname)
  · exact h.removes root name (hsweeps ▸ hout)

theorem Swept.write (h : Swept s) (hm : Mod s s' p u u') (ht : s'.table = s.table)
    (hsweeps : s'.sweeps = s.sweeps) {name : FileName} (htemps : u'.temps = name :: u.temps)
    (hname : isTempOf name u.landed = true) (hun : Unswept s u name) : Swept s' := by
  have hlanded : u'.landed = u.landed := by rw [Pull.landed, hm.params, Pull.landed]
  refine ⟨fun q v hv other hother => ?_, fun q v r ho other hother => ?_, fun root other hout => ?_⟩
  · rcases hm.cases hv with ⟨rfl, rfl⟩ | ⟨-, hv⟩
    · rw [hlanded]
      rw [htemps] at hother
      rcases mem_cons.mp hother with rfl | hother
      · exact hname
      · exact h.temp q u hm.old other hother
    · exact h.temp q v hv other hother
  · rw [Unswept, hsweeps]
    rcases (hm.own_iff ht).mp ho with ⟨rfl, rfl, ho⟩ | ⟨-, ho⟩
    · rw [hlanded, hm.params]
      rw [htemps] at hother
      rcases mem_cons.mp hother with rfl | hother
      · exact hun
      · exact h.spared q u r ho other hother
    · exact h.spared q v r ho other hother
  · exact h.removes root other (hsweeps ▸ hout)

theorem Swept.sweep (h : Swept s) (ht : Tabled s) (root : Root) : Swept (s.sweep root) := by
  have hout : ∀ i, (s.sweep root).sweeps.Outstanding i ↔ s.sweeps.Outstanding i ∨
      i = .read root (s.table.values.map Running.landed) := fun i => by
    rw [State.sweep, Tasks.outstanding_spawn, mem_singleton]
  refine ⟨h.temp, fun p u r ho name hname => ?_, fun root' name hremove => ?_⟩
  · have ho' : Own s p u r := ho.congr rfl rfl
    obtain ⟨hread, hremove⟩ := h.spared p u r ho' name hname
    refine ⟨fun running hr => ?_, fun hr => ?_⟩
    · rcases (hout _).mp hr with hr | hr
      · exact hread running hr
      · cases hr
        rw [← ht.landed ho']
        exact mem_map_of_mem (Dict.mem_values.mpr ⟨_, ho'.row⟩)
    · rcases (hout _).mp hr with hr | hr
      · exact hremove hr
      · cases hr
  · rcases (hout _).mp hremove with hr | hr
    · exact h.removes root' name hr
    · cases hr

theorem Swept.goOn (h : Swept s) {i : Sweep Root} {front : List (Sweep Root)}
    (hhead : s.sweeps.head n = some i) (hpulls : s'.pulls = s.pulls) (ht : s'.table = s.table)
    (hsweeps : s'.sweeps = s.sweeps.advance n front [])
    (hfront : ∀ j ∈ front, ∃ root name, j = .remove root name ∧
      tempSuffix.isSuffixOf name = true ∧ ∀ p u r, Own s p u r → u.params.root = root →
        name ∉ u.temps) : Swept s' := by
  have hout : ∀ j, s'.sweeps.Outstanding j → s.sweeps.Outstanding j ∨ j ∈ front := by
    intro j hj
    rw [hsweeps] at hj
    rcases Tasks.outstanding_advance hhead hj with hj | hj | hj
    · exact .inl hj
    · exact .inr hj
    · cases hj
  refine ⟨?_, fun p u r ho name hname => ?_, fun root name hremove => ?_⟩
  · rw [hpulls]
    exact h.temp
  · have ho' : Own s p u r := ho.congr hpulls.symm ht.symm
    obtain ⟨hread, hremove⟩ := h.spared p u r ho' name hname
    refine ⟨fun running hr => ?_, fun hr => ?_⟩
    · rcases hout _ hr with hr | hr
      · exact hread running hr
      · obtain ⟨_, _, he, -⟩ := hfront _ hr
        cases he
    · rcases hout _ hr with hr | hr
      · exact hremove hr
      · obtain ⟨_, _, he, -, hno⟩ := hfront _ hr
        cases he
        exact hno p u r ho' rfl hname
  · rcases hout _ hremove with hr | hr
    · exact h.removes root name hr
    · obtain ⟨_, _, he, hsuffix, -⟩ := hfront _ hr
      cases he
      exact hsuffix

section Sweeps

variable [DecidableEq Root] {root : Root}

theorem mem_removals {running : List FileName} {done : Bool} {i : Sweep Root}
    (h : i ∈ s.removals root running done) : ∃ name, i = .remove root name ∧
      (root, name) ∈ s.files ∧ tempSuffix.isSuffixOf name = true ∧
      ∀ landed ∈ running, isTempOf name landed = false := by
  rw [State.removals] at h
  split at h
  · obtain ⟨name, hname, rfl⟩ := mem_map.mp h
    obtain ⟨⟨root', name'⟩, hmem, rfl⟩ := mem_map.mp hname
    obtain ⟨hfile, hkeep⟩ := mem_filter.mp hmem
    simp only [Bool.and_eq_true, decide_eq_true_eq, Bool.not_eq_true', any_eq_false] at hkeep
    obtain ⟨⟨rfl, hsuffix⟩, hnone⟩ := hkeep
    exact ⟨name', rfl, hfile, hsuffix, fun landed hl => Bool.eq_false_iff.mpr (hnone landed hl)⟩
  · cases h

theorem Swept.sweepOn (h : Swept s) {i : Sweep Root} (hhead : s.sweeps.head n = some i)
    (done : Bool) : Swept (s.sweepOn n done i) := by
  cases i with
  | remove root name => exact h.goOn hhead rfl rfl rfl fun j hj => by cases hj
  | read root running =>
    refine h.goOn hhead rfl rfl rfl fun j hj => ?_
    obtain ⟨name, rfl, -, hsuffix, hnone⟩ := mem_removals hj
    refine ⟨root, name, rfl, hsuffix, fun p u r ho hroot hname => ?_⟩
    subst hroot
    have hin := (h.spared p u r ho name hname).1 running (Tasks.outstanding_head hhead)
    have htemp := h.temp p u ho.pull name hname
    rw [hnone _ hin] at htemp
    cases htemp

end Sweeps

end VibeField.Native.FileTransfer
