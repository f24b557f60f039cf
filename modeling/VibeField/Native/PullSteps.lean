import VibeField.Native.PullsTold

/-!
# What tasks and teardowns do

Each step of a pull's task and of a teardown keeps the table, the tasks, the files, what was sent
and what is swept.
-/

namespace VibeField.Native.FileTransfer

open List

structure Inv {Root : Type} (s : State Root) : Prop where
  tabled : Tabled s
  worked : Worked s
  filed : Filed s
  swept : Swept s
  told : Told s

section Same

variable {Root : Type} {s s' : State Root} {p q n : Nat} {u u' v : Pull Root} {r : Running Root}
  {d : Detach}

/-! ## What stays where little changes -/

/-- The same pulls have rows, taken or not as they were. -/
structure SameRows (s s' : State Root) : Prop where
  pulls : s'.pulls = s.pulls
  forth : ∀ {p u r}, Own s p u r → ∃ r', Own s' p u r' ∧ r'.taken = r.taken
  back : ∀ {p u r'}, Own s' p u r' → ∃ r, Own s p u r ∧ r'.taken = r.taken

theorem sameRows_of_eq (hpulls : s'.pulls = s.pulls) (ht : s'.table = s.table) :
    SameRows s s' where
  pulls := hpulls
  forth := fun {_ _ r} ho => ⟨r, ho.congr hpulls ht, rfl⟩
  back := fun {_ _ r} ho => ⟨r, ho.congr hpulls.symm ht.symm, rfl⟩

theorem SameRows.rowed (h : SameRows s s') : Rowed s' p ↔ Rowed s p := by
  constructor
  · rintro ⟨u, r, ho⟩
    obtain ⟨r', ho', -⟩ := h.back ho
    exact ⟨u, r', ho'⟩
  · rintro ⟨u, r, ho⟩
    obtain ⟨r', ho', -⟩ := h.forth ho
    exact ⟨u, r', ho'⟩

theorem Worked.same (h : Worked s) (hr : SameRows s s') (hd : s'.detaches = s.detaches) :
    Worked s' := by
  refine ⟨fun q v hv => ?_, fun q v r' ho' htaken => ?_, fun q v r' ho' htaken => ?_, ?_, ?_⟩
  · rw [hr.pulls] at hv
    refine (h.idle q v hv).imp id fun ⟨r, ho⟩ => ?_
    obtain ⟨r', ho', -⟩ := hr.forth ho
    exact ⟨r', ho'⟩
  · obtain ⟨r, ho, he⟩ := hr.back ho'
    exact h.free q v r ho (he ▸ htaken)
  · obtain ⟨r, ho, he⟩ := hr.back ho'
    rw [hd]
    exact h.held q v r ho (he ▸ htaken)
  · rw [hd]
    intro d hmem
    have htear := h.tearing d hmem
    refine ⟨fun q hq => ?_, htear.aborts, htear.joins, htear.clears, ?_⟩
    · obtain ⟨v, r, ho, htaken⟩ := htear.ended q hq
      obtain ⟨r', ho', he⟩ := hr.forth ho
      exact ⟨v, r', ho', he.trans htaken⟩
    · rw [hr.pulls]
      exact htear.joined
  · rw [hd]
    exact h.one

theorem Filed.same (h : Filed s) (hr : SameRows s s') (hd : s'.detaches = s.detaches)
    (hf : s'.files = s.files) (hc : ∀ q, Completed s' q ↔ Completed s q) : Filed s' := by
  refine ⟨fun q v hv hs => ?_, fun q v hv hq => ?_, fun q v hv hq => ?_, fun q v hv hq => ?_,
    fun q v hv hq q' v' r' ho => ?_⟩ <;> rw [hr.pulls] at hv
  · rw [hf]
    exact h.placed q v hv hs
  · rw [Unlanded, hd] at hq
    rw [hf]
    exact h.unlanded q v hv hq
  · rw [Untemped, hd] at hq
    rw [NoTemps, hf]
    exact h.untemped q v hv hq
  · rw [hf]
    exact h.completed q v hv ((hc q).mp hq)
  · obtain ⟨r, ho', -⟩ := hr.back ho
    exact h.apart q v hv ((hc q).mp hq) q' v' r ho'

theorem Swept.same (h : Swept s) (hr : SameRows s s') (hsweeps : s'.sweeps = s.sweeps) :
    Swept s' := by
  refine h.congr hsweeps fun q v hv => .inr ⟨v, ?_, rfl, rfl, hr.rowed.mp⟩
  rw [← hr.pulls]
  exact hv

theorem Told.same (h : Told s) (hr : SameRows s s') (hsent : s'.sent = s.sent) : Told s' :=
  h.congr hsent (by rw [hr.pulls]) (fun _ u' _ hu => ⟨u', hr.pulls ▸ hu, rfl⟩) fun _ => hr.rowed

theorem Told.say (h : Told s) (hr : SameRows s s') {o : Sent Root}
    (hsent : s'.sent = s.sent ++ [o]) (hends : ∀ q, o.ends q = false)
    (haccepted : ∀ q, o ≠ .accepted q) (hfits : s.Fits s.sent o) : Told s' := by
  have hlen : s'.pulls.length = s.pulls.length := by rw [hr.pulls]
  have hpulls : ∀ (q : Nat) (v : Pull Root), q < s.pulls.length → s'.pulls[q]? = some v →
      ∃ w : Pull Root, s.pulls[q]? = some w ∧ v.params = w.params := fun _ v _ hv =>
    ⟨v, hr.pulls ▸ hv, rfl⟩
  refine h.snoc hsent (Nat.le_of_eq hlen.symm) hpulls (fun q _ => ?_) (fun q hge hlt => ?_)
    (fun q hq => ?_) (fun q hq => absurd hq (haccepted q)) (hfits.later (fun q hq => ?_) hpulls)
  · rw [hr.rowed, hends]
    exact (and_iff_left rfl).symm
  · rw [hlen] at hlt
    exact absurd hlt (Nat.not_lt_of_le hge)
  · rw [hends] at hq
    cases hq
  · exact h.known _ hq q (.inr rfl)

theorem completed_congr (hsent : s'.sent = s.sent) : Completed s' p ↔ Completed s p := by
  rw [Completed, Completed, hsent]

/-! ## A task moves -/

theorem Mod.rowed (hm : Mod s s' p u u') (ht : s'.table = s.table) : Rowed s' q ↔ Rowed s q := by
  constructor
  · rintro ⟨v, r, ho⟩
    rcases (hm.own_iff ht).mp ho with ⟨rfl, -, ho⟩ | ⟨-, ho⟩
    · exact ⟨u, r, ho⟩
    · exact ⟨v, r, ho⟩
  · rintro ⟨v, r, ho⟩
    by_cases hq : q = p
    · subst hq
      cases ho.eq_pull hm.old
      exact ⟨u', r, (hm.own_iff ht).mpr (.inl ⟨rfl, rfl, ho⟩)⟩
    · exact ⟨v, r, (hm.own_iff ht).mpr (.inr ⟨hq, ho⟩)⟩

theorem Mod.back (hm : Mod s s' p u u') : ∀ (q : Nat) (v : Pull Root), q < s.pulls.length →
    s'.pulls[q]? = some v → ∃ w : Pull Root, s.pulls[q]? = some w ∧ v.params = w.params := by
  intro q v _ hv
  rcases hm.cases hv with ⟨rfl, rfl⟩ | ⟨-, hv⟩
  · exact ⟨u, hm.old, hm.params⟩
  · exact ⟨v, hv, rfl⟩

/-- A pull's own record is written over, and nothing else. -/
structure Alone (s s' : State Root) (p : Nat) (u u' : Pull Root) : Prop extends
    Mod s s' p u u', SameFiles s s' where
  length : s'.pulls.length = s.pulls.length
  table : s'.table = s.table
  digests : s'.digests = s.digests
  detaches : s'.detaches = s.detaches
  sweeps : s'.sweeps = s.sweeps

theorem Alone.tabled (ha : Alone s s' p u u') (h : Tabled s) : Tabled s' :=
  h.congr ha.toMod.keeps (fun _ => by rw [ha.table]) ha.digests (by rw [ha.table])

theorem Alone.told (ha : Alone s s' p u u') (h : Told s) : Told s' :=
  h.congr ha.sent ha.length ha.toMod.back fun _ => ha.toMod.rowed ha.table

theorem Alone.swept (ha : Alone s s' p u u') (h : Swept s) (htemps : u'.temps = u.temps) :
    Swept s' := by
  refine h.congr ha.sweeps fun q v hv => .inr ?_
  rcases ha.toMod.cases hv with ⟨rfl, rfl⟩ | ⟨-, hv⟩
  · exact ⟨u, ha.old, ha.params, htemps, (ha.toMod.rowed ha.table).mp⟩
  · exact ⟨v, hv, rfl, rfl, (ha.toMod.rowed ha.table).mp⟩

theorem alone_modify {f : Pull Root → Pull Root} (hu : s.pulls[p]? = some u)
    (hs : s' = { s with pulls := s.pulls.modify p f }) (hf : (f u).params = u.params) :
    Alone s s' p u (f u) := by
  subst hs
  exact ⟨mod_modify hu rfl hf, ⟨rfl, rfl⟩, length_modify .., rfl, rfl, rfl, rfl⟩

theorem Inv.setStage (h : Inv s) (hu : s.pulls[p]? = some u) {stage : Stage}
    (hne : u.stage ≠ .done) (hdone : stage = .done → ∀ r, Own s p u r → r.taken = true)
    (hplaced : stage.succeeds = true → u.file ∈ s.files)
    (hland : stage.unlanded = true → u.file ∉ s.files)
    (htemps : stage.untemped = true → NoTemps s u) : Inv (s.setStage p stage) := by
  have ha : Alone s (s.setStage p stage) p u { u with stage := stage } :=
    alone_modify hu rfl rfl
  exact ⟨ha.tabled h.tabled,
    h.worked.mod ha.toMod ha.table ha.detaches (.inr ⟨hne, hdone⟩) (.inl rfl),
    h.filed.mod ha.toMod ha.table ha.detaches ha.toSameFiles hplaced hland htemps,
    ha.swept h.swept rfl, ha.told h.told⟩

theorem Inv.refile (h : Inv s) (hf : Refiled s s') (hdigests : s'.digests = s.digests)
    (hsweeps : s'.sweeps = s.sweeps) (hfiled : Filed s') : Inv s' := by
  have hr := sameRows_of_eq hf.pulls hf.table
  exact ⟨h.tabled.congr (.refl hf.pulls) (fun _ => by rw [hf.table]) hdigests (by rw [hf.table]),
    h.worked.same hr hf.detaches, hfiled, h.swept.same hr hsweeps, h.told.same hr hf.sent⟩

end Same

/-! ## What a task does -/

section Task

variable {Root : Type} {s s' : State Root} {p n : Nat} {u : Pull Root} {r : Running Root}

theorem Inv.own (h : Inv s) (hu : s.pulls[p]? = some u) (hne : u.stage ≠ .done) :
    ∃ r, Own s p u r := (h.worked.idle p u hu).resolve_left hne

theorem Inv.drop (h : Inv s) (hu : s.pulls[p]? = some u) (hne : u.stage ≠ .done)
    (haborted : u.aborted = true) : Inv (s.setStage p .done) := by
  refine h.setStage hu hne (fun _ r ho => ?_) (by rintro ⟨⟩) (by rintro ⟨⟩) (by rintro ⟨⟩)
  cases htaken : r.taken with
  | true => rfl
  | false =>
    have hno := (h.worked.free p u r ho htaken).2
    rw [haborted] at hno
    cases hno

theorem isTempOf_written (landed : FileName) {token : List Char} (ht : token ≠ []) :
    isTempOf (landed ++ '.' :: (token ++ tempSuffix)) landed = true :=
  isTempOf_iff.mpr ⟨token, ht, rfl⟩

theorem Inv.write (h : Inv s) (hu : s.pulls[p]? = some u) (hstage : u.stage = .pulling)
    {token : List Char} (ht : token ≠ [])
    (hun : Unswept s u (u.landed ++ '.' :: (token ++ tempSuffix))) : Inv (s.write p u token) := by
  obtain ⟨r, ho⟩ := h.own hu (by rw [hstage]; rintro ⟨⟩)
  have htemp := isTempOf_written u.landed ht
  have hf : Refiled s { s with files :=
      (u.params.root, u.landed ++ '.' :: (token ++ tempSuffix)) :: s.files } := ⟨rfl, rfl, rfl, rfl⟩
  have hfiled := h.filed.add h.worked ho hstage hf (.inr htemp)
    (fun f hmem => (mem_cons.mp hmem).symm.imp id id)
    fun f hmem _ => mem_cons_of_mem _ hmem
  have h1 := h.refile hf rfl rfl hfiled
  have ha : Alone _ (s.write p u token) p u _ :=
    alone_modify (s := { s with files :=
      (u.params.root, u.landed ++ '.' :: (token ++ tempSuffix)) :: s.files })
      (f := fun u' => { u' with
        temps := (u.landed ++ '.' :: (token ++ tempSuffix)) :: u'.temps }) hu rfl rfl
  refine ⟨ha.tabled h1.tabled, h1.worked.mod ha.toMod rfl rfl (.inl rfl) (.inl rfl),
    h1.filed.mod ha.toMod rfl rfl ha.toSameFiles (fun hs => ?_) (fun hs => ?_) (fun hs => ?_),
    h1.swept.write ha.toMod rfl rfl rfl htemp hun, ha.told h1.told⟩ <;>
    · have hs' : u.stage.succeeds = true ∨ u.stage.unlanded = true ∨ u.stage.untemped = true := by
        first
          | exact .inl hs
          | exact .inr (.inl hs)
          | exact .inr (.inr hs)
      rw [hstage] at hs'
      rcases hs' with ⟨⟨⟩⟩ | ⟨⟨⟩⟩ | ⟨⟨⟩⟩

variable [DecidableEq Root] {outcome : Outcome}

theorem checked_ok {landed : Landed} (h : s.checked u outcome = .ok landed) :
    u.file ∈ s.files := by
  unfold State.checked at h
  split at h
  · split at h
    · cases h
    · rename_i hmem
      exact not_not.mp hmem
  · cases h

theorem Inv.resolve (h : Inv s) (hu : s.pulls[p]? = some u) (hne : u.stage ≠ .done)
    (outcome : Outcome) : Inv (s.resolve p u outcome) := by
  refine h.setStage hu hne (by rintro ⟨⟩) (fun hs => ?_) (by rintro ⟨⟩) (by rintro ⟨⟩)
  cases hc : s.checked u outcome with
  | ok landed => exact checked_ok hc
  | error failure =>
    rw [hc] at hs
    cases hs

theorem Inv.begin (h : Inv s) (hu : s.pulls[p]? = some u) (hne : u.stage ≠ .done)
    (folder : Option IoError) : Inv (s.begin p u folder) := by
  cases folder with
  | none => exact h.setStage hu hne (by rintro ⟨⟩) (by rintro ⟨⟩) (by rintro ⟨⟩) (by rintro ⟨⟩)
  | some e => exact h.resolve hu hne _

theorem Inv.place (h : Inv s) (hu : s.pulls[p]? = some u) (hstage : u.stage = .pulling)
    {name : FileName} (hname : isTempOf name u.landed = true) : Inv (s.place u name) := by
  obtain ⟨r, ho⟩ := h.own hu (by rw [hstage]; rintro ⟨⟩)
  have hf : Refiled s (s.place u name) := ⟨rfl, rfl, rfl, rfl⟩
  refine h.refile hf rfl rfl (h.filed.add h.worked ho hstage hf (.inl rfl) (fun f hmem => ?_)
    fun f hmem hsuffix => ?_)
  · rcases mem_cons.mp hmem with rfl | hmem
    · exact .inr rfl
    · exact .inl (mem_removeFile.mp hmem).1
  · refine mem_cons_of_mem _ (mem_removeFile.mpr ⟨hmem, ?_⟩)
    rintro rfl
    rw [isSuffixOf_of_isTempOf hname] at hsuffix
    cases hsuffix

theorem Inv.settle (h : Inv s) (hu : s.pulls[p]? = some u)
    (hstage : u.stage = .settling outcome) {removed : Bool}
    (hok : ∀ failure, outcome = .error failure → removed = true) :
    Inv (s.settle p u removed outcome) := by
  have hne : u.stage ≠ .done := by
    rw [hstage]
    rintro ⟨⟩
  cases outcome with
  | ok landed =>
    exact h.setStage hu hne (by rintro ⟨⟩)
      (fun _ => h.filed.placed p u hu (by rw [hstage]; rfl)) (by rintro ⟨⟩) (by rintro ⟨⟩)
  | error failure =>
    obtain rfl := hok failure rfl
    obtain ⟨r, ho⟩ := h.own hu hne
    have hf : Refiled s { s with files := removeFile s.files u.file } := ⟨rfl, rfl, rfl, rfl⟩
    have h1 := h.refile hf rfl rfl (h.filed.removeOwn h.worked ho (by rw [hstage]; rfl) hf rfl)
    exact h1.setStage hu hne (by rintro ⟨⟩) (by rintro ⟨⟩)
      (fun _ hmem => (mem_removeFile.mp hmem).2 rfl) (by rintro ⟨⟩)

theorem noTemps_removeTemps {left : List FileName} (hok : Removed s u left) :
    NoTemps { s with files := removeTemps s.files u.params.root u.landed left } u := by
  intro name hname hmem
  obtain ⟨hfile, hkept⟩ := mem_removeTemps.mp hmem
  by_cases hleft : name ∈ left
  · exact hok name hleft hname hfile
  · exact hkept ⟨rfl, hname, hleft⟩

theorem Inv.withoutTemps (h : Inv s) (left : List FileName) :
    Inv { s with files := removeTemps s.files u.params.root u.landed left } := by
  have hf : Refiled s { s with files := removeTemps s.files u.params.root u.landed left } :=
    ⟨rfl, rfl, rfl, rfl⟩
  refine h.refile hf rfl rfl (h.filed.removeSuffixed hf (fun f hmem => (mem_removeTemps.mp hmem).1)
    fun f hmem hsuffix => mem_removeTemps.mpr ⟨hmem, fun ⟨_, htemp, _⟩ => ?_⟩)
  rw [isSuffixOf_of_isTempOf htemp] at hsuffix
  cases hsuffix

theorem Inv.clear (h : Inv s) (hu : s.pulls[p]? = some u)
    (hstage : u.stage = .clearing outcome) {left : List FileName}
    (hok : ∀ failure, outcome = .error failure → Removed s u left) :
    Inv (s.clear p u left outcome) := by
  have hne : u.stage ≠ .done := by
    rw [hstage]
    rintro ⟨⟩
  have h1 := h.withoutTemps (u := u) left
  cases outcome with
  | ok landed =>
    exact h1.setStage hu hne (by rintro ⟨⟩)
      (fun _ => h1.filed.placed p u hu (by rw [hstage]; rfl)) (by rintro ⟨⟩) (by rintro ⟨⟩)
  | error failure =>
    exact h1.setStage hu hne (by rintro ⟨⟩) (by rintro ⟨⟩)
      (fun _ => h1.filed.unlanded p u hu (.inl (by rw [hstage]; rfl)))
      fun _ => noTemps_removeTemps (hok failure rfl)

end Task

/-! ## A row leaves the table -/

section Leave

variable {Root : Type} {s s' : State Root} {p n : Nat} {u u' : Pull Root} {r : Running Root}
  {d : Detach}

theorem ends_endOf (p : Nat) (u : Pull Root) (outcome : Outcome) (q : Nat) :
    (State.endOf p u outcome).ends q = (p == q) := by
  cases outcome <;> rfl

variable {outcome : Outcome}

theorem fails_endOf {q : Nat}
    (h : (State.endOf p u outcome).fails q = true) :
    q = p ∧ ∃ failure, outcome = .error failure := by
  cases outcome with
  | ok landed => cases h
  | error failure => exact ⟨(beq_iff_eq.mp h).symm, failure, rfl⟩

theorem completes_endOf {q : Nat}
    (h : (State.endOf p u outcome).completes q = true) :
    q = p ∧ ∃ landed, outcome = .ok landed := by
  cases outcome with
  | ok landed => exact ⟨(beq_iff_eq.mp h).symm, landed, rfl⟩
  | error failure => cases h

theorem rowed_leave (hown : ∀ {q v r'}, Own s' q v r' ↔ q ≠ p ∧ Own s q v r') {q : Nat} :
    Rowed s' q ↔ q ≠ p ∧ Rowed s q := by
  constructor
  · rintro ⟨v, r', ho'⟩
    obtain ⟨hne, ho⟩ := hown.mp ho'
    exact ⟨hne, v, r', ho⟩
  · rintro ⟨hne, v, r', ho⟩
    exact ⟨v, r', hown.mpr ⟨hne, ho⟩⟩

theorem Told.leave (h : Told s) (ho : Own s p u r) (hm : Mod s s' p u u')
    (hown : ∀ {q v r'}, Own s' q v r' ↔ q ≠ p ∧ Own s q v r')
    (hlen : s'.pulls.length = s.pulls.length)
    (hsent : s'.sent = s.sent ++ [State.endOf p u outcome]) : Told s' := by
  refine h.snoc hsent (Nat.le_of_eq hlen.symm) hm.back (fun q _ => ?_) (fun q hge hlt => ?_)
    (fun q hq => ?_) (fun q hq => ?_) ?_
  · rw [rowed_leave hown, ends_endOf, beq_eq_false_iff_ne, and_comm]
    exact and_congr_right fun _ => ne_comm
  · rw [hlen] at hlt
    exact absurd hlt (Nat.not_lt_of_le hge)
  · rw [ends_endOf, beq_iff_eq] at hq
    subst hq
    exact ⟨u, r, ho⟩
  · cases outcome <;> cases hq
  · cases outcome <;> trivial

theorem Swept.leave (h : Swept s) (hm : Mod s s' p u u') (htemps : u'.temps = u.temps)
    (hown : ∀ {q v r'}, Own s' q v r' ↔ q ≠ p ∧ Own s q v r') (hsweeps : s'.sweeps = s.sweeps) :
    Swept s' := by
  refine h.congr hsweeps fun q v hv => .inr ?_
  have hback : Rowed s' q → Rowed s q := fun hr => ((rowed_leave hown).mp hr).2
  rcases hm.cases hv with ⟨rfl, rfl⟩ | ⟨-, hv⟩
  · exact ⟨u, hm.old, hm.params, htemps, hback⟩
  · exact ⟨v, hv, rfl, rfl, hback⟩

theorem Inv.finish (h : Inv s) (hu : s.pulls[p]? = some u)
    (hstage : u.stage = .ending outcome) : Inv (s.finish p u outcome) := by
  have hne : u.stage ≠ .done := by
    rw [hstage]
    rintro ⟨⟩
  obtain ⟨r, ho⟩ := h.own hu hne
  rw [State.finish, ho.row]
  dsimp only
  split
  · rename_i htaken
    refine h.setStage hu hne (fun _ r' ho' => ?_) (by rintro ⟨⟩) (by rintro ⟨⟩) (by rintro ⟨⟩)
    rw [Option.some.inj (ho'.row.symm.trans ho.row)]
    exact htaken
  · rename_i htaken
    have hm : Mod s (State.setStage { s with
        table := s.table.erase u.params.transferId
        digests := s.digests.erase u.params.digest
        sent := s.sent ++ [State.endOf p u outcome] } p .done) p u { u with stage := .done } :=
      mod_modify (f := fun u => { u with stage := .done }) hu rfl rfl
    have hown : ∀ {q v r'}, Own _ q v r' ↔ q ≠ p ∧ Own s q v r' := ho.leave_iff hm rfl
    refine ⟨h.tabled.leave ho hm.keeps rfl rfl,
      h.worked.finish ho (Bool.eq_false_iff.mpr htaken) hm rfl rfl rfl,
      h.filed.leave ho hm hown rfl rfl rfl (fun q hq => ?_)
        fun c hc q hq => ⟨c, hc, hq, fun _ hin => hin⟩,
      h.swept.leave hm rfl hown rfl, h.told.leave ho hm hown (length_modify ..) rfl⟩
    obtain ⟨rfl, landed, rfl⟩ := completes_endOf hq
    exact ⟨rfl, h.filed.placed q u hu (by rw [hstage]; rfl)⟩

theorem Inv.endRow {ended : List Nat} (h : Inv s) (hd : s.detaches[n]? = some
    { aborts := [], joins := [], clears := [], ended := p :: ended }) :
    Inv ((s.endRow p).setDetach n { aborts := [], joins := [], clears := [], ended := ended }) := by
  have hmem := mem_iff_getElem?.mpr ⟨n, hd⟩
  obtain ⟨u, r, ho, htaken⟩ := (h.worked.tearing _ hmem).ended p mem_cons_self
  have hdone := (h.worked.tearing _ hmem).joined p u mem_cons_self not_mem_nil ho.pull
  rw [State.endRow, ho.pull]
  dsimp only
  rw [ho.row]
  dsimp only
  have hm : Mod s (State.setDetach { s with
      table := s.table.erase u.params.transferId
      digests := s.digests.erase r.row.digest
      sent := s.sent ++ [State.endOf p u (.error State.failureNodeDown)] } n
        { aborts := [], joins := [], clears := [], ended := ended }) p u u :=
    ⟨ho.pull, ho.pull, fun _ _ => rfl, rfl⟩
  have hown : ∀ {q v r'}, Own _ q v r' ↔ q ≠ p ∧ Own s q v r' := ho.leave_iff hm rfl
  refine ⟨h.tabled.leave ho hm.keeps rfl (by rw [h.tabled.digest ho]; rfl),
    h.worked.leave hd rfl ⟨rfl, rfl, rfl, rfl⟩ ho rfl rfl rfl,
    h.filed.leave ho hm hown hdone rfl rfl (fun q hq => ?_) fun c hc q hq => ?_,
    h.swept.leave hm rfl hown rfl, h.told.leave ho hm hown rfl rfl⟩
  · obtain ⟨-, landed, he⟩ := completes_endOf hq
    cases he
  · rcases mem_or_eq_of_mem_set hc with hc | rfl
    · exact ⟨c, hc, hq, fun _ hin => hin⟩
    · exact ⟨_, hmem, mem_cons_of_mem _ hq, fun _ hin => hin⟩

theorem detaches_endRow (s : State Root) (p : Nat) : (s.endRow p).detaches = s.detaches := by
  rw [State.endRow]
  split
  · rfl
  · split <;> rfl

theorem endRow_setDetach (s : State Root) (n : Nat) (d : Detach) (p : Nat) :
    (s.setDetach n d).endRow p = (s.endRow p).setDetach n d := by
  unfold State.endRow State.setDetach
  dsimp only
  cases s.pulls[p]? with
  | none => rfl
  | some u =>
    dsimp only
    cases s.table.lookup u.params.transferId <;> rfl

theorem foldl_endRow_setDetach (n : Nat) (d : Detach) (ended : List Nat) :
    ∀ s : State Root, ended.foldl State.endRow (s.setDetach n d) =
      (ended.foldl State.endRow s).setDetach n d := by
  induction ended with
  | nil => exact fun _ => rfl
  | cons p ended ih =>
    intro s
    rw [foldl_cons, foldl_cons, endRow_setDetach, ih]

theorem setDetach_setDetach (s : State Root) (n : Nat) (d d' : Detach) :
    (s.setDetach n d).setDetach n d' = s.setDetach n d' := by
  rw [State.setDetach, State.setDetach, State.setDetach, set_set]

theorem Inv.endRows : ∀ (ended : List Nat) (s : State Root), Inv s → s.detaches[n]? = some
      { aborts := [], joins := [], clears := [], ended := ended } →
    Inv ((ended.foldl State.endRow s).setDetach n
      { aborts := [], joins := [], clears := [], ended := [] }) := by
  intro ended
  induction ended with
  | nil =>
    intro s h hd
    have hlt := (List.getElem?_eq_some_iff.mp hd).1
    have heq : s.setDetach n { aborts := [], joins := [], clears := [], ended := [] } = s := by
      rw [State.setDetach, ← (List.getElem?_eq_some_iff.mp hd).2, set_getElem_self]
    rw [foldl_nil, heq]
    exact h
  | cons p ended ih =>
    intro s h hd
    have h1 := h.endRow hd
    have hlt := (List.getElem?_eq_some_iff.mp hd).1
    have h2 := ih _ h1 (by
      rw [State.setDetach, detaches_endRow]
      exact List.getElem?_set_self hlt)
    rw [foldl_endRow_setDetach, setDetach_setDetach] at h2
    exact h2

end Leave

/-! ## A teardown goes on -/

section Teardown

variable {Root : Type} {s s' : State Root} {p n : Nat} {u : Pull Root} {d d' : Detach}

theorem Inv.setDetach (h : Inv s) (hd : s.detaches[n]? = some d) (he : d'.ended = d.ended)
    (htear : Tearing s d')
    (hland : ∀ (q : Nat) (v : Pull Root), Clear.landed q ∈ d.clears → Clear.landed q ∉ d'.clears →
      s.pulls[q]? = some v → v.file ∉ s.files)
    (htemps : ∀ (q : Nat) (v : Pull Root), Clear.temps q ∈ d.clears → Clear.temps q ∉ d'.clears →
      s.pulls[q]? = some v → NoTemps s v) : Inv (s.setDetach n d') := by
  have hr : SameRows s (s.setDetach n d') := sameRows_of_eq rfl rfl
  exact ⟨h.tabled.congr (.refl rfl) (fun _ => rfl) rfl rfl,
    h.worked.setDetach hd rfl rfl rfl he htear,
    h.filed.setDetach hd rfl rfl ⟨rfl, rfl⟩ rfl he hland htemps, h.swept.same hr rfl,
    h.told.same hr rfl⟩

variable {clears : List Clear} {ended : List Nat}

theorem Inv.abort {aborts joins : List Nat} (h : Inv s)
    (hd : s.detaches[n]? = some { aborts := p :: aborts, joins, clears, ended }) :
    Inv ({ s with pulls := s.pulls.modify p fun u => { u with aborted := true } }.setDetach n
      { aborts, joins, clears, ended }) := by
  have htear := h.worked.tearing _ (mem_iff_getElem?.mpr ⟨n, hd⟩)
  have h1 : Inv (s.setDetach n { aborts, joins, clears, ended }) := h.setDetach hd rfl
    ⟨htear.ended, fun q hq => htear.aborts q (mem_cons_of_mem _ hq), htear.joins, htear.clears,
      htear.joined⟩ (fun _ _ hin hout => absurd hin hout) (fun _ _ hin hout => absurd hin hout)
  obtain ⟨u, r, ho, htaken⟩ := htear.ended p (htear.aborts p mem_cons_self)
  have ha := alone_modify (s := s.setDetach n { aborts, joins, clears, ended })
    (f := fun u => { u with aborted := true }) ho.pull rfl rfl
  refine ⟨ha.tabled h1.tabled, h1.worked.mod ha.toMod rfl rfl (.inl rfl) (.inr fun r' ho' => ?_),
    h1.filed.mod ha.toMod rfl rfl ha.toSameFiles (fun hs => h1.filed.placed p u ho.pull hs)
      (fun hs => h1.filed.unlanded p u ho.pull (.inl hs))
      (fun hs => h1.filed.untemped p u ho.pull (.inl hs)),
    ha.swept h1.swept rfl, ha.told h1.told⟩
  rw [Option.some.inj (ho'.row.symm.trans ho.row)]
  exact htaken

theorem stageOf_done (h : s.stageOf p = .done) (hu : s.pulls[p]? = some u) : u.stage = .done := by
  rw [State.stageOf, hu] at h
  exact h

theorem Inv.join {joins : List Nat} (h : Inv s)
    (hd : s.detaches[n]? = some { aborts := [], joins := p :: joins, clears, ended })
    (hdone : s.stageOf p = .done) :
    Inv (s.setDetach n { aborts := [], joins, clears, ended }) := by
  have htear := h.worked.tearing _ (mem_iff_getElem?.mpr ⟨n, hd⟩)
  refine h.setDetach hd rfl ⟨htear.ended, fun _ hq => (by cases hq),
    fun q hq => htear.joins q (mem_cons_of_mem _ hq), htear.clears, fun q v hq hout hv => ?_⟩
    (fun _ _ hin hout => absurd hin hout) (fun _ _ hin hout => absurd hin hout)
  by_cases hqp : q = p
  · subst hqp
    exact stageOf_done hdone hv
  · exact htear.joined q v hq (fun hin => (mem_cons.mp hin).elim hqp hout) hv

variable [DecidableEq Root]

theorem Inv.clearOn {c : Clear} (h : Inv s)
    (hd : s.detaches[n]? = some { aborts := [], joins := [], clears := c :: clears, ended })
    {removed : Bool} {left : List FileName} (hremoved : ∀ q, c = .landed q → removed = true)
    (hleft : ∀ (q : Nat) (v : Pull Root), c = .temps q → s.pulls[q]? = some v → Removed s v left) :
    Inv ((s.clearOn removed left c).setDetach n
      { aborts := [], joins := [], clears, ended }) := by
  have htear := h.worked.tearing _ (mem_iff_getElem?.mpr ⟨n, hd⟩)
  have hc := htear.clears c mem_cons_self
  obtain ⟨u, r, ho, -⟩ := htear.ended _ hc
  have hdone := htear.joined _ u hc not_mem_nil ho.pull
  have htear' : Tearing s { aborts := [], joins := [], clears, ended } :=
    ⟨htear.ended, fun _ hq => (by cases hq), fun _ hq => (by cases hq),
      fun c hin => htear.clears c (mem_cons_of_mem _ hin), htear.joined⟩
  cases c with
  | landed p =>
    obtain rfl := hremoved p rfl
    have hu : s.pulls[p]? = some u := ho.pull
    have hf : Refiled s { s with files := removeFile s.files u.file } := ⟨rfl, rfl, rfl, rfl⟩
    have h1 := h.refile hf rfl rfl (h.filed.removeOwn h.worked ho (by rw [hdone]; rfl) hf rfl)
    rw [State.clearOn, hu]
    refine h1.setDetach hd rfl (htear'.congr rfl rfl) (fun q v hin hout hv => ?_)
      fun q v hin hout _ => ?_
    · rcases mem_cons.mp hin with heq | hin
      · cases heq
        cases hu.symm.trans hv
        exact fun hmem => (mem_removeFile.mp hmem).2 rfl
      · exact absurd hin hout
    · rcases mem_cons.mp hin with heq | hin
      · cases heq
      · exact absurd hin hout
  | temps p =>
    have hu : s.pulls[p]? = some u := ho.pull
    have h1 := h.withoutTemps (u := u) left
    rw [State.clearOn, hu]
    refine h1.setDetach hd rfl (htear'.congr rfl rfl) (fun q v hin hout _ => ?_)
      fun q v hin hout hv => ?_
    · rcases mem_cons.mp hin with heq | hin
      · cases heq
      · exact absurd hin hout
    · rcases mem_cons.mp hin with heq | hin
      · cases heq
        cases hu.symm.trans hv
        exact noTemps_removeTemps (hleft _ u rfl hu)
      · exact absurd hin hout

theorem Inv.teardown (h : Inv s) (hd : s.detaches[n]? = some d) {removed : Bool}
    {left : List FileName} (hok : Orderly s (.teardown n removed left))
    (hs : s.teardown n removed left d = some s') : Inv s' := by
  have hok' := hok d hd
  unfold State.teardown at hs
  split at hs
  · cases hs
    exact h.abort hd
  · split at hs
    · rename_i hdone
      cases hs
      exact h.join hd hdone
    · cases hs
  · rename_i c clears ended
    cases hs
    exact h.clearOn hd (fun q hq => (hok' q).1 (congrArg some hq))
      fun q v hq hv => (hok' q).2 (congrArg some hq) v hv
  · cases hs
  · rename_i ended _
    cases hs
    exact Inv.endRows ended s h hd

end Teardown

end VibeField.Native.FileTransfer
