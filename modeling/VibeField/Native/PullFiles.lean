import VibeField.Native.PullTasks

/-!
# The files of the pulls

The file of a pull that succeeds is in place, and stays; a pull that fails has no file where its
task, or the teardown that took it, has removed it.  No other pull at work has files of its names.
-/

namespace VibeField.Native.FileTransfer

open List

variable {Root : Type} {s s' : State Root} {p q n : Nat} {u u' v : Pull Root} {r : Running Root}
  {d : Detach}

def Stage.succeeds : Stage → Bool
  | .settling (.ok _) | .clearing (.ok _) | .ending (.ok _) => true
  | _ => false

def Stage.unlanded : Stage → Bool
  | .clearing (.error _) | .ending (.error _) => true
  | _ => false

def Stage.untemped : Stage → Bool
  | .ending (.error _) => true
  | _ => false

/-- The task or a teardown has removed the pull's landed file. -/
def Unlanded (s : State Root) (p : Nat) (u : Pull Root) : Prop :=
  u.stage.unlanded = true ∨ ∃ d ∈ s.detaches, p ∈ d.ended ∧ Clear.landed p ∉ d.clears

def Untemped (s : State Root) (p : Nat) (u : Pull Root) : Prop :=
  u.stage.untemped = true ∨ ∃ d ∈ s.detaches, p ∈ d.ended ∧ Clear.temps p ∉ d.clears

def NoTemps (s : State Root) (u : Pull Root) : Prop :=
  ∀ name, isTempOf name u.landed = true → (u.params.root, name) ∉ s.files

def Completed (s : State Root) (p : Nat) : Prop := ∃ o ∈ s.sent, o.completes p = true

structure Filed (s : State Root) : Prop where
  placed : ∀ (p : Nat) (u : Pull Root), s.pulls[p]? = some u → u.stage.succeeds = true →
    u.file ∈ s.files
  unlanded : ∀ (p : Nat) (u : Pull Root), s.pulls[p]? = some u → Unlanded s p u →
    u.file ∉ s.files
  untemped : ∀ (p : Nat) (u : Pull Root), s.pulls[p]? = some u → Untemped s p u → NoTemps s u
  completed : ∀ (p : Nat) (u : Pull Root), s.pulls[p]? = some u → Completed s p → u.file ∈ s.files
  /-- No row is of a pull with the file of one that completed. -/
  apart : ∀ (p : Nat) (u : Pull Root), s.pulls[p]? = some u → Completed s p →
    ∀ (q : Nat) (v : Pull Root) (r : Running Root), Own s q v r → v.file ≠ u.file

theorem file_ne_temp (u : Pull Root) {root : Root} {name : FileName}
    (h : tempSuffix.isSuffixOf name = true) : u.file ≠ (root, name) := by
  intro he
  rw [← (Prod.mk.inj he).2, Pull.landed, landedName_not_temp] at h
  cases h

theorem Own.file_ne (h : Own s p u r) {r' : Running Root} (h' : Own s q v r') (hne : p ≠ q) :
    u.file ≠ v.file := fun he => h.landed_ne h' hne (Prod.mk.inj he).2

theorem Worked.own_of_removed (h : Worked s) (hu : s.pulls[p]? = some u)
    (hr : Unlanded s p u ∨ Untemped s p u) : (∃ r, Own s p u r) ∧ u.stage ≠ .pulling := by
  have hstage : u.stage.unlanded = true ∨ u.stage.untemped = true →
      (∃ r, Own s p u r) ∧ u.stage ≠ .pulling := by
    intro hs
    refine ⟨(h.idle p u hu).resolve_left fun hdone => ?_, fun hpulling => ?_⟩
    · rw [hdone] at hs
      rcases hs with ⟨⟨⟩⟩ | ⟨⟨⟩⟩
    · rw [hpulling] at hs
      rcases hs with ⟨⟨⟩⟩ | ⟨⟨⟩⟩
  have htear : (∃ d ∈ s.detaches, p ∈ d.ended ∧
      (Clear.landed p ∉ d.clears ∨ Clear.temps p ∉ d.clears)) →
      (∃ r, Own s p u r) ∧ u.stage ≠ .pulling := by
    rintro ⟨d, hmem, hp, hclears⟩
    have ht := h.tearing d hmem
    obtain ⟨v, r, ho, -⟩ := ht.ended p hp
    cases ho.eq_pull hu
    have hjoins : p ∉ d.joins := fun hj =>
      hclears.elim (fun hc => hc (ht.joins p hj).1) fun hc => hc (ht.joins p hj).2
    refine ⟨⟨r, ho⟩, fun hpulling => ?_⟩
    rw [ht.joined p u hp hjoins hu] at hpulling
    cases hpulling
  rcases hr with (hs | ⟨d, hmem, hp, hc⟩) | (hs | ⟨d, hmem, hp, hc⟩)
  · exact hstage (.inl hs)
  · exact htear ⟨d, hmem, hp, .inl hc⟩
  · exact hstage (.inr hs)
  · exact htear ⟨d, hmem, hp, .inr hc⟩

theorem Worked.own_of_succeeds (h : Worked s) (hu : s.pulls[p]? = some u)
    (hs : u.stage.succeeds = true) : ∃ r, Own s p u r := by
  refine (h.idle p u hu).resolve_left fun hdone => ?_
  rw [hdone] at hs
  cases hs

/-! ## The folder changes -/

/-- Only the folder changes. -/
structure Refiled (s s' : State Root) : Prop where
  pulls : s'.pulls = s.pulls
  table : s'.table = s.table
  detaches : s'.detaches = s.detaches
  sent : s'.sent = s.sent

theorem Filed.refile (h : Filed s) (hf : Refiled s s')
    (hkeep : ∀ (q : Nat) (v : Pull Root), s.pulls[q]? = some v →
      (v.stage.succeeds = true ∨ Completed s q) → v.file ∈ s.files → v.file ∈ s'.files)
    (hland : ∀ (q : Nat) (v : Pull Root), s.pulls[q]? = some v → Unlanded s q v →
      v.file ∉ s.files → v.file ∉ s'.files)
    (htemps : ∀ (q : Nat) (v : Pull Root), s.pulls[q]? = some v → Untemped s q v → NoTemps s v →
      NoTemps s' v) : Filed s' := by
  have hcompleted : ∀ q, Completed s' q ↔ Completed s q := fun q => by
    rw [Completed, Completed, hf.sent]
  have hunlanded : ∀ q v, Unlanded s' q v ↔ Unlanded s q v := fun q v => by
    rw [Unlanded, Unlanded, hf.detaches]
  have huntemped : ∀ q v, Untemped s' q v ↔ Untemped s q v := fun q v => by
    rw [Untemped, Untemped, hf.detaches]
  refine ⟨fun q v hv hs => ?_, fun q v hv hq => ?_, fun q v hv hq => ?_, fun q v hv hq => ?_,
    fun q v hv hq q' v' r' ho => ?_⟩ <;> rw [hf.pulls] at hv
  · exact hkeep q v hv (.inl hs) (h.placed q v hv hs)
  · rw [hunlanded] at hq
    exact hland q v hv hq (h.unlanded q v hv hq)
  · rw [huntemped] at hq
    exact htemps q v hv hq (h.untemped q v hv hq)
  · rw [hcompleted] at hq
    exact hkeep q v hv (.inr hq) (h.completed q v hv hq)
  · rw [hcompleted] at hq
    exact h.apart q v hv hq q' v' r' (ho.congr hf.pulls.symm hf.table.symm)

theorem Filed.remove (h : Filed s) (hf : Refiled s s') (hsub : ∀ f ∈ s'.files, f ∈ s.files)
    (hkeep : ∀ (q : Nat) (v : Pull Root), s.pulls[q]? = some v →
      (v.stage.succeeds = true ∨ Completed s q) → v.file ∈ s.files → v.file ∈ s'.files) :
    Filed s' :=
  h.refile hf hkeep (fun _ _ _ _ hno hmem => hno (hsub _ hmem))
    fun _ _ _ _ hno name hname hmem => hno name hname (hsub _ hmem)


theorem Filed.removeSuffixed (h : Filed s) (hf : Refiled s s')
    (hsub : ∀ f ∈ s'.files, f ∈ s.files)
    (hfiles : ∀ f ∈ s.files, tempSuffix.isSuffixOf f.2 = false → f ∈ s'.files) : Filed s' :=
  h.remove hf hsub fun _ _ _ _ hmem => hfiles _ hmem (landedName_not_temp _ _)

theorem Filed.add (h : Filed s) (hw : Worked s) (ho : Own s p u r) (hstage : u.stage = .pulling)
    (hf : Refiled s s') {name : FileName} (hname : name = u.landed ∨ isTempOf name u.landed = true)
    (hadd : ∀ f ∈ s'.files, f ∈ s.files ∨ f = (u.params.root, name))
    (hkeep : ∀ f ∈ s.files, tempSuffix.isSuffixOf f.2 = false → f ∈ s'.files) : Filed s' := by
  have hother : ∀ {q v}, s.pulls[q]? = some v → Unlanded s q v ∨ Untemped s q v →
      ∃ r', Own s q v r' ∧ p ≠ q := by
    intro q v hv hq
    obtain ⟨⟨r', ho'⟩, hne⟩ := hw.own_of_removed hv hq
    refine ⟨r', ho', ?_⟩
    rintro rfl
    cases ho.eq_pull hv
    exact hne hstage
  refine h.refile hf (fun q v _ _ hmem => hkeep _ hmem (landedName_not_temp _ _))
    (fun q v hv hq hno hmem => ?_) fun q v hv hq hno other hother' hmem => ?_
  · rcases hadd _ hmem with hmem | heq
    · exact hno hmem
    · obtain ⟨r', ho', hne⟩ := hother hv (.inl hq)
      rcases hname with rfl | htemp
      · exact ho.file_ne ho' hne heq.symm
      · exact file_ne_temp v (isSuffixOf_of_isTempOf htemp) heq
  · rcases hadd _ hmem with hmem | heq
    · exact hno other hother' hmem
    · obtain ⟨r', ho', hne⟩ := hother hv (.inr hq)
      obtain ⟨-, rfl⟩ := Prod.mk.inj heq
      rcases hname with rfl | htemp
      · have hsuffix := isSuffixOf_of_isTempOf hother'
        rw [Pull.landed, landedName_not_temp] at hsuffix
        cases hsuffix
      · exact ho.landed_ne ho' hne (isTempOf_unique htemp hother')

section Files

variable [DecidableEq Root]

theorem mem_removeFile {files : List (Root × FileName)} {f file : Root × FileName} :
    f ∈ removeFile files file ↔ f ∈ files ∧ f ≠ file := by
  rw [removeFile, mem_filter, decide_eq_true_iff]

theorem mem_removeTemps {files : List (Root × FileName)} {f : Root × FileName} {root : Root}
    {landed : FileName} {left : List FileName} : f ∈ removeTemps files root landed left ↔
      f ∈ files ∧ ¬(f.1 = root ∧ isTempOf f.2 landed = true ∧ f.2 ∉ left) := by
  rw [removeTemps, mem_filter]
  refine and_congr_right fun _ => ?_
  by_cases hroot : f.1 = root <;> by_cases htemp : isTempOf f.2 landed = true <;>
    by_cases hleft : f.2 ∈ left <;> simp [hroot, htemp, hleft]

theorem Filed.removeOwn (h : Filed s) (hw : Worked s) (ho : Own s p u r)
    (hstage : u.stage.succeeds = false) (hf : Refiled s s')
    (hfiles : s'.files = removeFile s.files u.file) : Filed s' := by
  refine h.remove hf (fun f hmem => ?_) fun q v hv hq hmem => ?_
  · rw [hfiles] at hmem
    exact (mem_removeFile.mp hmem).1
  · rw [hfiles]
    refine mem_removeFile.mpr ⟨hmem, fun he => ?_⟩
    rcases hq with hs | hc
    · obtain ⟨r', ho'⟩ := hw.own_of_succeeds hv hs
      by_cases hqp : q = p
      · subst hqp
        cases ho.eq_pull hv
        rw [hstage] at hs
        cases hs
      · exact ho'.file_ne ho hqp he
    · exact h.apart q v hv hc p u r ho he.symm

end Files

/-! ## The rest stays -/

structure SameFiles (s s' : State Root) : Prop where
  files : s'.files = s.files
  sent : s'.sent = s.sent

theorem Mod.file (hm : Mod s s' p u u') : u'.file = u.file := by
  rw [Pull.file, Pull.file, Pull.landed, Pull.landed, hm.params]

theorem Mod.noTemps (hm : Mod s s' p u u') (hf : s'.files = s.files) (h : NoTemps s u) :
    NoTemps s' u' := by
  rw [NoTemps, Pull.landed, hm.params, hf]
  exact h

theorem Filed.mod (h : Filed s) (hm : Mod s s' p u u') (ht : s'.table = s.table)
    (hd : s'.detaches = s.detaches) (hf : SameFiles s s')
    (hplaced : u'.stage.succeeds = true → u.file ∈ s.files)
    (hland : u'.stage.unlanded = true → u.file ∉ s.files)
    (htemps : u'.stage.untemped = true → NoTemps s u) : Filed s' := by
  have hcompleted : ∀ q, Completed s' q ↔ Completed s q := fun q => by
    rw [Completed, Completed, hf.sent]
  refine ⟨fun q v hv hs => ?_, fun q v hv hq => ?_, fun q v hv hq => ?_, fun q v hv hq => ?_,
    fun q v hv hq q' v' r' ho => ?_⟩
  · rw [hf.files]
    rcases hm.cases hv with ⟨rfl, rfl⟩ | ⟨-, hv⟩
    · rw [hm.file]
      exact hplaced hs
    · exact h.placed q v hv hs
  · rw [Unlanded, hd] at hq
    rw [hf.files]
    rcases hm.cases hv with ⟨rfl, rfl⟩ | ⟨-, hv⟩
    · rw [hm.file]
      exact hq.elim hland fun hq => h.unlanded q u hm.old (.inr hq)
    · exact h.unlanded q v hv hq
  · rw [Untemped, hd] at hq
    rcases hm.cases hv with ⟨rfl, rfl⟩ | ⟨-, hv⟩
    · exact hm.noTemps hf.files (hq.elim htemps fun hq => h.untemped q u hm.old (.inr hq))
    · rw [NoTemps, hf.files]
      exact h.untemped q v hv hq
  · rw [hcompleted] at hq
    rw [hf.files]
    rcases hm.cases hv with ⟨rfl, rfl⟩ | ⟨-, hv⟩
    · rw [hm.file]
      exact h.completed q u hm.old hq
    · exact h.completed q v hv hq
  · rw [hcompleted] at hq
    have hfile : ∃ w, s.pulls[q]? = some w ∧ v.file = w.file := by
      rcases hm.cases hv with ⟨rfl, rfl⟩ | ⟨-, hv⟩
      · exact ⟨u, hm.old, hm.file⟩
      · exact ⟨v, hv, rfl⟩
    obtain ⟨w, hw, hfile⟩ := hfile
    rw [hfile]
    rcases (hm.own_iff ht).mp ho with ⟨rfl, rfl, ho⟩ | ⟨-, ho⟩
    · rw [hm.file]
      exact h.apart q w hw hq _ u r' ho
    · exact h.apart q w hw hq q' v' r' ho

theorem completed_snoc {o : Sent Root} (hsent : s'.sent = s.sent ++ [o]) :
    Completed s' p ↔ Completed s p ∨ o.completes p = true := by
  rw [Completed, hsent]
  constructor
  · rintro ⟨o', hmem, hc⟩
    rcases mem_snoc.mp hmem with hmem | hmem
    · exact .inl ⟨o', hmem, hc⟩
    · exact .inr (hmem ▸ hc)
  · rintro (⟨o', hmem, hc⟩ | hc)
    · exact ⟨o', mem_append_left _ hmem, hc⟩
    · exact ⟨o, mem_append_right _ (mem_singleton.mpr rfl), hc⟩

theorem Filed.leave (h : Filed s) (ho : Own s p u r) (hm : Mod s s' p u u')
    (hown : ∀ {q v r'}, Own s' q v r' ↔ q ≠ p ∧ Own s q v r') (hdone : u'.stage = .done)
    (hfiles : s'.files = s.files) {o : Sent Root} (hsent : s'.sent = s.sent ++ [o])
    (hends : ∀ q, o.completes q = true → q = p ∧ u.file ∈ s.files)
    (hdetaches : ∀ c' ∈ s'.detaches, ∀ q ∈ c'.ended,
      ∃ c ∈ s.detaches, q ∈ c.ended ∧ ∀ clear ∈ c.clears, clear ∈ c'.clears) : Filed s' := by
  have hback : ∀ {q : Nat} {v : Pull Root}, s'.pulls[q]? = some v →
      ∃ w : Pull Root, s.pulls[q]? = some w ∧ v.file = w.file ∧ (NoTemps s w → NoTemps s' v) ∧
        (v.stage = w.stage ∨ v.stage = .done) := by
    intro q v hv
    rcases hm.cases hv with ⟨rfl, rfl⟩ | ⟨-, hv⟩
    · exact ⟨u, hm.old, hm.file, hm.noTemps hfiles, .inr hdone⟩
    · exact ⟨v, hv, rfl, fun hno => by rw [NoTemps, hfiles]; exact hno, .inl rfl⟩
  have hclears : ∀ {q : Nat} {clear : Clear},
      (∃ c' ∈ s'.detaches, q ∈ c'.ended ∧ clear ∉ c'.clears) →
      ∃ c ∈ s.detaches, q ∈ c.ended ∧ clear ∉ c.clears := by
    rintro q clear ⟨c', hmem, hq, hno⟩
    obtain ⟨c, hc, hqc, hsub⟩ := hdetaches c' hmem q hq
    exact ⟨c, hc, hqc, fun hin => hno (hsub clear hin)⟩
  refine ⟨fun q v hv hs => ?_, fun q v hv hq => ?_, fun q v hv hq => ?_, fun q v hv hq => ?_,
    fun q v hv hq q' v' r' ho' => ?_⟩ <;> obtain ⟨w, hw, hfile, htemps, hstage⟩ := hback hv
  · rw [hfile, hfiles]
    rcases hstage with heq | heq
    · exact h.placed q w hw (heq ▸ hs)
    · rw [heq] at hs
      cases hs
  · rw [hfile, hfiles]
    refine h.unlanded q w hw (hq.imp (fun hs => ?_) hclears)
    rcases hstage with heq | heq
    · exact heq ▸ hs
    · rw [heq] at hs
      cases hs
  · refine htemps (h.untemped q w hw (hq.imp (fun hs => ?_) hclears))
    rcases hstage with heq | heq
    · exact heq ▸ hs
    · rw [heq] at hs
      cases hs
  · rw [hfile, hfiles]
    rcases (completed_snoc hsent).mp hq with hq | hq
    · exact h.completed q w hw hq
    · obtain ⟨rfl, hmem⟩ := hends q hq
      cases hw.symm.trans ho.pull
      exact hmem
  · rw [hfile]
    obtain ⟨hne, ho'⟩ := hown.mp ho'
    rcases (completed_snoc hsent).mp hq with hq | hq
    · exact h.apart q w hw hq q' v' r' ho'
    · obtain ⟨rfl, -⟩ := hends q hq
      cases hw.symm.trans ho.pull
      exact ho'.file_ne ho hne

theorem Filed.accept {params : NativeFileTransferPullParams Root} {now : Instant} (h : Filed s)
    (hw : Worked s) (ha : Accepted s s' params now)
    (hknown : ∀ q, Completed s q → q < s.pulls.length)
    (hfresh : ∀ (q : Nat) (v : Pull Root), s.pulls[q]? = some v → Completed s q →
      v.file ≠ (params.root, landedName params.digest params.transferId)) : Filed s' := by
  have hown : ∀ {q v r}, Own s' q v r ↔ _ := fun {q v r} => ha.own_iff (q := q) (v := v) (r := r)
  obtain ⟨-, -, -, heq⟩ := ha
  have hpulls : s'.pulls = s.pulls ++ [.new params now] := by rw [heq]; rfl
  have hfiles : s'.files = s.files := by rw [heq]
  have hd : s'.detaches = s.detaches := by rw [heq]
  have hsent : s'.sent = s.sent ++ [.accepted s.pulls.length] := by rw [heq]
  have hcompleted : ∀ {q}, Completed s' q ↔ Completed s q := fun {q} =>
    (completed_snoc hsent).trans (or_iff_left (by simp [Sent.completes]))
  have htorn : ∀ {q : Nat} {c : Clear}, (∃ d ∈ s.detaches, q ∈ d.ended ∧ c ∉ d.clears) →
      q < s.pulls.length := by
    rintro q c ⟨d, hmem, hq, -⟩
    obtain ⟨v, r, ho, -⟩ := (hw.tearing d hmem).ended q hq
    exact (List.getElem?_eq_some_iff.mp ho.pull).1
  refine ⟨fun q v hv hs => ?_, fun q v hv hq => ?_, fun q v hv hq => ?_, fun q v hv hq => ?_,
    fun q v hv hq q' v' r' ho => ?_⟩ <;> rw [hpulls] at hv <;>
    rcases getElem?_snoc.mp hv with hv | ⟨rfl, rfl⟩
  · rw [hfiles]
    exact h.placed q v hv hs
  · cases hs
  · rw [Unlanded, hd] at hq
    rw [hfiles]
    exact h.unlanded q v hv hq
  · rw [Unlanded, hd] at hq
    rcases hq with ⟨⟨⟩⟩ | hq
    exact absurd (htorn hq) (Nat.lt_irrefl _)
  · rw [Untemped, hd] at hq
    rw [NoTemps, hfiles]
    exact h.untemped q v hv hq
  · rw [Untemped, hd] at hq
    rcases hq with ⟨⟨⟩⟩ | hq
    exact absurd (htorn hq) (Nat.lt_irrefl _)
  · rw [hfiles]
    exact h.completed q v hv (hcompleted.mp hq)
  · exact absurd (hknown _ (hcompleted.mp hq)) (Nat.lt_irrefl _)
  · rw [hcompleted] at hq
    rcases hown.mp ho with ⟨rfl, rfl, rfl⟩ | ho
    · exact (hfresh q v hv hq).symm
    · exact h.apart q v hv hq q' v' r' ho
  · exact absurd (hknown _ (hcompleted.mp hq)) (Nat.lt_irrefl _)

theorem Filed.detach (h : Filed s) : Filed s.detach := by
  have hback : ∀ {q : Nat} {c : Clear} , c = .landed q ∨ c = .temps q →
      (∃ d ∈ s.detach.detaches, q ∈ d.ended ∧ c ∉ d.clears) →
      ∃ d ∈ s.detaches, q ∈ d.ended ∧ c ∉ d.clears := by
    rintro q c hc ⟨d, hmem, hq, hno⟩
    rcases mem_snoc.mp hmem with hmem | hmem
    · exact ⟨d, hmem, hq, hno⟩
    · cases hmem
      refine absurd (mem_flatMap.mpr ⟨q, hq, ?_⟩) hno
      rcases hc with rfl | rfl
      · exact mem_cons_self
      · exact mem_cons_of_mem _ mem_cons_self
  refine ⟨h.placed, fun q v hv hq => ?_, fun q v hv hq => ?_, h.completed,
    fun q v hv hq q' v' r' ho => ?_⟩
  · exact h.unlanded q v hv (hq.imp id (hback (.inl rfl)))
  · exact h.untemped q v hv (hq.imp id (hback (.inr rfl)))
  · obtain ⟨r, ho', rfl⟩ := own_detach.mp ho
    exact h.apart q v hv hq q' v' r ho'

theorem Filed.setDetach {d' : Detach} (h : Filed s) (hd : s.detaches[n]? = some d)
    (hpulls : s'.pulls = s.pulls) (ht : s'.table = s.table) (hf : SameFiles s s')
    (hdetaches : s'.detaches = s.detaches.set n d') (he : d'.ended = d.ended)
    (hland : ∀ (q : Nat) (v : Pull Root), Clear.landed q ∈ d.clears → Clear.landed q ∉ d'.clears →
      s.pulls[q]? = some v → v.file ∉ s.files)
    (htemps : ∀ (q : Nat) (v : Pull Root), Clear.temps q ∈ d.clears → Clear.temps q ∉ d'.clears →
      s.pulls[q]? = some v → NoTemps s v) : Filed s' := by
  have hcompleted : ∀ q, Completed s' q ↔ Completed s q := fun q => by
    rw [Completed, Completed, hf.sent]
  have hback : ∀ {q : Nat} {c : Clear}, (∃ d ∈ s'.detaches, q ∈ d.ended ∧ c ∉ d.clears) →
      (∃ d ∈ s.detaches, q ∈ d.ended ∧ c ∉ d.clears) ∨ c ∈ d.clears ∧ c ∉ d'.clears := by
    rintro q c ⟨e, hmem, hq, hno⟩
    rw [hdetaches] at hmem
    rcases mem_or_eq_of_mem_set hmem with hmem | rfl
    · exact .inl ⟨e, hmem, hq, hno⟩
    · by_cases hc : c ∈ d.clears
      · exact .inr ⟨hc, hno⟩
      · exact .inl ⟨d, mem_iff_getElem?.mpr ⟨n, hd⟩, he ▸ hq, hc⟩
  refine ⟨fun q v hv hs => ?_, fun q v hv hq => ?_, fun q v hv hq => ?_, fun q v hv hq => ?_,
    fun q v hv hq q' v' r' ho => ?_⟩ <;> rw [hpulls] at hv
  · rw [hf.files]
    exact h.placed q v hv hs
  · rw [hf.files]
    rcases hq with hs | hq
    · exact h.unlanded q v hv (.inl hs)
    · rcases hback hq with hq | ⟨hin, hout⟩
      · exact h.unlanded q v hv (.inr hq)
      · exact hland q v hin hout hv
  · rw [NoTemps, hf.files]
    rcases hq with hs | hq
    · exact h.untemped q v hv (.inl hs)
    · rcases hback hq with hq | ⟨hin, hout⟩
      · exact h.untemped q v hv (.inr hq)
      · exact htemps q v hin hout hv
  · rw [hf.files]
    exact h.completed q v hv ((hcompleted q).mp hq)
  · exact h.apart q v hv ((hcompleted q).mp hq) q' v' r' (ho.congr hpulls.symm ht.symm)

end VibeField.Native.FileTransfer
