import VibeField.Base.Slots
import VibeField.Native.PullTable

/-!
# The tasks and the teardowns

A pull without a row is done.  A row is of a task that is at work, or one that a teardown took; a
teardown ends the rows it took, each after its task is done.
-/

namespace VibeField.Native.FileTransfer

open List Option Dict

variable {Root : Type} {s s' : State Root} {p q n : Nat} {u u' v : Pull Root} {r : Running Root}
  {d : Detach}

def Clear.pull : Clear → Nat
  | .landed p | .temps p => p

/-- A teardown ends rows of tasks that were taken, each done before its files are removed. -/
structure Tearing (s : State Root) (d : Detach) : Prop where
  ended : ∀ p ∈ d.ended, ∃ u r, Own s p u r ∧ r.taken = true
  aborts : ∀ p ∈ d.aborts, p ∈ d.ended
  joins : ∀ p ∈ d.joins, Clear.landed p ∈ d.clears ∧ Clear.temps p ∈ d.clears
  clears : ∀ c ∈ d.clears, c.pull ∈ d.ended
  joined : ∀ (p : Nat) (u : Pull Root), p ∈ d.ended → p ∉ d.joins → s.pulls[p]? = some u →
    u.stage = .done

structure Worked (s : State Root) : Prop where
  idle : ∀ (p : Nat) (u : Pull Root), s.pulls[p]? = some u →
    u.stage = .done ∨ ∃ r, Own s p u r
  free : ∀ (p : Nat) (u : Pull Root) (r : Running Root), Own s p u r → r.taken = false →
    u.stage ≠ .done ∧ u.aborted = false
  held : ∀ (p : Nat) (u : Pull Root) (r : Running Root), Own s p u r → r.taken = true →
    ∃ d ∈ s.detaches, p ∈ d.ended
  tearing : ∀ d ∈ s.detaches, Tearing s d
  one : (s.detaches.flatMap Detach.ended).Nodup

/-! ## One pull changes -/

/-- Only pull `p` changes, and it stays the pull of its params. -/
structure Mod (s s' : State Root) (p : Nat) (u u' : Pull Root) : Prop where
  old : s.pulls[p]? = some u
  new : s'.pulls[p]? = some u'
  rest : ∀ q, q ≠ p → s'.pulls[q]? = s.pulls[q]?
  params : u'.params = u.params

theorem mod_modify {f : Pull Root → Pull Root} (hu : s.pulls[p]? = some u)
    (hpulls : s'.pulls = s.pulls.modify p f) (hf : (f u).params = u.params) :
    Mod s s' p u (f u) where
  old := hu
  new := by
    rw [hpulls, List.getElem?_modify_eq, hu]
    rfl
  rest q hq := by rw [hpulls, List.getElem?_modify_ne _ _ (Ne.symm hq)]
  params := hf

theorem Mod.keeps (hm : Mod s s' p u u') : Keeps s s' := by
  intro q v hv
  by_cases hq : q = p
  · subst hq
    cases hm.old.symm.trans hv
    exact ⟨u', hm.new, hm.params⟩
  · exact ⟨v, by rw [hm.rest q hq, hv], rfl⟩

theorem Mod.cases (hm : Mod s s' p u u') (hv : s'.pulls[q]? = some v) :
    (q = p ∧ v = u') ∨ (q ≠ p ∧ s.pulls[q]? = some v) := by
  by_cases hq : q = p
  · subst hq
    exact .inl ⟨rfl, some.inj (hv.symm.trans hm.new)⟩
  · exact .inr ⟨hq, by rw [← hm.rest q hq, hv]⟩

theorem Mod.own_iff (hm : Mod s s' p u u') (ht : s'.table = s.table) :
    Own s' q v r ↔ (q = p ∧ v = u' ∧ Own s p u r) ∨ (q ≠ p ∧ Own s q v r) := by
  constructor
  · rintro ⟨hv, hr, hsame⟩
    rw [ht] at hr
    rcases hm.cases hv with ⟨rfl, rfl⟩ | ⟨hq, hv⟩
    · exact .inl ⟨rfl, rfl, hm.old, hm.params ▸ hr, hsame⟩
    · exact .inr ⟨hq, hv, hr, hsame⟩
  · rintro (⟨rfl, rfl, ho⟩ | ⟨hq, ho⟩)
    · refine ⟨hm.new, ?_, ho.same⟩
      rw [ht, hm.params]
      exact ho.row
    · refine ⟨?_, ?_, ho.same⟩
      · rw [hm.rest q hq]
        exact ho.pull
      · rw [ht]
        exact ho.row

/-- A task that moves, or stays as it was. -/
def Moves (s : State Root) (p : Nat) (u u' : Pull Root) : Prop :=
  u'.stage = u.stage ∨ u.stage ≠ .done ∧ (u'.stage = .done → ∀ r, Own s p u r → r.taken = true)

theorem Tearing.mod (h : Tearing s d) (hm : Mod s s' p u u') (ht : s'.table = s.table)
    (hstage : Moves s p u u') : Tearing s' d where
  __ := h
  ended q hq := by
    obtain ⟨v, r, ho, htaken⟩ := h.ended q hq
    by_cases he : q = p
    · subst he
      cases ho.eq_pull hm.old
      exact ⟨u', r, (hm.own_iff ht).mpr (.inl ⟨rfl, rfl, ho⟩), htaken⟩
    · exact ⟨v, r, (hm.own_iff ht).mpr (.inr ⟨he, ho⟩), htaken⟩
  joined q v hq hjoins hv := by
    rcases hm.cases hv with ⟨rfl, rfl⟩ | ⟨-, hv⟩
    · have hdone := h.joined q u hq hjoins hm.old
      rcases hstage with heq | ⟨hne, -⟩
      · exact heq.trans hdone
      · exact absurd hdone hne
    · exact h.joined q v hq hjoins hv

theorem Worked.mod (h : Worked s) (hm : Mod s s' p u u') (ht : s'.table = s.table)
    (hd : s'.detaches = s.detaches) (hstage : Moves s p u u')
    (haborted : u'.aborted = u.aborted ∨ ∀ r, Own s p u r → r.taken = true) : Worked s' := by
  refine ⟨fun q v hv => ?_, fun q v r ho htaken => ?_, fun q v r ho htaken => ?_, ?_, ?_⟩
  · rcases hm.cases hv with ⟨rfl, rfl⟩ | ⟨hq, hv⟩
    · rcases h.idle q u hm.old with hdone | ⟨r, ho⟩
      · rcases hstage with heq | ⟨hne, -⟩
        · exact .inl (heq.trans hdone)
        · exact absurd hdone hne
      · exact .inr ⟨r, (hm.own_iff ht).mpr (.inl ⟨rfl, rfl, ho⟩)⟩
    · exact (h.idle q v hv).imp id fun ⟨r, ho⟩ => ⟨r, (hm.own_iff ht).mpr (.inr ⟨hq, ho⟩)⟩
  · rcases (hm.own_iff ht).mp ho with ⟨rfl, rfl, ho⟩ | ⟨-, ho⟩
    · obtain ⟨hne, hno⟩ := h.free q u r ho htaken
      have huntaken : ¬∀ r, Own s q u r → r.taken = true := fun hall => by
        rw [hall r ho] at htaken
        cases htaken
      refine ⟨fun hdone => ?_, (haborted.resolve_right huntaken).trans hno⟩
      rcases hstage with heq | ⟨-, hall⟩
      · exact hne (heq.symm.trans hdone)
      · exact huntaken (hall hdone)
    · exact h.free q v r ho htaken
  · rw [hd]
    rcases (hm.own_iff ht).mp ho with ⟨rfl, rfl, ho⟩ | ⟨-, ho⟩
    · exact h.held q u r ho htaken
    · exact h.held q v r ho htaken
  · rw [hd]
    exact fun d hmem => (h.tearing d hmem).mod hm ht hstage
  · rw [hd]
    exact h.one

/-! ## Rows that come and go -/

def Pull.new (params : NativeFileTransferPullParams Root) (now : Instant) : Pull Root where
  params := params
  activity := now
  stage := .starting
  aborted := false
  temps := []

theorem Accepted.own_iff {params : NativeFileTransferPullParams Root} {now : Instant}
    (ha : Accepted s s' params now) : Own s' q v r ↔
      (q = s.pulls.length ∧ v = .new params now ∧ r = .new s.pulls.length params) ∨
        Own s q v r := by
  obtain ⟨hid, -, -, rfl⟩ := ha
  constructor
  · rintro ⟨hv, hr, hsame⟩
    rw [lookup_insert] at hr
    rcases getElem?_snoc.mp hv with hv | ⟨rfl, rfl⟩
    · split at hr
      · cases hr
        have hlt := (List.getElem?_eq_some_iff.mp hv).1
        exact absurd hsame.symm (Nat.ne_of_lt hlt)
      · exact .inr ⟨hv, hr, hsame⟩
    · rw [if_pos rfl] at hr
      cases hr
      exact .inl ⟨rfl, rfl, rfl⟩
  · rintro (⟨rfl, rfl, rfl⟩ | ⟨hv, hr, hsame⟩)
    · refine ⟨List.getElem?_concat_length, ?_, rfl⟩
      rw [lookup_insert]
      exact if_pos rfl
    · refine ⟨getElem?_snoc.mpr (.inl hv), ?_, hsame⟩
      rw [lookup_insert, if_neg, hr]
      intro he
      rw [he, hid] at hr
      cases hr

theorem Worked.accept {params : NativeFileTransferPullParams Root} {now : Instant} (h : Worked s)
    (ha : Accepted s s' params now) : Worked s' := by
  have hown : ∀ {q v r}, Own s' q v r ↔ _ := fun {q v r} => ha.own_iff (q := q) (v := v) (r := r)
  obtain ⟨-, -, -, heq⟩ := ha
  have hd : s'.detaches = s.detaches := by rw [heq]
  have hpulls : s'.pulls = s.pulls ++ [.new params now] := by rw [heq]; rfl
  refine ⟨fun q v hv => ?_, fun q v r ho htaken => ?_, fun q v r ho htaken => ?_, ?_, ?_⟩
  · rw [hpulls] at hv
    rcases getElem?_snoc.mp hv with hv | ⟨rfl, rfl⟩
    · exact (h.idle q v hv).imp id fun ⟨r, ho⟩ => ⟨r, hown.mpr (.inr ho)⟩
    · exact .inr ⟨_, hown.mpr (.inl ⟨rfl, rfl, rfl⟩)⟩
  · rcases hown.mp ho with ⟨rfl, rfl, rfl⟩ | ho
    · exact ⟨by rintro ⟨⟩, rfl⟩
    · exact h.free q v r ho htaken
  · rw [hd]
    rcases hown.mp ho with ⟨rfl, rfl, rfl⟩ | ho
    · cases htaken
    · exact h.held q v r ho htaken
  · rw [hd]
    intro d hmem
    have htear := h.tearing d hmem
    refine ⟨fun q hq => ?_, htear.aborts, htear.joins, htear.clears, fun q v hq hjoins hv => ?_⟩
    · obtain ⟨v, r, ho, htaken⟩ := htear.ended q hq
      exact ⟨v, r, hown.mpr (.inr ho), htaken⟩
    · rw [hpulls] at hv
      rcases getElem?_snoc.mp hv with hv | ⟨rfl, rfl⟩
      · exact htear.joined q v hq hjoins hv
      · obtain ⟨w, r, ho, -⟩ := htear.ended _ hq
        exact absurd (List.getElem?_eq_some_iff.mp ho.pull).1 (Nat.lt_irrefl _)
  · rw [hd]
    exact h.one

/-! ## A teardown -/

theorem own_detach : Own s.detach q v r ↔
    ∃ r', Own s q v r' ∧ r = { r' with taken := true } := by
  constructor
  · rintro ⟨hv, hr, hsame⟩
    rw [State.detach, lookup_mapVals] at hr
    obtain ⟨r', hr', rfl⟩ := map_eq_some_iff.mp hr
    exact ⟨r', ⟨hv, hr', hsame⟩, rfl⟩
  · rintro ⟨r', ⟨hv, hr, hsame⟩, rfl⟩
    refine ⟨hv, ?_, hsame⟩
    rw [State.detach, lookup_mapVals, hr]
    rfl

theorem mem_untaken (ht : Tabled s) : p ∈ s.untaken ↔ ∃ u r, Own s p u r ∧ r.taken = false := by
  rw [State.untaken, List.mem_map]
  simp only [mem_filter, mem_values, Bool.not_eq_true']
  constructor
  · rintro ⟨r, ⟨⟨id, hr⟩, htaken⟩, rfl⟩
    obtain ⟨u, -, ho⟩ := ht.own hr
    exact ⟨u, r, ho, htaken⟩
  · rintro ⟨u, r, ho, htaken⟩
    exact ⟨r, ⟨⟨_, ho.row⟩, htaken⟩, ho.same⟩

theorem nodup_untaken (ht : Tabled s) : s.untaken.Nodup := by
  rw [State.untaken]
  refine (List.Sublist.nodup (filter_sublist.map _)) (nodup_map_values ?_)
  intro id id' r r' hr hr' hsame
  obtain ⟨u, hid, ho⟩ := ht.own hr
  obtain ⟨u', hid', ho'⟩ := ht.own hr'
  rw [← hsame] at ho'
  rw [← hid, ← hid', ho'.eq_pull ho.pull]

theorem Worked.detach (h : Worked s) (ht : Tabled s) : Worked s.detach := by
  have hpulls : s.detach.pulls = s.pulls := rfl
  refine ⟨fun q v hv => ?_, fun q v r ho htaken => ?_, fun q v r ho htaken => ?_, ?_, ?_⟩
  · exact (h.idle q v hv).imp id fun ⟨r, ho⟩ => ⟨_, own_detach.mpr ⟨r, ho, rfl⟩⟩
  · obtain ⟨r', -, rfl⟩ := own_detach.mp ho
    cases htaken
  · obtain ⟨r', ho', rfl⟩ := own_detach.mp ho
    cases htaken' : r'.taken with
    | false =>
      exact ⟨_, mem_append_right _ mem_cons_self,
        (mem_untaken ht).mpr ⟨v, r', ho', htaken'⟩⟩
    | true =>
      obtain ⟨d, hmem, hq⟩ := h.held q v r' ho' htaken'
      exact ⟨d, mem_append_left _ hmem, hq⟩
  · intro d hmem
    rcases mem_snoc.mp hmem with hmem | hmem
    · have htear := h.tearing d hmem
      refine ⟨fun q hq => ?_, htear.aborts, htear.joins, htear.clears, htear.joined⟩
      obtain ⟨v, r, ho, -⟩ := htear.ended q hq
      exact ⟨v, _, own_detach.mpr ⟨r, ho, rfl⟩, rfl⟩
    · cases hmem
      refine ⟨fun q hq => ?_, fun _ hq => hq, fun q hq => ?_, fun c hc => ?_,
        fun q v hq hjoins => absurd hq hjoins⟩
      · obtain ⟨v, r, ho, -⟩ := (mem_untaken ht).mp hq
        exact ⟨v, _, own_detach.mpr ⟨r, ho, rfl⟩, rfl⟩
      · exact ⟨mem_flatMap.mpr ⟨q, hq, mem_cons_self⟩,
          mem_flatMap.mpr ⟨q, hq, mem_cons_of_mem _ mem_cons_self⟩⟩
      · obtain ⟨q, hq, hc⟩ := mem_flatMap.mp hc
        rcases mem_cons.mp hc with rfl | hc
        · exact hq
        · cases mem_singleton.mp hc
          exact hq
  · show ((s.detaches ++ [_]).flatMap Detach.ended).Nodup
    rw [flatMap_append, flatMap_singleton]
    refine nodup_append.mpr ⟨h.one, nodup_untaken ht, ?_⟩
    rintro p hp q hq rfl
    obtain ⟨d, hmem, hp⟩ := mem_flatMap.mp hp
    obtain ⟨v, r, ho, htaken⟩ := (h.tearing d hmem).ended p hp
    obtain ⟨v', r', ho', hfree⟩ := (mem_untaken ht).mp hq
    cases ho'.eq_pull ho.pull
    rw [some.inj (ho'.row.symm.trans ho.row), htaken] at hfree
    cases hfree

theorem Own.leave_iff (ho : Own s p u r) (hm : Mod s s' p u u')
    (htable : s'.table = s.table.erase u.params.transferId) {r' : Running Root} :
    Own s' q v r' ↔ q ≠ p ∧ Own s q v r' := by
  constructor
  · rintro ⟨hv, hr, hsame⟩
    rw [htable, lookup_erase] at hr
    split at hr
    · cases hr
    · rename_i hne
      rcases hm.cases hv with ⟨rfl, rfl⟩ | ⟨hq, hv⟩
      · exact absurd (congrArg _ hm.params) hne
      · exact ⟨hq, hv, hr, hsame⟩
  · rintro ⟨hq, hv, hr, hsame⟩
    refine ⟨by rw [hm.rest q hq]; exact hv, ?_, hsame⟩
    rw [htable, lookup_erase, if_neg, hr]
    intro hid
    rw [hid, ho.row] at hr
    cases hr
    exact hq (hsame.symm.trans ho.same)

theorem Worked.finish (h : Worked s) (ho : Own s p u r) (htaken : r.taken = false)
    (hm : Mod s s' p u u') (hdone : u'.stage = .done)
    (htable : s'.table = s.table.erase u.params.transferId) (hd : s'.detaches = s.detaches) :
    Worked s' := by
  have hown : ∀ {q v r'}, Own s' q v r' ↔ q ≠ p ∧ Own s q v r' := ho.leave_iff hm htable
  refine ⟨fun q v hv => ?_, fun q v r' ho' => h.free q v r' (hown.mp ho').2,
    fun q v r' ho' htaken' => ?_, ?_, ?_⟩
  · rcases hm.cases hv with ⟨rfl, rfl⟩ | ⟨hq, hv⟩
    · exact .inl hdone
    · exact (h.idle q v hv).imp id fun ⟨r', ho'⟩ => ⟨r', hown.mpr ⟨hq, ho'⟩⟩
  · rw [hd]
    exact h.held q v r' (hown.mp ho').2 htaken'
  · rw [hd]
    intro d hmem
    have htear := h.tearing d hmem
    have hne : ∀ q ∈ d.ended, q ≠ p := by
      rintro q hq rfl
      obtain ⟨v, r', ho', htaken'⟩ := htear.ended q hq
      cases ho'.eq_pull ho.pull
      rw [some.inj (ho.row.symm.trans ho'.row), htaken'] at htaken
      cases htaken
    refine ⟨fun q hq => ?_, htear.aborts, htear.joins, htear.clears, fun q v hq hjoins hv => ?_⟩
    · obtain ⟨v, r', ho', htaken'⟩ := htear.ended q hq
      exact ⟨v, r', hown.mpr ⟨hne q hq, ho'⟩, htaken'⟩
    · rcases hm.cases hv with ⟨rfl, rfl⟩ | ⟨-, hv⟩
      · exact hdone
      · exact htear.joined q v hq hjoins hv
  · rw [hd]
    exact h.one

/-! ## A teardown goes on -/

variable {d' : Detach}

theorem flatMap_set_same (he : d'.ended = d.ended) :
    ∀ (l : List Detach) (n : Nat), l[n]? = some d →
      (l.set n d').flatMap Detach.ended = l.flatMap Detach.ended := by
  intro l
  induction l with
  | nil => intro n hd; cases hd
  | cons c l ih =>
    intro n hd
    cases n with
    | zero =>
      cases hd
      rw [set_cons_zero, flatMap_cons, flatMap_cons, he]
    | succ n =>
      rw [set_cons_succ, flatMap_cons, flatMap_cons, ih n hd]

theorem perm_flatMap_set (he : d.ended = p :: d'.ended) :
    ∀ (l : List Detach) (n : Nat), l[n]? = some d →
      (l.flatMap Detach.ended).Perm (p :: (l.set n d').flatMap Detach.ended) := by
  intro l
  induction l with
  | nil => intro n hd; cases hd
  | cons c l ih =>
    intro n hd
    cases n with
    | zero =>
      cases hd
      rw [set_cons_zero, flatMap_cons, flatMap_cons, he, cons_append]
    | succ n =>
      rw [set_cons_succ, flatMap_cons, flatMap_cons]
      exact ((ih n hd).append_left c.ended).trans perm_middle

theorem Own.congr (ho : Own s p u r) (hpulls : s'.pulls = s.pulls) (ht : s'.table = s.table) :
    Own s' p u r := ⟨by rw [hpulls]; exact ho.pull, by rw [ht]; exact ho.row, ho.same⟩

theorem Tearing.congr (h : Tearing s d) (hpulls : s'.pulls = s.pulls)
    (ht : s'.table = s.table) : Tearing s' d where
  __ := h
  ended q hq := by
    obtain ⟨v, r, ho, htaken⟩ := h.ended q hq
    exact ⟨v, r, ho.congr hpulls ht, htaken⟩
  joined := by
    rw [hpulls]
    exact h.joined

theorem Worked.setDetach (h : Worked s) (hd : s.detaches[n]? = some d)
    (hpulls : s'.pulls = s.pulls) (ht : s'.table = s.table)
    (hdetaches : s'.detaches = s.detaches.set n d') (he : d'.ended = d.ended)
    (htear : Tearing s d') : Worked s' := by
  have hback : ∀ {q v r}, Own s' q v r → Own s q v r := fun ho =>
    ho.congr hpulls.symm ht.symm
  refine ⟨fun q v hv => ?_, fun q v r ho => h.free q v r (hback ho), fun q v r ho htaken => ?_,
    ?_, ?_⟩
  · rw [hpulls] at hv
    exact (h.idle q v hv).imp id fun ⟨r, ho⟩ => ⟨r, ho.congr hpulls ht⟩
  · obtain ⟨c, hmem, hq⟩ := h.held q v r (hback ho) htaken
    obtain ⟨m, hm⟩ := mem_iff_getElem?.mp hmem
    have hlt := (List.getElem?_eq_some_iff.mp hd).1
    rw [hdetaches]
    by_cases hmn : m = n
    · subst hmn
      cases hm.symm.trans hd
      refine ⟨d', mem_iff_getElem?.mpr ⟨m, ?_⟩, he ▸ hq⟩
      rw [List.getElem?_set_self hlt]
    · refine ⟨c, mem_iff_getElem?.mpr ⟨m, ?_⟩, hq⟩
      rw [List.getElem?_set_ne (Ne.symm hmn)]
      exact hm
  · rw [hdetaches]
    intro c hmem
    rcases mem_or_eq_of_mem_set hmem with hmem | rfl
    · exact (h.tearing c hmem).congr hpulls ht
    · exact htear.congr hpulls ht
  · rw [hdetaches, flatMap_set_same he _ n hd]
    exact h.one

theorem Worked.leave (h : Worked s) (hd : s.detaches[n]? = some d)
    (he : d.ended = p :: d'.ended) (hparts : d.joins = [] ∧ d'.aborts = [] ∧ d'.joins = [] ∧
      d'.clears = []) (ho : Own s p u r) (hpulls : s'.pulls = s.pulls)
    (htable : s'.table = s.table.erase u.params.transferId)
    (hdetaches : s'.detaches = s.detaches.set n d') : Worked s' := by
  have hm : Mod s s' p u u := ⟨ho.pull, by rw [hpulls]; exact ho.pull, fun q _ => by rw [hpulls],
    rfl⟩
  have hown : ∀ {q v r'}, Own s' q v r' ↔ q ≠ p ∧ Own s q v r' := ho.leave_iff hm htable
  have hmem : d ∈ s.detaches := mem_iff_getElem?.mpr ⟨n, hd⟩
  have hperm := perm_flatMap_set he s.detaches n hd
  have hnodup := nodup_cons.mp (hperm.nodup_iff.mp h.one)
  obtain ⟨hj, ha', hj', hc'⟩ := hparts
  have hdone : u.stage = .done :=
    (h.tearing d hmem).joined p u (by rw [he]; exact mem_cons_self)
    (by rw [hj]; exact not_mem_nil) ho.pull
  refine ⟨fun q v hv => ?_, fun q v r' ho' => h.free q v r' (hown.mp ho').2,
    fun q v r' ho' htaken' => ?_, ?_, ?_⟩
  · rw [hpulls] at hv
    by_cases hq : q = p
    · subst hq
      cases ho.eq_pull hv
      exact .inl hdone
    · exact (h.idle q v hv).imp id fun ⟨r', ho'⟩ => ⟨r', hown.mpr ⟨hq, ho'⟩⟩
  · obtain ⟨hq, ho'⟩ := hown.mp ho'
    obtain ⟨c, hc, hqc⟩ := h.held q v r' ho' htaken'
    rw [hdetaches]
    have hmemq : q ∈ s.detaches.flatMap Detach.ended := mem_flatMap.mpr ⟨c, hc, hqc⟩
    rcases mem_cons.mp (hperm.mem_iff.mp hmemq) with heq | hmemq
    · exact absurd heq hq
    · exact mem_flatMap.mp hmemq
  · rw [hdetaches]
    intro c hc
    have hne : ∀ q ∈ c.ended, q ≠ p := by
      rintro q hq rfl
      exact hnodup.1 (mem_flatMap.mpr ⟨c, hc, hq⟩)
    have hended : ∀ q ∈ c.ended, (∃ v r, Own s q v r ∧ r.taken = true) →
        ∃ v r, Own s' q v r ∧ r.taken = true := by
      rintro q hq ⟨v, r', ho', htaken'⟩
      exact ⟨v, r', hown.mpr ⟨hne q hq, ho'⟩, htaken'⟩
    rcases mem_or_eq_of_mem_set hc with hc | rfl
    · have htear := h.tearing c hc
      refine ⟨fun q hq => hended q hq (htear.ended q hq), htear.aborts, htear.joins, htear.clears,
        ?_⟩
      rw [hpulls]
      exact htear.joined
    · have htear := h.tearing d hmem
      refine ⟨fun q hq => hended q hq (htear.ended q ?_), ?_, ?_, ?_, fun q v hq _ hv => ?_⟩
      · rw [he]
        exact mem_cons_of_mem _ hq
      · rw [ha']
        exact fun _ hq => by cases hq
      · rw [hj']
        exact fun _ hq => by cases hq
      · rw [hc']
        exact fun _ hq => by cases hq
      · rw [hpulls] at hv
        refine htear.joined q v ?_ ?_ hv
        · rw [he]
          exact mem_cons_of_mem _ hq
        · rw [hj]
          exact not_mem_nil
  · rw [hdetaches]
    exact hnodup.2

end VibeField.Native.FileTransfer
