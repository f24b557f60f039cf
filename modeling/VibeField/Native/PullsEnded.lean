import VibeField.Native.PullSteps

/-!
# Every pull ends once and truthfully

In every orderly run each pull has one end, and what the end says is so.
-/

namespace VibeField.Native.FileTransfer

open List Option Dict

section Steps

variable {Root : Type} {s s' : State Root} {p n : Nat} {u : Pull Root} {r : Running Root}

/-! ## Reports, snapshots and sweeps -/

theorem Inv.active (h : Inv s) (p : Nat) (now : Instant) :
    Inv { s with pulls := s.pulls.modify p fun u => { u with activity := now } } := by
  cases hu : s.pulls[p]? with
  | none =>
    have hsame : s.pulls.modify p (fun u => { u with activity := now }) = s.pulls := by
      rw [List.modify_eq_set_getElem?, hu]
      rfl
    rw [hsame]
    exact h
  | some u =>
    have ha := alone_modify (s := s) (f := fun u => { u with activity := now }) hu rfl rfl
    exact ⟨ha.tabled h.tabled, h.worked.mod ha.toMod rfl rfl (.inl rfl) (.inl rfl),
      h.filed.mod ha.toMod rfl rfl ha.toSameFiles (fun hs => h.filed.placed p u hu hs)
        (fun hs => h.filed.unlanded p u hu (.inl hs))
        (fun hs => h.filed.untemped p u hu (.inl hs)), ha.swept h.swept rfl, ha.told h.told⟩

theorem Inv.touch (now : Instant) : ∀ (rows : List (Running Root)) (s : State Root), Inv s →
    Inv { s with pulls := State.touch s.pulls now rows } := by
  intro rows
  induction rows with
  | nil => exact fun s h => h
  | cons r rows ih => exact fun s h => ih _ (h.active r.pull now)

theorem Told.no_end (h : Told s) (ho : Own s p u r) : ∀ o ∈ s.sent, o.ends p = false := by
  intro o hmem
  have hzero := countP_eq_zero.mp (h.live p ⟨u, r, ho⟩) o hmem
  exact Bool.eq_false_iff.mpr hzero

theorem sameRows_modify {id : FileTransferId} {f : Running Root → Running Root}
    (hpulls : s'.pulls = s.pulls) (ht : s'.table = s.table.modify id f)
    (hpull : ∀ r, (f r).pull = r.pull) (htaken : ∀ r, (f r).taken = r.taken) : SameRows s s' where
  pulls := hpulls
  forth := by
    rintro p u r ⟨hu, hr, hsame⟩
    by_cases hid : u.params.transferId = id
    · refine ⟨f r, ⟨by rw [hpulls, hu], ?_, (hpull r).trans hsame⟩, htaken r⟩
      rw [ht, lookup_modify, if_pos hid, hr]
      rfl
    · refine ⟨r, ⟨by rw [hpulls, hu], ?_, hsame⟩, rfl⟩
      rw [ht, lookup_modify, if_neg hid, hr]
  back := by
    rintro p u r' ⟨hu, hr, hsame⟩
    rw [hpulls] at hu
    rw [ht, lookup_modify] at hr
    split at hr
    · obtain ⟨r, hr', rfl⟩ := map_eq_some_iff.mp hr
      exact ⟨r, ⟨hu, hr', (hpull r).symm.trans hsame⟩, htaken r⟩
    · exact ⟨r', ⟨hu, hr, hsame⟩, rfl⟩

theorem key_modify {id id' : FileTransferId} {f : Running Root → Running Root}
    (hf : ∀ r, (f r).key = r.key) :
    ((s.table.modify id f).lookup id').map Running.key = (s.table.lookup id').map Running.key := by
  rw [lookup_modify]
  split
  · rw [Option.map_map]
    exact congrArg (fun g => Option.map g _) (funext hf)
  · rfl

theorem Inv.noteRow (h : Inv s) (ho : Own s p u r) (bytes total : Nat) (now : Instant) :
    Inv (s.noteRow r bytes total now) := by
  have hr : SameRows s (s.noteRow r bytes total now) :=
    sameRows_modify (f := Running.note (progressDue r.lastSent now) bytes total now) rfl rfl
      (fun _ => rfl) fun _ => rfl
  have htabled : Tabled (s.noteRow r bytes total now) :=
    h.tabled.congr (.refl rfl) (fun _ => key_modify fun _ => rfl) rfl (len_modify ..)
  have hworked := h.worked.same hr rfl
  have hswept := h.swept.same hr rfl
  cases hdue : progressDue r.lastSent now with
  | false =>
    have hsent : (s.noteRow r bytes total now).sent = s.sent := by
      rw [State.noteRow, hdue]
      exact append_nil _
    exact ⟨htabled, hworked, h.filed.same hr rfl rfl fun _ => completed_congr hsent, hswept,
      h.told.same hr hsent⟩
  | true =>
    have hsent : (s.noteRow r bytes total now).sent =
        s.sent ++ [.progress r.pull r.row.transferId bytes total] := by
      rw [State.noteRow, hdue]
      rfl
    refine ⟨htabled, hworked, h.filed.same hr rfl rfl fun q => ?_, hswept,
      h.told.say hr hsent (fun _ => rfl) (by rintro q ⟨⟩) ?_⟩
    · exact (completed_snoc hsent).trans (or_iff_left (by rintro ⟨⟩))
    · rw [ho.same]
      exact h.told.no_end ho

theorem Inv.report (h : Inv s) (fileName : List Char) (bytes total : Nat) (now : Instant) :
    Inv (s.report fileName bytes total now) := by
  have h1 := Inv.touch now (s.table.values.filter fun r => r.fileName = fileName) s h
  rw [State.report]
  split
  · rename_i r heq
    rw [heq] at h1 ⊢
    have hmem : r ∈ s.table.values.filter fun r => r.fileName = fileName := by
      rw [heq]
      exact mem_cons_self
    obtain ⟨id, hid⟩ := mem_values.mp (mem_filter.mp hmem).1
    obtain ⟨u, -, ho⟩ := h1.tabled.own (r := r) hid
    exact h1.noteRow ho bytes total now
  · exact h1

theorem Inv.fits_rows (h : Inv s) : s.Fits s.sent (.snapshot s.rows) := by
  intro p u hu haccepted hends
  by_cases hrowed : Rowed s p
  · obtain ⟨v, r, ho⟩ := hrowed
    cases ho.eq_pull hu
    refine ⟨r.row, ?_, (h.tabled.row _ r ho.row).1⟩
    rw [State.rows, mem_mergeSort]
    exact List.mem_map_of_mem (mem_values.mpr ⟨_, ho.row⟩)
  · have hone := h.told.gone p (List.getElem?_eq_some_iff.mp hu).1 hrowed
    have hzero : s.sent.countP (Sent.ends p) = 0 :=
      countP_eq_zero.mpr fun o ho hend => by
        rw [hends o ho] at hend
        cases hend
    rw [hzero] at hone
    cases hone

theorem Inv.snapshot (h : Inv s) : Inv s.snapshot := by
  have hr : SameRows s s.snapshot := sameRows_of_eq rfl rfl
  refine ⟨h.tabled.congr (.refl rfl) (fun _ => rfl) rfl rfl, h.worked.same hr rfl,
    h.filed.same hr rfl rfl fun q => ?_, h.swept.same hr rfl,
    h.told.say hr rfl (fun _ => rfl) (by rintro q ⟨⟩) h.fits_rows⟩
  exact (completed_snoc (o := .snapshot s.rows) rfl).trans (or_iff_left (by rintro ⟨⟩))

theorem Inv.sweep (h : Inv s) (root : Root) : Inv (s.sweep root) := by
  have hr : SameRows s (s.sweep root) := sameRows_of_eq rfl rfl
  exact ⟨h.tabled.congr (.refl rfl) (fun _ => rfl) rfl rfl, h.worked.same hr rfl,
    h.filed.same hr rfl rfl fun _ => Iff.rfl, h.swept.sweep h.tabled root, h.told.same hr rfl⟩

theorem Inv.attach (h : Inv s) : Inv { s with attached := true } := by
  have hr : SameRows s { s with attached := true } := sameRows_of_eq rfl rfl
  exact ⟨h.tabled.congr (.refl rfl) (fun _ => rfl) rfl rfl, h.worked.same hr rfl,
    h.filed.same hr rfl rfl fun _ => Iff.rfl, h.swept.same hr rfl, h.told.same hr rfl⟩

/-! ## Pulls that come, and teardowns -/

theorem rowed_detach : Rowed s.detach p ↔ Rowed s p := by
  constructor
  · rintro ⟨u, r, ho⟩
    obtain ⟨r', ho', -⟩ := own_detach.mp ho
    exact ⟨u, r', ho'⟩
  · rintro ⟨u, r, ho⟩
    exact ⟨u, _, own_detach.mpr ⟨r, ho, rfl⟩⟩

theorem Inv.detach (h : Inv s) : Inv s.detach := by
  refine ⟨h.tabled.congr (.refl rfl) (fun id => ?_) rfl (len_mapVals ..),
    h.worked.detach h.tabled, h.filed.detach, h.swept.congr rfl fun q v hv =>
      .inr ⟨v, hv, rfl, rfl, rowed_detach.mp⟩,
    h.told.congr rfl rfl (fun _ u' _ hu => ⟨u', hu, rfl⟩) fun _ => rowed_detach⟩
  rw [State.detach, lookup_mapVals, Option.map_map]
  rfl

theorem Inv.accept {params : NativeFileTransferPullParams Root} {now : Instant} (h : Inv s)
    (ha : Accepted s s' params now)
    (hfresh : ∀ (q : Nat) (v : Pull Root), s.pulls[q]? = some v → Completed s q →
      v.file ≠ (params.root, landedName params.digest params.transferId)) : Inv s' := by
  have hown : ∀ {q v r}, Own s' q v r ↔ _ := fun {q v r} => ha.own_iff (q := q) (v := v) (r := r)
  have hpulls : s'.pulls = s.pulls ++ [.new params now] := by rw [ha.eq]; rfl
  have hrowed : ∀ q, q < s.pulls.length → (Rowed s' q ↔ Rowed s q) := by
    intro q hq
    constructor
    · rintro ⟨v, r, ho⟩
      rcases hown.mp ho with ⟨rfl, -, -⟩ | ho
      · exact absurd hq (Nat.lt_irrefl _)
      · exact ⟨v, r, ho⟩
    · rintro ⟨v, r, ho⟩
      exact ⟨v, r, hown.mpr (.inr ho)⟩
  have hback : ∀ (q : Nat) (v : Pull Root), q < s.pulls.length → s'.pulls[q]? = some v →
      s.pulls[q]? = some v := by
    intro q v hq hv
    rw [hpulls] at hv
    exact (getElem?_snoc.mp hv).resolve_right fun he => Nat.ne_of_lt hq he.1
  have hlen : s'.pulls.length = s.pulls.length + 1 := by
    rw [hpulls, length_append, length_singleton]
  have hknown : ∀ q, Completed s q → q < s.pulls.length := by
    rintro q ⟨o, ho, hc⟩
    refine h.told.known o ho q (.inl ?_)
    cases o <;> first | exact hc | cases hc
  refine ⟨h.tabled.accept ha, h.worked.accept ha, h.filed.accept h.worked ha hknown hfresh,
    h.swept.congr (by rw [ha.eq]) fun q v hv => ?_,
    h.told.snoc (o := .accepted s.pulls.length) (by rw [ha.eq]) (by rw [hlen]; exact Nat.le_succ _)
      (fun q v hq hv => ⟨v, hback q v hq hv, rfl⟩) (fun q hq => ?_) (fun q hge hlt => ?_)
      (by rintro q ⟨⟩) (fun q hq => ?_) trivial⟩
  · rw [hpulls] at hv
    rcases getElem?_snoc.mp hv with hv | ⟨-, rfl⟩
    · exact .inr ⟨v, hv, rfl, rfl, (hrowed q (List.getElem?_eq_some_iff.mp hv).1).mp⟩
    · exact .inl rfl
  · rw [hrowed q hq]
    exact (and_iff_left rfl).symm
  · have hq : q = s.pulls.length := by omega
    exact ⟨_, _, hown.mpr (.inl ⟨hq, rfl, rfl⟩)⟩
  · cases hq
    rw [hlen]
    exact Nat.lt_succ_self _

end Steps

/-! ## Every step -/

section Run

theorem inv_start {Root : Type} (files : List (Root × FileName)) : Inv (State.start files) := by
  have hno : ∀ {p u r}, ¬Own (State.start files) p u r := fun ho => by cases ho.row
  refine ⟨⟨fun _ _ hr => (by cases hr), fun id digest => ⟨fun hd => (by cases hd), ?_⟩,
      Nat.zero_le _⟩,
    ⟨fun _ _ hu => (by cases hu), fun _ _ _ ho => absurd ho hno, fun _ _ _ ho => absurd ho hno,
      fun _ hd => (by cases hd), nodup_nil⟩,
    ⟨fun _ _ hu => (by cases hu), fun _ _ hu => (by cases hu), fun _ _ hu => (by cases hu),
      fun _ _ hu => (by cases hu), fun _ _ hu => (by cases hu)⟩,
    ⟨fun _ _ hu => (by cases hu), fun _ _ _ ho => absurd ho hno,
      fun _ _ hout => absurd hout Tasks.not_outstanding_nil⟩,
    ⟨fun _ ⟨_, _, ho⟩ => absurd ho hno, fun _ hp => (by cases hp), fun _ ho => (by cases ho),
      fun before o after heq => ?_⟩⟩
  · rintro ⟨r, hr, -⟩
    cases hr
  · cases before <;> cases heq

variable {Root : Type} [DecidableEq Root] {s s' : State Root} {p n : Nat} {u : Pull Root}
  {e : Event Root} {idle : Nat}

theorem Inv.sweepOn (h : Inv s) {i : Sweep Root} (hhead : s.sweeps.head n = some i)
    (done : Bool) : Inv (s.sweepOn n done i) := by
  have hswept := h.swept.sweepOn hhead done
  cases i with
  | read root running =>
    have hr : SameRows s (s.sweepOn n done (.read root running)) := sameRows_of_eq rfl rfl
    exact ⟨h.tabled.congr (.refl rfl) (fun _ => rfl) rfl rfl, h.worked.same hr rfl,
      h.filed.same hr rfl rfl fun _ => Iff.rfl, hswept, h.told.same hr rfl⟩
  | remove root name =>
    have hsuffix := h.swept.removes root name (Tasks.outstanding_head hhead)
    have hr : SameRows s (s.sweepOn n done (.remove root name)) := sameRows_of_eq rfl rfl
    refine ⟨h.tabled.congr (.refl rfl) (fun _ => rfl) rfl rfl, h.worked.same hr rfl,
      h.filed.removeSuffixed ⟨rfl, rfl, rfl, rfl⟩ (fun f hmem => ?_) (fun f hmem hno => ?_), hswept,
      h.told.same hr rfl⟩
    · cases done with
      | true => exact (mem_removeFile.mp hmem).1
      | false => exact hmem
    · cases done with
      | true =>
        refine mem_removeFile.mpr ⟨hmem, ?_⟩
        rintro rfl
        rw [hsuffix] at hno
        cases hno
      | false => exact hmem

theorem Inv.step (h : Inv s) (hok : Orderly s e) (hs : s.step idle e = some s') : Inv s' := by
  cases e with
  | attach =>
    cases hs
    exact h.attach
  | detach =>
    cases hs
    exact h.detach
  | pull params now =>
    have haccept : s.pull params now = .ok s' := by
      have htoption : (s.pull params now).toOption = some s' := hs
      cases hpull : s.pull params now with
      | ok t =>
        rw [hpull] at htoption
        cases htoption
        rfl
      | error failure =>
        rw [hpull] at htoption
        cases htoption
    exact h.accept (accepted_of_pull haccept) hok
  | begin p folder =>
    obtain ⟨u, hu, hs⟩ := bind_eq_some_iff.mp hs
    cases hst : u.stage <;> rw [hst] at hs <;> cases hs
    exact h.begin hu (by rw [hst]; rintro ⟨⟩) folder
  | write p token =>
    obtain ⟨u, hu, hs⟩ := bind_eq_some_iff.mp hs
    cases hst : u.stage <;> rw [hst] at hs <;> try cases hs
    have hwrite : (if token = [] then none else some (s.write p u token)) = some s' := hs
    split at hwrite
    · cases hwrite
    · rename_i htoken
      cases hwrite
      exact h.write hu hst htoken (hok u hu)
  | place p name =>
    obtain ⟨u, hu, hs⟩ := bind_eq_some_iff.mp hs
    cases hst : u.stage <;> rw [hst] at hs <;> try cases hs
    have hplace : (if (u.params.root, name) ∈ s.files ∧ isTempOf name u.landed then
        some (s.place u name) else none) = some s' := hs
    split at hplace
    · rename_i hname
      cases hplace
      exact h.place hu hst hname.2
    · cases hplace
  | resolve p outcome =>
    obtain ⟨u, hu, hs⟩ := bind_eq_some_iff.mp hs
    cases hst : u.stage <;> rw [hst] at hs <;> cases hs
    exact h.resolve hu (by rw [hst]; rintro ⟨⟩) outcome
  | idle p now =>
    obtain ⟨u, hu, hs⟩ := bind_eq_some_iff.mp hs
    cases hst : u.stage <;> rw [hst] at hs <;> try cases hs
    have hidle : (if now ≥ u.activity + idle then some (s.resolve p u _) else none) = some s' := hs
    split at hidle
    · cases hidle
      exact h.resolve hu (by rw [hst]; rintro ⟨⟩) _
    · cases hidle
  | settle p removed =>
    obtain ⟨u, hu, hs⟩ := bind_eq_some_iff.mp hs
    cases hst : u.stage <;> rw [hst] at hs <;> cases hs
    exact h.settle hu hst fun failure he => hok u failure hu (by rw [hst, he])
  | clear p left =>
    obtain ⟨u, hu, hs⟩ := bind_eq_some_iff.mp hs
    cases hst : u.stage <;> rw [hst] at hs <;> cases hs
    exact h.clear hu hst fun failure he => hok u failure hu (by rw [hst, he])
  | finish p =>
    obtain ⟨u, hu, hs⟩ := bind_eq_some_iff.mp hs
    cases hst : u.stage <;> rw [hst] at hs <;> cases hs
    exact h.finish hu hst
  | drop p =>
    obtain ⟨u, hu, hs⟩ := bind_eq_some_iff.mp hs
    have hdrop : u.stage ≠ .done ∧
        (if u.aborted then some (s.setStage p .done) else none) = some s' := by
      cases hst : u.stage <;> rw [hst] at hs <;> first
        | exact ⟨by rintro ⟨⟩, hs⟩
        | cases hs
    obtain ⟨hne, hdrop⟩ := hdrop
    split at hdrop
    · rename_i haborted
      cases hdrop
      exact h.drop hu hne haborted
    · cases hdrop
  | teardown n removed left =>
    obtain ⟨d, hd, hs⟩ := bind_eq_some_iff.mp hs
    exact h.teardown hd hok hs
  | report fileName bytes total now =>
    cases hs
    exact h.report fileName bytes total now
  | lag now =>
    cases hs
    exact Inv.touch now _ s h
  | snapshot =>
    cases hs
    exact h.snapshot
  | sweep root =>
    cases hs
    exact h.sweep root
  | sweepOn n done =>
    obtain ⟨i, hhead, rfl⟩ := map_eq_some_iff.mp hs
    exact h.sweepOn hhead done

theorem inv_reaches {files : List (Root × FileName)} (h : (machine idle files).Reaches Orderly s) :
    Inv s :=
  Machine.Reaches.invariant (P := Inv) (inv_start files)
    (fun _ _ _ hinv hok hs => hinv.step hok hs) h

end Run

/-! ## What the invariant says -/

section Says

variable {Root : Type} {s s' : State Root} {p n : Nat} {u : Pull Root} {o : Sent Root}
  {ended : List Nat}

theorem Inv.truthful (h : Inv s) : Truthful s where
  ends p hp := by
    by_cases hr : Rowed s p
    · rw [h.told.live p hr]
      refine ⟨Nat.zero_le 1, fun hstill => ?_⟩
      obtain ⟨u, r, ho⟩ := hr
      cases htaken : r.taken with
      | false =>
        have hne := (h.worked.free p u r ho htaken).1
        exact absurd (hstill.1 u (mem_iff_getElem?.mpr ⟨p, ho.pull⟩)) hne
      | true =>
        obtain ⟨d, hmem, hin⟩ := h.worked.held p u r ho htaken
        rw [hstill.2 d hmem] at hin
        cases hin
    · rw [h.told.gone p hp hr]
      exact ⟨Nat.le_refl 1, fun _ => rfl⟩
  completed := h.filed.completed
  order := h.told.order
  rows id r hr := (h.tabled.row id r hr).1
  digests := h.tabled.digests
  bound := h.tabled.bound

theorem mem_sent_finish {outcome : Outcome} (h : o ∈ (s.finish p u outcome).sent) :
    o ∈ s.sent ∨ o = State.endOf p u outcome := by
  rw [State.finish] at h
  split at h
  · exact .inl h
  · split at h
    · exact .inl h
    · exact mem_append.mp h |>.imp id mem_singleton.mp

theorem files_finish (s : State Root) (p : Nat) (u : Pull Root) (outcome : Outcome) :
    (s.finish p u outcome).files = s.files := by
  rw [State.finish]
  split
  · rfl
  · split <;> rfl

theorem mem_sent_endRow (h : o ∈ (s.endRow p).sent) :
    o ∈ s.sent ∨ ∃ u, o = State.endOf p u (.error State.failureNodeDown) := by
  rw [State.endRow] at h
  split at h
  · exact .inl h
  · split at h
    · exact .inl h
    · exact mem_append.mp h |>.imp id fun hmem => ⟨_, mem_singleton.mp hmem⟩

theorem files_endRow (s : State Root) (p : Nat) : (s.endRow p).files = s.files := by
  rw [State.endRow]
  split
  · rfl
  · split <;> rfl

theorem mem_sent_endRows : ∀ {ended : List Nat} {s : State Root},
    o ∈ (ended.foldl State.endRow s).sent →
    o ∈ s.sent ∨ ∃ p ∈ ended, ∃ u, o = State.endOf p u (.error State.failureNodeDown) := by
  intro ended
  induction ended with
  | nil => exact fun h => .inl h
  | cons p ended ih =>
    intro s h
    rcases ih h with h | ⟨q, hq, hend⟩
    · exact (mem_sent_endRow h).imp id fun hend => ⟨p, mem_cons_self, hend⟩
    · exact .inr ⟨q, mem_cons_of_mem _ hq, hend⟩

theorem files_endRows : ∀ (ended : List Nat) (s : State Root),
    (ended.foldl State.endRow s).files = s.files := by
  intro ended
  induction ended with
  | nil => exact fun _ => rfl
  | cons p ended ih => exact fun s => (ih _).trans (files_endRow s p)

theorem Inv.gone (h : Inv s) (hu : s.pulls[p]? = some u) (hland : Unlanded s p u)
    (htemps : Untemped s p u) (hfiles : s'.files = s.files) : s'.Gone u := by
  refine ⟨?_, fun name hname => ?_⟩
  · rw [hfiles]
    exact h.filed.unlanded p u hu hland
  · rw [hfiles]
    exact h.filed.untemped p u hu htemps name hname

/-- A step that sends a failure is a task's last, or a teardown's. -/
inductive Fails (s s' : State Root) : Prop where
  | none (h : ∀ o ∈ s'.sent, o ∈ s.sent ∨ ∀ p, o.fails p = false)
  | finish (p : Nat) (u : Pull Root) (outcome : Outcome) (hu : s.pulls[p]? = some u)
      (hstage : u.stage = .ending outcome) (he : s' = s.finish p u outcome)
  | ended (n : Nat) (ended : List Nat)
      (hd : s.detaches[n]? = some { aborts := [], joins := [], clears := [], ended })
      (he : s' = (ended.foldl State.endRow s).setDetach n
        { aborts := [], joins := [], clears := [], ended := [] })

theorem Fails.same (h : s'.sent = s.sent) : Fails s s' := .none fun _ ho => .inl (h ▸ ho)

theorem Fails.gone (hf : Fails s s') (h : Inv s) (hu : s.pulls[p]? = some u)
    (hnew : ∃ o ∈ s'.sent, o.fails p = true) (hold : ∀ o ∈ s.sent, o.fails p = false) :
    s'.Gone u := by
  obtain ⟨o, ho, hfails⟩ := hnew
  have hno : o ∉ s.sent := fun hmem => by
    rw [hold o hmem] at hfails
    cases hfails
  cases hf with
  | none hnone =>
    rw [(hnone o ho).resolve_left hno p] at hfails
    cases hfails
  | finish q v outcome hv hstage he =>
    subst he
    obtain rfl := (mem_sent_finish ho).resolve_left hno
    obtain ⟨rfl, failure, rfl⟩ := fails_endOf hfails
    cases hu.symm.trans hv
    exact h.gone hu (.inl (by rw [hstage]; rfl)) (.inl (by rw [hstage]; rfl))
      (files_finish s p u _)
  | ended n ended hd he =>
    subst he
    obtain ⟨q, hq, v, rfl⟩ := (mem_sent_endRows ho).resolve_left hno
    obtain ⟨rfl, -⟩ := fails_endOf hfails
    have hmem := mem_iff_getElem?.mpr ⟨n, hd⟩
    exact h.gone hu (.inr ⟨_, hmem, hq, not_mem_nil⟩) (.inr ⟨_, hmem, hq, not_mem_nil⟩)
      (files_endRows ended s)

theorem Inv.spares (h : Inv s) {root : Root} {name : FileName}
    (hhead : s.sweeps.head n = some (.remove root name)) {id : FileTransferId} {r : Running Root}
    (hr : s.table.lookup id = some r) (hu : s.pulls[r.pull]? = some u)
    (hroot : u.params.root = root) : name ∉ u.temps := by
  intro hname
  obtain ⟨v, -, ho⟩ := h.tabled.own hr
  cases ho.eq_pull hu
  subst hroot
  exact (h.swept.spared _ u r ho name hname).2 (Tasks.outstanding_head hhead)

theorem fails_report (s : State Root) (fileName : List Char) (bytes total : Nat) (now : Instant) :
    Fails s (s.report fileName bytes total now) := by
  rw [State.report]
  split
  · refine .none fun o ho => ?_
    refine (mem_append.mp ho).imp id fun hmem => ?_
    split at hmem
    · rw [mem_singleton.mp hmem]
      exact fun _ => rfl
    · cases hmem
  · exact .same rfl

variable [DecidableEq Root] {e : Event Root} {idle : Nat}

theorem sent_settle (s : State Root) (p : Nat) (u : Pull Root) (removed : Bool)
    (outcome : Outcome) : (s.settle p u removed outcome).sent = s.sent := by
  unfold State.settle
  split
  · rfl
  · split <;> rfl

theorem fails_task (hu : s.pulls[p]? = some u) (hs : s.task idle p u e u.stage = some s') :
    Fails s s' := by
  cases hstage : u.stage with
  | ending outcome =>
    rw [hstage] at hs
    cases e <;> cases hs
    exact .finish p u outcome hu hstage rfl
  | starting =>
    rw [hstage] at hs
    cases e with
    | begin q folder =>
      cases hs
      cases folder <;> exact .same rfl
    | drop q =>
      obtain ⟨-, ⟨⟩⟩ := ite_none_right_eq_some.mp hs
      exact .same rfl
    | _ => cases hs
  | pulling =>
    rw [hstage] at hs
    cases e with
    | write q token =>
      obtain ⟨-, ⟨⟩⟩ := ite_none_left_eq_some.mp hs
      exact .same rfl
    | place q name =>
      obtain ⟨-, ⟨⟩⟩ := ite_none_right_eq_some.mp hs
      exact .same rfl
    | resolve q outcome =>
      cases hs
      exact .same rfl
    | idle q now =>
      obtain ⟨-, ⟨⟩⟩ := ite_none_right_eq_some.mp hs
      exact .same rfl
    | drop q =>
      obtain ⟨-, ⟨⟩⟩ := ite_none_right_eq_some.mp hs
      exact .same rfl
    | _ => cases hs
  | settling outcome =>
    rw [hstage] at hs
    cases e <;> cases hs
    exact .same (sent_settle ..)
  | clearing outcome =>
    rw [hstage] at hs
    cases e <;> cases hs
    exact .same rfl
  | done =>
    rw [hstage] at hs
    cases e <;> cases hs

theorem fails_teardown {d : Detach} {removed : Bool} {left : List FileName}
    (hd : s.detaches[n]? = some d) (hs : s.teardown n removed left d = some s') : Fails s s' := by
  unfold State.teardown at hs
  split at hs
  · cases hs
    exact .same rfl
  · split at hs
    · cases hs
      exact .same rfl
    · cases hs
  · rename_i c clears ended
    cases hs
    refine .same ?_
    cases c <;> rw [State.clearOn] <;> split <;> first | rfl | (split <;> rfl)
  · cases hs
  · rename_i ended _
    cases hs
    exact .ended n ended hd rfl

theorem fails_step (hs : s.step idle e = some s') : Fails s s' := by
  cases e with
  | attach | detach | lag now | sweep root =>
    cases hs
    exact .same rfl
  | pull params now =>
    have htoption : (s.pull params now).toOption = some s' := hs
    cases hpull : s.pull params now with
    | error failure =>
      rw [hpull] at htoption
      cases htoption
    | ok t =>
      rw [hpull] at htoption
      cases htoption
      refine .none fun o ho => ?_
      rw [(accepted_of_pull hpull).eq] at ho
      refine (mem_append.mp ho).imp id fun hmem => ?_
      rw [mem_singleton.mp hmem]
      exact fun _ => rfl
  | teardown n removed left =>
    obtain ⟨d, hd, hs⟩ := bind_eq_some_iff.mp hs
    exact fails_teardown hd hs
  | report fileName bytes total now =>
    cases hs
    exact fails_report s fileName bytes total now
  | snapshot =>
    cases hs
    refine .none fun o ho => (mem_append.mp ho).imp id fun hmem => ?_
    rw [mem_singleton.mp hmem]
    exact fun _ => rfl
  | sweepOn n done =>
    obtain ⟨i, -, rfl⟩ := map_eq_some_iff.mp hs
    cases i <;> exact .same rfl
  | _ =>
    obtain ⟨u, hu, hs⟩ := bind_eq_some_iff.mp hs
    exact fails_task hu hs

theorem Inv.truthfulStep (h : Inv s) (hs : s.step idle e = some s') : TruthfulStep s s' e where
  failed _ _ hu hnew hold := (fails_step hs).gone h hu hnew hold
  swept _ _ _ _ hhead _ _ _ hr hu hroot := h.spares hhead hr hu hroot

end Says

/-! ## The claims -/

/-- In every orderly run the pulls end once and truthfully, and a step sends and removes only what
it may. -/
theorem pulls_truthful (Root : Type) [DecidableEq Root] (idle : Nat)
    (files : List (Root × FileName)) :
    (∀ s, (machine idle files).Reaches Orderly s → Truthful s) ∧
      ∀ s e s', (machine idle files).Reaches Orderly s → Orderly s e →
        (machine idle files).next s e = some s' → TruthfulStep s s' e :=
  ⟨fun _ hr => (inv_reaches hr).truthful, fun _ _ _ hr _ hs => (inv_reaches hr).truthfulStep hs⟩

def zeroPull : NativeFileTransferPullParams Unit where
  transferId := ⟨List.replicate 26 '0', by decide⟩
  peer := "peer"
  root := ()
  path := ['a', '/', 'b']
  digest := ⟨List.replicate 64 '0', by decide⟩

def zeroLanded : FileName := landedName zeroPull.digest zeroPull.transferId

def zeroTemp : FileName := zeroLanded ++ '.' :: (['t'] ++ tempSuffix)

set_option maxRecDepth 20000 in
/-- A pull that lands is told completed, and its file is in place. -/
theorem pulls_truthful_landed : ∃ s : State Unit, (∃ o ∈ s.sent, o.completes 0 = true) ∧
    Truthful s ∧ TruthfulStep s s.snapshot .snapshot := by
  have hattached : (machine 5 ([] : List (Unit × FileName))).Reaches Orderly _ :=
    .next (e := .attach) .start trivial rfl
  have hpulled := hattached.next (e := .pull zeroPull 0) (by intro p u hu; cases hu) rfl
  have hbegun := hpulled.next (e := .begin 0 none) (by trivial) rfl
  have hwritten := hbegun.next (e := .write 0 ['t'])
    (by exact fun u _ =>
      ⟨fun _ hout => absurd hout Tasks.not_outstanding_nil, Tasks.not_outstanding_nil⟩) rfl
  have hplaced := hwritten.next (e := .place 0 zeroTemp) (by trivial) rfl
  have hanswered := hplaced.next (e := .resolve 0 (.ok ⟨3, List.replicate 64 '0'⟩)) (by trivial) rfl
  have hsettled := hanswered.next (e := .settle 0 true) (by exact fun _ _ _ _ => rfl) rfl
  have hcleared := hsettled.next (e := .clear 0 []) (by intro _ _ _ _ _ hmem; cases hmem) rfl
  have hdone := hcleared.next (e := .finish 0) (by trivial) rfl
  exact ⟨_, ⟨_, mem_append_right _ mem_cons_self, rfl⟩,
    (pulls_truthful Unit 5 []).1 _ hdone, (pulls_truthful Unit 5 []).2 _ _ _ hdone trivial rfl⟩

set_option maxRecDepth 20000 in
/-- A sweep that listed the running pulls before one was accepted removes what that one writes. -/
theorem pulls_swept : ¬((∀ s : State Unit, (machine 5 []).Reachable s → Truthful s) ∧
    ∀ (s : State Unit) e s', (machine 5 []).Reachable s → (machine 5 []).next s e = some s' →
      TruthfulStep s s' e) := by
  rintro ⟨-, hall⟩
  have hattached := Machine.Reachable.next (e := Event.attach)
    (Machine.Reaches.start (M := machine 5 ([] : List (Unit × FileName)))) rfl
  have hlisted := hattached.next (e := .sweep ()) rfl
  have hpulled := hlisted.next (e := .pull zeroPull 0) rfl
  have hbegun := hpulled.next (e := .begin 0 none) rfl
  have hwritten := hbegun.next (e := .write 0 ['t']) rfl
  have hread := hwritten.next (e := .sweepOn 0 true) rfl
  have hstep := hall _ (.sweepOn 0 true) _ hread rfl
  exact hstep.swept 0 () zeroTemp rfl rfl zeroPull.transferId _ _ rfl rfl rfl mem_cons_self

end VibeField.Native.FileTransfer
