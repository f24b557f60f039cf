import VibeField.Native.SegmentKept

/-!
# The log of a segment writer

What a call completes stays in the files, once and in order, until retention deletes the file it is
in; and a writer that no lock of a live process keeps away works again after any failure.
-/

namespace VibeField.Native

open List

def WriterCall.lines : WriterCall → List LogLine
  | .append lines => lines
  | _ => []

namespace SegmentWriter

open Prog

variable {w t u : SegmentWriter} {opts : SegmentWriterOptions}

/-! ## Errors before a line is written -/

/-- No line was completed. -/
def Fresh (e : WriterError) : Prop := e.completedRecords = 0

theorem fresh_io {α : Type} {op : WriterOperation} {p : Step α} : FailsWith Fresh (io op p) :=
  failsWith_mapErr fun _ => rfl

theorem fresh_now : FailsWith Fresh (now : Task Nat) :=
  fun _ => now_meets.imp (fun _ _ _ => trivial) (fun _ _ h => h.elim) (fun _ h => h.elim)

theorem fresh_unlock : FailsWith Fresh unlock :=
  fun _ => unlock_meets.imp (fun _ _ _ => trivial) (fun _ _ h => h.elim) (fun _ _ => trivial)

theorem fresh_readClosed {dir : List Segment} : FailsWith Fresh (readClosed dir) := by
  induction dir with
  | nil => exact failsWith_pure
  | cons segment rest ih =>
    unfold readClosed
    refine fresh_io.bind fun _ => ih.bind fun read => ?_
    dsimp only
    split
    · refine fresh_now.bind fun _ => ?_
      split <;> exact failsWith_pure
    · exact failsWith_pure

theorem fresh_removeSegments {remove : List (List Char)} {closed : List ClosedSegment}
    {deletions : Nat} : FailsWith Fresh (removeSegments remove closed deletions) := by
  induction closed generalizing deletions with
  | nil => exact failsWith_pure
  | cons segment rest ih =>
    unfold removeSegments
    split
    · exact fresh_io.bind fun _ => failsWith_modify.bind fun _ => ih
    · exact ih

theorem fresh_cleanup : FailsWith Fresh (cleanup opts) := by
  unfold cleanup
  exact fresh_now.bind fun _ => fresh_io.bind fun _ => failsWith_get.bind fun _ =>
    fresh_readClosed.bind fun _ => fresh_removeSegments

theorem fresh_nextClosedLoop {reason : List Char} {n : Nat} :
    FailsWith Fresh (nextClosedLoop opts reason n) := by
  induction n with
  | zero => exact failsWith_fail rfl
  | succ n ih =>
    unfold nextClosedLoop
    refine failsWith_modify.bind fun _ => fresh_now.bind fun _ => failsWith_get.bind fun _ =>
      fresh_io.bind fun _ => ?_
    split
    · exact ih
    · exact failsWith_pure

theorem fresh_reopen : FailsWith Fresh reopenAfterRotationFailure := by
  unfold reopenAfterRotationFailure
  refine failsWith_attempt.bind fun r => ?_
  cases r with
  | error e => exact failsWith_modify
  | ok value =>
    refine failsWith_modify.bind fun _ => failsWith_attempt.bind fun r => ?_
    cases r <;> exact failsWith_modify

theorem fresh_nextActive : FailsWith Fresh (nextActive opts) := by
  unfold nextActive
  refine failsWith_attempt.bind fun r => ?_
  cases r with
  | error e => exact failsWith_modify.bind fun _ => failsWith_fail rfl
  | ok value =>
    exact failsWith_modify.bind fun _ => fresh_io.bind fun _ => fresh_now.bind fun _ =>
      failsWith_modify.bind fun _ => fresh_cleanup

theorem fresh_rotate {reason : List Char} : FailsWith Fresh (rotate opts reason) := by
  unfold rotate
  refine failsWith_get.bind fun _ => ?_
  split
  · refine failsWith_modify.bind fun _ => fresh_nextClosedLoop.bind fun _ =>
      failsWith_attempt.bind fun r => ?_
    cases r with
    | error e => exact failsWith_modify.bind fun _ => failsWith_fail rfl
    | ok value =>
      refine failsWith_attempt.bind fun r => ?_
      cases r with
      | error e => exact fresh_reopen.bind fun _ => failsWith_fail rfl
      | ok value => exact fresh_nextActive
  · exact failsWith_fail rfl

theorem fresh_lockIsStale : FailsWith Fresh lockIsStale :=
  fun _ => lockIsStale_meets.imp (fun _ _ _ => trivial) (fun _ _ h => h.elim) (fun _ _ => trivial)

theorem fresh_acquireLoop {n : Nat} : FailsWith Fresh (acquireLoop n) := by
  induction n with
  | zero => exact failsWith_fail rfl
  | succ n ih =>
    unfold acquireLoop
    refine failsWith_attempt.bind fun r => ?_
    cases r with
    | ok value =>
      refine failsWith_attempt.bind fun r => ?_
      cases r with
      | error e => exact fresh_unlock.bind fun _ => failsWith_fail rfl
      | ok value => exact failsWith_modify
    | error e =>
      cases e with
      | alreadyExists =>
        refine fresh_lockIsStale.bind fun stale => ?_
        cases stale with
        | true => exact fresh_io.bind fun _ => ih
        | false => exact failsWith_fail rfl
      | _ => exact failsWith_fail rfl

theorem fresh_acquireLock : FailsWith Fresh acquireLock := by
  unfold acquireLock
  refine failsWith_get.bind fun _ => ?_
  split
  · exact failsWith_pure
  · exact fresh_acquireLoop

theorem fresh_openInner : FailsWith Fresh (openInner opts) := by
  unfold openInner openFile
  refine fresh_io.bind fun _ => fresh_acquireLock.bind fun _ => fresh_io.bind fun _ =>
    fresh_io.bind fun _ => fresh_io.bind fun _ => fresh_io.bind fun _ => fresh_now.bind fun _ =>
    failsWith_modify.bind fun _ => fresh_io.bind fun _ => failsWith_modify.bind fun _ => ?_
  split
  · exact failsWith_pure
  · exact fresh_rotate.bind fun _ => failsWith_pure

/-! ## Opening -/

/-- What every part of a call keeps, as long as it does not crash. -/
structure Carried (w t : SegmentWriter) : Prop where
  kept : Kept t
  free : w.unlocks = true → LockFree w → LockFree t
  unlocks : t.unlocks = w.unlocks
  quiet : w.cues = [] → t.cues = []

theorem Carried.trans (h : Carried w t) (h' : Carried t u) : Carried w u where
  kept := h'.kept
  free := fun hun hfree => h'.free (h.unlocks.trans hun) (h.free hun hfree)
  unlocks := h'.unlocks.trans h.unlocks
  quiet := fun hnil => h'.quiet (h.quiet hnil)

theorem Carried.noisy (h : Carried w t) (ht : t.cues ≠ []) : w.cues ≠ [] :=
  fun hnil => ht (h.quiet hnil)

theorem Env.carried (h : Env w t) (hk : Kept t) : Carried w t where
  __ := h
  kept := hk
  free := fun _ hfree => hfree.congr h.lock h.held h.alive

theorem endsWithNewline_meets {n : Nat} (hn : n = (w.active.getD []).length) :
    Meets w (endsWithNewline n)
      ⟨fun b t => Ticks w t ∧
          (b = true → w.active.getD [] = [] ∨ (w.active.getD []).getLast? = some 10),
        fun _ t => Ticks w t ∧ w.cues ≠ [], fun t => Ticks w t ∧ w.cues ≠ []⟩ := by
  unfold endsWithNewline
  split
  · next hzero =>
    refine meets_pure ⟨.refl, fun _ => Or.inl ?_⟩
    exact eq_nil_of_length_eq_zero (hn ▸ hzero)
  · refine step_meets.bind ?_ (fun _ _ h => h) (fun _ h => h)
    rintro ⟨⟩ t ht
    refine meets_get_bind (meets_pure ⟨ht, fun heq => Or.inr ?_⟩)
    rw [ht.active] at heq
    exact beq_iff_eq.mp heq

theorem Kept.whole (h : Kept w)
    (hend : w.active.getD [] = [] ∨ (w.active.getD []).getLast? = some 10) : Whole w := by
  obtain ⟨torn, hplain, heq⟩ := h.active
  have hnil : torn = [] := by
    rcases hend with hempty | hlast
    · rw [hempty] at heq
      exact (append_eq_nil_iff.mp heq.symm).2
    · by_contra hne
      rw [heq, List.getLast?_append_of_ne_nil _ hne] at hlast
      exact hplain (List.mem_of_getLast? hlast)
  rw [hnil, append_nil] at heq
  exact heq

def openPost (w : SegmentWriter) : Post SegmentWriter WriterError WriterResult where
  done r t := Carried w t ∧ t.log = w.log ∧ t.isOpen = true ∧ Whole t ∧ r.records = 0 ∧
    t.dir.length ≤ w.dir.length + 1
  failed _ t := Carried w t ∧ t.log = w.log ∧
    (w.cues = [] → LockFree w → LockOld w → 10000 ≤ w.dir.length)
  crashed t := Kept t ∧ t.log = w.log ∧ w.cues ≠ []

theorem whole_of_nil (hk : Kept w) (h : w.active.getD [] = []) : Whole w := hk.whole (Or.inl h)

theorem open_bind {α : Type} {op : WriterOperation} {p : Step α} {f : α → Task WriterResult}
    {R : Post SegmentWriter ErrorKind α} {w₀ : SegmentWriter} (hc : Carried w₀ w)
    (hlog : w.log = w₀.log) (hp : Meets w p R)
    (hdone : ∀ a t, R.done a t → Meets t (f a) (openPost w₀))
    (hfailed : ∀ e t, R.failed e t → Ticks w t ∧ w.cues ≠ [])
    (hcrashed : ∀ t, R.crashed t → Ticks w t ∧ w.cues ≠ []) :
    Meets w (io op p >>= f) (openPost w₀) := by
  refine Meets.bind (R := ⟨R.done, fun _ t => Ticks w t ∧ w.cues ≠ [],
    fun t => Ticks w t ∧ w.cues ≠ []⟩) (Meets.mapErr (hp.imp (fun _ _ h => h) hfailed hcrashed))
    hdone ?_ ?_
  · rintro e t ⟨ht, hnoisy⟩
    exact ⟨hc.trans (ht.files.env.carried (hc.kept.ticks ht)), ht.files.log.trans hlog,
      fun hnil => absurd hnil (hc.noisy hnoisy)⟩
  · rintro t ⟨ht, hnoisy⟩
    exact ⟨hc.kept.ticks ht, ht.files.log.trans hlog, hc.noisy hnoisy⟩

theorem openFile_meets {w₀ : SegmentWriter} (hc : Carried w₀ w) (hlog : w.log = w₀.log)
    (hdir : w.dir = w₀.dir) (hshut : w.isOpen = false) :
    Meets w (openFile opts) (openPost w₀) := by
  unfold openFile
  have hcarried : ∀ {t : SegmentWriter}, Files w t → t.isOpen = false → Carried w₀ t := by
    intro t ht ho
    exact hc.trans (ht.env.carried (hc.kept.files ht fun ho' => by cases ho.symm.trans ho'))
  refine open_bind hc hlog step_meets ?_ (fun _ _ h => h) (fun _ h => h)
  rintro ⟨⟩ t ht
  have hto : t.isOpen = false := ht.isOpen.trans hshut
  refine open_bind (hcarried ht.files hto) (ht.files.log.trans hlog) openPrivateAppend_meets ?_
    (fun _ _ h => h) (fun _ h => h)
  rintro ⟨⟩ u ⟨hu, huo, hsome⟩
  have hwu := ht.files.trans hu
  refine open_bind (hcarried hwu (huo.trans hto)) (hwu.log.trans hlog) step_meets ?_
    (fun _ _ h => h) (fun _ h => h)
  rintro ⟨⟩ v hv
  have hwv := hwu.trans hv.files
  have hvo : v.isOpen = false := hv.isOpen.trans (huo.trans hto)
  refine open_bind (hcarried hwv hvo) (hwv.log.trans hlog) activeLength_meets ?_
    (fun _ _ h => h) (fun _ h => h)
  rintro length x ⟨hx, hlength⟩
  refine now_bind fun time y hy => ?_
  refine meets_modify_bind ?_
  have hlast : Files y { y with activeBytes := length, activeDay := opts.utcDay time } :=
    ⟨rfl, rfl, rfl, rfl, rfl, rfl, rfl, rfl, rfl, rfl, rfl, id⟩
  have hwy := ((hwv.trans hx.files).trans hy.files).trans hlast
  have hyo : y.isOpen = false := hy.isOpen.trans (hx.isOpen.trans hvo)
  have hactive : y.active = v.active := hy.active.trans hx.active
  refine open_bind (hcarried hwy hyo) (hwy.log.trans hlog) (endsWithNewline_meets ?_) ?_
    (fun _ _ h => h) (fun _ h => h)
  · rw [hlength]
    exact congrArg (fun bytes : Option (List UInt8) => (bytes.getD []).length) hactive.symm
  rintro whole z ⟨hz, hwhole⟩
  refine meets_modify_bind ?_
  have hopen : Files z { z with isOpen := true } :=
    ⟨rfl, rfl, rfl, rfl, rfl, rfl, rfl, rfl, rfl, rfl, rfl, id⟩
  have hwz := (hwy.trans hz.files).trans hopen
  have hkz : Kept { z with isOpen := true } := by
    refine hc.kept.files hwz fun _ => ?_
    show z.active.isSome = true
    rw [hz.active]
    show y.active.isSome = true
    rw [hactive, hv.active]
    exact hsome
  have hcz : Carried w₀ { z with isOpen := true } := hc.trans (hwz.env.carried hkz)
  cases whole with
  | true =>
    refine meets_pure ⟨hcz, hwz.log.trans hlog, rfl, hkz.whole ?_, rfl, ?_⟩
    rotate_left
    · rw [hwz.dir, hdir]
      exact Nat.le_succ _
    show z.active.getD [] = [] ∨ (z.active.getD []).getLast? = some 10
    rw [hz.active]
    exact hwhole rfl
  | false =>
    refine (rotate_meets hkz rfl).bind ?_ ?_ ?_
    · rintro n q ⟨hkq, heq, hlq, hqo, hqa, hqd⟩
      rw [hwz.dir, hdir] at hqd
      refine meets_pure ⟨hcz.trans (heq.carried hkq), hlq.trans (hwz.log.trans hlog), hqo, ?_, rfl,
        hqd⟩
      refine whole_of_nil hkq ?_
      rw [hqa]
      rfl
    · rintro e q ⟨hq, hfull⟩
      refine ⟨hcz.trans (hq.env.carried hq.kept), hq.log.trans (hwz.log.trans hlog),
        fun hnil _ _ => ?_⟩
      have hle := hfull (hcz.quiet hnil)
      rw [hwz.dir, hdir] at hle
      exact hle
    · rintro q ⟨hkq, hlq, hnoisy⟩
      exact ⟨hkq, hlq.trans (hwz.log.trans hlog), hcz.noisy hnoisy⟩

theorem openInner_meets (hk : Kept w) (hshut : w.isOpen = false) :
    Meets w (openInner opts) (openPost w) := by
  unfold openInner
  refine open_bind (Env.refl.carried hk) rfl step_meets ?_ (fun _ _ h => h) (fun _ h => h)
  rintro ⟨⟩ t ht
  have hct : Carried w t := ht.files.env.carried (hk.ticks ht)
  refine acquireLock_meets.bind ?_ ?_ ?_
  · rintro ⟨⟩ u ⟨hu, -, hfree⟩
    have hcu : Carried w u := hct.trans
      ⟨hct.kept.locks hu, fun _ => hfree, hu.unlocks, hu.quiet⟩
    have hlog : u.log = w.log := hu.log.trans ht.files.log
    have hdir : u.dir = w.dir := hu.dir.trans ht.files.dir
    have huo : u.isOpen = false := hu.isOpen.trans (ht.isOpen.trans hshut)
    exact openFile_meets hcu hlog hdir huo
  · rintro e u ⟨hu, -, hfree, hquiet⟩
    refine ⟨hct.trans ⟨hct.kept.locks hu, hfree, hu.unlocks, hu.quiet⟩,
      hu.log.trans ht.files.log, fun hnil hwfree hold => ?_⟩
    refine absurd ⟨hwfree.congr ht.lock ht.held ht.locks.alive, ?_⟩ (hquiet (ht.locks.quiet hnil))
    unfold LockOld
    rw [ht.lock, ht.held, ht.locks.epoch]
    exact hold
  · rintro u ⟨hu, hc⟩
    exact ⟨hct.kept.locks hu, hu.log.trans ht.files.log, hct.noisy hc⟩

structure Ready (w : SegmentWriter) : Prop where
  kept : Kept w
  whole : w.isOpen = true → Whole w

theorem Carried.ready (h : Carried w t) (hwhole : t.isOpen = true → Whole t) : Ready t :=
  ⟨h.kept, hwhole⟩

theorem openLog_meets (h : Ready w) :
    Meets w (openLog opts)
      ⟨(openPost w).done, fun e t => (openPost w).failed e t ∧ t.isOpen = false ∧ Fresh e,
        (openPost w).crashed⟩ := by
  unfold openLog
  refine meets_get_bind ?_
  split
  · next hopen =>
    exact meets_pure ⟨Env.refl.carried h.kept, rfl, hopen, h.whole hopen, rfl, Nat.le_succ _⟩
  · next hshut =>
    refine attempt_bind ((openInner_meets h.kept (Bool.eq_false_iff.mpr hshut)).failsWith
      fresh_openInner) ?_ ?_ (fun _ h => h)
    · exact fun r t ht => meets_pure ht
    · rintro e t ⟨⟨hc, hlog, hquiet⟩, hfresh⟩
      unfold invalidateActive
      refine meets_modify_bind (meets_fail ⟨⟨?_, hlog, hquiet⟩, rfl, hfresh⟩)
      have hset : Files t { t with isOpen := false } :=
        ⟨rfl, rfl, rfl, rfl, rfl, rfl, rfl, rfl, rfl, rfl, rfl, id⟩
      refine hc.trans (hset.env.carried (hc.kept.files hset fun ho => ?_))
      cases ho

/-! ## Appending -/

theorem Passes.whole (h : Passes w t) (hwhole : Whole w) (ho : t.isOpen = true) : Whole t := by
  rcases h.standing ho with ⟨hnumber, hsame⟩ | hnil
  · unfold Whole
    rw [hsame, hnumber, h.log]
    exact hwhole
  · exact whole_of_nil h.kept hnil

theorem makeRoom_meets {line : LogLine} {result : WriterResult} (hk : Kept w)
    (hopen : w.isOpen = true) (hwhole : Whole w) :
    Meets w (makeRoom opts line result)
      ⟨fun r t => Carried w t ∧ t.log = w.log ∧ t.isOpen = true ∧ Whole t ∧
          r.records = result.records ∧ t.dir.length ≤ w.dir.length + 1,
        fun e t => Carried w t ∧ t.log = w.log ∧ (t.isOpen = true → Whole t) ∧
          e.completedRecords = result.records ∧ (w.cues = [] → 10000 ≤ w.dir.length),
        fun t => Kept t ∧ t.log = w.log ∧ w.cues ≠ []⟩ := by
  unfold makeRoom
  refine now_bind fun time t ht => ?_
  refine meets_get_bind ?_
  have hkt := hk.ticks ht
  have hwt : Whole t := by
    unfold Whole
    rw [ht.active, ht.files.number, ht.files.log]
    exact hwhole
  have hto : t.isOpen = true := ht.isOpen.trans hopen
  split
  · refine attempt_bind (rotate_meets hkt hto) ?_ ?_ ?_
    · rintro n u ⟨hku, heu, hlu, huo, hua, hud⟩
      rw [ht.files.dir] at hud
      refine meets_pure ⟨(ht.files.env.trans heu).carried hku, hlu.trans ht.files.log, huo, ?_, rfl,
        hud⟩
      refine whole_of_nil hku ?_
      rw [hua]
      rfl
    · rintro e u ⟨hu, hfull⟩
      refine meets_fail ⟨(ht.files.env.trans hu.env).carried hu.kept, hu.log.trans ht.files.log,
        hu.whole hwt, rfl, fun hnil => ?_⟩
      rw [← ht.files.dir]
      exact hfull (ht.files.quiet hnil)
    · rintro u ⟨hku, hlu, hc⟩
      exact ⟨hku, hlu.trans ht.files.log, ht.noisy hc⟩
  · exact meets_pure ⟨ht.files.env.carried hkt, ht.files.log, hto, hwt, rfl,
      ht.files.dir ▸ Nat.le_succ _⟩

/-- The log has grown by lines that were written in this order. -/
def Grew (w t : SegmentWriter) (lines : List LogLine) : Prop :=
  ∃ new, t.log = w.log ++ new ∧ new.map Prod.snd = lines

theorem Grew.of_same (h : t.log = w.log) : Grew w t [] := ⟨[], by rw [h, append_nil], rfl⟩

theorem Grew.trans {lines lines' : List LogLine} (h : Grew w t lines) (h' : Grew t u lines') :
    Grew w u (lines ++ lines') := by
  obtain ⟨new, hlog, rfl⟩ := h
  obtain ⟨new', hlog', rfl⟩ := h'
  exact ⟨new ++ new', by rw [hlog', hlog, append_assoc], map_append⟩

theorem writeAll_meets {line : LogLine} (hk : Kept w) (hopen : w.isOpen = true)
    (hwhole : Whole w) :
    Meets w (writeAll line)
      ⟨fun _ t => Kept t ∧ Env w t ∧ Grew w t [line] ∧ t.isOpen = true ∧ Whole t ∧ t.dir = w.dir,
        fun _ t => Kept t ∧ Env w t ∧ t.log = w.log ∧ w.cues ≠ [],
        fun t => Kept t ∧ (t.log = w.log ∨ Grew w t [line]) ∧ w.cues ≠ []⟩ := by
  unfold writeAll
  refine meets_get_bind ?_
  rw [if_pos hopen]
  refine cue_meets.bind ?_ (fun _ _ h => h.elim) (fun _ h => h.elim)
  rintro c t ⟨ht, hc⟩
  have hkt := hk.ticks ht
  have hwt : Whole t := by
    unfold Whole
    rw [ht.active, ht.files.number, ht.files.log]
    exact hwhole
  have hgrew : Grew w (t.putLine line) [line] := by
    refine ⟨[(t.number, line)], ?_, rfl⟩
    rw [← ht.files.log]
    rfl
  have henv : ∀ {bytes : List UInt8}, Env w (t.put bytes) :=
    ht.files.env.trans ⟨rfl, rfl, rfl, rfl, rfl, rfl, id⟩
  cases c with
  | ok =>
    refine meets_modify ⟨hkt.putLine hwt line,
      ht.files.env.trans ⟨rfl, rfl, rfl, rfl, rfl, rfl, id⟩, hgrew, ht.isOpen.trans hopen,
      hwt.putLine line, ht.files.dir⟩
  | fail kind bytes =>
    refine meets_modify_bind (meets_fail ⟨hkt.put hwt, henv, ht.files.log, fun hnil => ?_⟩)
    cases hc hnil
  | crash bytes =>
    have hnoisy : w.cues ≠ [] := fun hnil => by cases hc hnil
    dsimp only
    split
    · exact meets_modify_bind (meets_crash ⟨hkt.putLine hwt line, Or.inr hgrew, hnoisy⟩)
    · exact meets_modify_bind (meets_crash ⟨hkt.put hwt, Or.inl ht.files.log, hnoisy⟩)

def appendPost (w : SegmentWriter) (lines : List LogLine) (before : Nat) :
    Post SegmentWriter WriterError WriterResult where
  done r t := Carried w t ∧ Grew w t lines ∧ (t.isOpen = true → Whole t) ∧
    r.records = before + lines.length
  failed e t := Carried w t ∧ (t.isOpen = true → Whole t) ∧
    (∃ k ≤ lines.length, Grew w t (lines.take k) ∧ e.completedRecords = before + k) ∧
    (w.cues = [] → 10000 ≤ w.dir.length + lines.length)
  crashed t := Kept t ∧ (∃ k ≤ lines.length, Grew w t (lines.take k)) ∧ w.cues ≠ []

theorem appendFrom_meets {lines : List LogLine} {result : WriterResult} (hk : Kept w)
    (hopen : w.isOpen = true) (hwhole : Whole w) :
    Meets w (appendFrom opts lines result) (appendPost w lines result.records) := by
  induction lines generalizing w result with
  | nil =>
    unfold appendFrom
    exact meets_pure ⟨Env.refl.carried hk, .of_same rfl, fun _ => hwhole, rfl⟩
  | cons line rest ih =>
    unfold appendFrom
    refine (makeRoom_meets hk hopen hwhole).bind ?_ ?_ ?_
    · rintro r t ⟨hct, hlt, hto, hwt, hrt, hdt⟩
      refine attempt_bind (writeAll_meets hct.kept hto hwt) ?_ ?_ ?_
      · rintro ⟨⟩ u ⟨hku, heu, hgu, huo, hwu, hdu⟩
        refine meets_modify_bind ?_
        have hset : Files u { u with activeBytes := u.activeBytes + line.bytes.length } :=
          ⟨rfl, rfl, rfl, rfl, rfl, rfl, rfl, rfl, rfl, rfl, rfl, id⟩
        have hkset := hku.files hset hku.opened
        have hcu := hct.trans ((heu.trans hset.env).carried hkset)
        have hgw : Grew w u [line] := (Grew.of_same hlt).trans hgu
        refine (ih hkset huo hwu).imp ?_ ?_ ?_
        · rintro r' x ⟨hcx, hgx, hwx, hrx⟩
          refine ⟨hcu.trans hcx, hgw.trans hgx, hwx, ?_⟩
          rw [hrx, length_cons]
          show r.records + 1 + rest.length = result.records + (rest.length + 1)
          omega
        · rintro e x ⟨hcx, hwx, ⟨k, hk, hgx, hex⟩, hquiet⟩
          refine ⟨hcu.trans hcx, hwx, ⟨k + 1, ?_, ?_, ?_⟩, fun hnil => ?_⟩
          · rw [length_cons]
            omega
          · exact hgw.trans hgx
          · rw [hex]
            show r.records + 1 + k = result.records + (k + 1)
            omega
          · have hle := hquiet (hcu.quiet hnil)
            have hdir : ({ u with activeBytes := u.activeBytes + line.bytes.length } :
                SegmentWriter).dir = t.dir := hdu
            rw [hdir] at hle
            rw [length_cons]
            omega
        · rintro x ⟨hkx, ⟨k, hk, hgx⟩, hc⟩
          refine ⟨hkx, ⟨k + 1, ?_, hgw.trans hgx⟩, hcu.noisy hc⟩
          rw [length_cons]
          omega
      · rintro e u ⟨hku, heu, hlu, hc⟩
        unfold invalidateActive
        refine meets_modify_bind (meets_fail ⟨?_, ?_, ⟨0, Nat.zero_le _, ?_, hrt⟩, fun hnil =>
          absurd hnil (hct.noisy hc)⟩)
        · have hset : Files u { u with isOpen := false } :=
            ⟨rfl, rfl, rfl, rfl, rfl, rfl, rfl, rfl, rfl, rfl, rfl, id⟩
          refine hct.trans ((heu.trans hset.env).carried (hku.files hset fun ho => ?_))
          cases ho
        · intro ho
          cases ho
        · exact .of_same (hlu.trans hlt)
      · rintro u ⟨hku, hgu, hc⟩
        rcases hgu with hlu | hgu
        · exact ⟨hku, ⟨0, Nat.zero_le _, .of_same (hlu.trans hlt)⟩, hct.noisy hc⟩
        · refine ⟨hku, ⟨1, ?_, (Grew.of_same hlt).trans hgu⟩, hct.noisy hc⟩
          rw [length_cons]
          omega
    · rintro e t ⟨hct, hlt, hwt, het, hquiet⟩
      refine ⟨hct, hwt, ⟨0, Nat.zero_le _, .of_same hlt, het⟩, fun hnil => ?_⟩
      exact (hquiet hnil).trans (Nat.le_add_right _ _)
    · rintro t ⟨hkt, hlt, hc⟩
      exact ⟨hkt, ⟨0, Nat.zero_le _, .of_same hlt⟩, hc⟩

def callPost (w : SegmentWriter) (lines : List LogLine) :
    Post SegmentWriter WriterError WriterResult where
  done r t := Grew w t lines ∧ r.records = lines.length
  failed e t := ∃ k ≤ lines.length, Grew w t (lines.take k) ∧ e.completedRecords = k
  crashed t := ∃ k ≤ lines.length, Grew w t (lines.take k)

/-- The same, with what the next call finds. -/
def readyPost (w : SegmentWriter) (lines : List LogLine) (excuse : Prop) :
    Post SegmentWriter WriterError WriterResult where
  done r t := (callPost w lines).done r t ∧ Carried w t ∧ Ready t
  failed e t := (callPost w lines).failed e t ∧ Carried w t ∧ Ready t ∧ (w.cues = [] → excuse)
  crashed t := (callPost w lines).crashed t ∧ Kept t ∧ w.cues ≠ []

/-- What may keep a writer from opening its log, or from closing `n` segments. -/
def Hindered (w : SegmentWriter) (n : Nat) : Prop :=
  LockFree w → LockOld w → 10000 ≤ w.dir.length + n

theorem openLog_ready (h : Ready w) :
    Meets w (openLog opts) (readyPost w [] (Hindered w 0)) := by
  refine (openLog_meets h).imp ?_ ?_ ?_
  · rintro r t ⟨hc, hlog, -, hwhole, hr, -⟩
    exact ⟨⟨.of_same hlog, hr⟩, hc, hc.ready fun _ => hwhole⟩
  · rintro e t ⟨⟨hc, hlog, hquiet⟩, hshut, hfresh⟩
    refine ⟨⟨0, Nat.le_refl _, .of_same hlog, hfresh⟩, hc, hc.ready fun ho => ?_, hquiet⟩
    cases hshut.symm.trans ho
  · rintro t ⟨hk, hlog, hnoisy⟩
    exact ⟨⟨0, Nat.le_refl _, .of_same hlog⟩, hk, hnoisy⟩

theorem append_ready {lines : List LogLine} (h : Ready w) :
    Meets w (append opts lines) (readyPost w lines (Hindered w (lines.length + 1))) := by
  unfold append
  refine (openLog_meets h).bind ?_ ?_ ?_
  · rintro r t ⟨hc, hlog, hopen, hwhole, hr, hdir⟩
    have hsame : Grew w t [] := .of_same hlog
    refine (appendFrom_meets hc.kept hopen hwhole).imp ?_ ?_ ?_
    · rintro r' u ⟨hcu, hgu, hwu, hru⟩
      refine ⟨⟨hsame.trans hgu, ?_⟩, hc.trans hcu, (hc.trans hcu).ready hwu⟩
      rw [hru, hr, Nat.zero_add]
    · rintro e u ⟨hcu, hwu, ⟨k, hk, hgu, heu⟩, hquiet⟩
      refine ⟨⟨k, hk, hsame.trans hgu, ?_⟩, hc.trans hcu, (hc.trans hcu).ready hwu, ?_⟩
      · rw [heu, hr, Nat.zero_add]
      · intro hnil _ _
        have hle := hquiet (hc.quiet hnil)
        omega
    · rintro u ⟨hku, ⟨k, hk, hgu⟩, hnoisy⟩
      exact ⟨⟨k, hk, hsame.trans hgu⟩, hku, hc.noisy hnoisy⟩
  · rintro e t ⟨⟨hc, hlog, hquiet⟩, hshut, hfresh⟩
    refine ⟨⟨0, Nat.zero_le _, .of_same hlog, hfresh⟩, hc, hc.ready fun ho => ?_, ?_⟩
    · cases hshut.symm.trans ho
    · intro hnil hfree hold
      exact (hquiet hnil hfree hold).trans (Nat.le_add_right _ _)
  · rintro t ⟨hk, hlog, hnoisy⟩
    exact ⟨⟨0, Nat.zero_le _, .of_same hlog⟩, hk, hnoisy⟩

theorem syncActive_meets (hk : Kept w) :
    Meets w syncActive
      ⟨fun r t => Files w t ∧ Kept t ∧ t.isOpen = false ∧
          (∀ e, r = .error e → Fresh e ∧ w.cues ≠ []),
        fun _ _ => False, fun t => Files w t ∧ Kept t ∧ w.cues ≠ []⟩ := by
  unfold syncActive
  refine meets_get_bind ?_
  split
  · refine meets_modify_bind ?_
    have hset : Files w { w with isOpen := false } :=
      ⟨rfl, rfl, rfl, rfl, rfl, rfl, rfl, rfl, rfl, rfl, rfl, id⟩
    have hkept : Kept { w with isOpen := false } := hk.files hset fun ho => by cases ho
    refine Meets.attempt (Meets.mapErr (step_meets.imp ?_ ?_ ?_))
    · rintro ⟨⟩ t ht
      refine ⟨hset.trans ht.files, hkept.ticks ht, ht.isOpen, ?_⟩
      intro e he
      cases he
    · rintro e t ⟨ht, hc⟩
      refine ⟨hset.trans ht.files, hkept.ticks ht, ht.isOpen, ?_⟩
      rintro e' ⟨⟩
      exact ⟨rfl, hc⟩
    · rintro t ⟨ht, hc⟩
      exact ⟨hset.trans ht.files, hkept.ticks ht, hc⟩
  · next hshut =>
    refine meets_pure ⟨.refl, hk, Bool.eq_false_iff.mpr hshut, ?_⟩
    intro e he
    cases he

theorem released_meets {α : Type} {f : Except WriterError Unit → Unit → Task α}
    {Q : Post SegmentWriter WriterError α} (hk : Kept w)
    (hdone : ∀ r t, Carried w t → t.log = w.log → t.isOpen = false → t.held = false →
      (∀ e, r = .error e → Fresh e ∧ w.cues ≠ []) → Meets t (f r ()) Q)
    (hcrashed : ∀ t, Kept t → t.log = w.log → w.cues ≠ [] → Q.crashed t) :
    Meets w (syncActive >>= fun r => releaseLock >>= fun u => f r u) Q := by
  refine (syncActive_meets hk).bind ?_ (fun _ _ h => h.elim)
    (fun t h => hcrashed t h.2.1 h.1.log h.2.2)
  rintro r t ⟨ht, hkt, hto, hr⟩
  have hct := ht.env.carried hkt
  refine releaseLock_meets.bind ?_ (fun _ _ h => h.elim)
    (fun u h => hcrashed u (hkt.locks h.1) (h.1.log.trans ht.log) (hct.noisy h.2))
  rintro ⟨⟩ u ⟨hu, huh, hfree⟩
  exact hdone r u (hct.trans ⟨hkt.locks hu, hfree, hu.unlocks, hu.quiet⟩) (hu.log.trans ht.log)
    (hu.isOpen.trans hto) huh hr

theorem Kept.fresh (h : Kept w) : Kept w.fresh where
  __ := h
  opened := by
    intro ho
    cases ho

theorem call_ready {c : WriterCall} (h : Ready w) :
    Meets w (call opts c) (readyPost w c.lines (Hindered w (c.lines.length + 1))) := by
  have hsame : ∀ {r : WriterResult} {t : SegmentWriter}, r.records = 0 → Carried w t →
      t.log = w.log → t.isOpen = false → (readyPost w [] (Hindered w 1)).done r t := by
    intro r t hr hc hlog hshut
    refine ⟨⟨.of_same hlog, hr⟩, hc, hc.ready fun ho => ?_⟩
    cases hshut.symm.trans ho
  have hstop : ∀ {t : SegmentWriter}, Kept t → t.log = w.log → w.cues ≠ [] →
      (readyPost w [] (Hindered w 1)).crashed t :=
    fun hk hlog hc => ⟨⟨0, Nat.le_refl _, .of_same hlog⟩, hk, hc⟩
  cases c with
  | opening =>
    refine (openLog_ready h).imp (fun _ _ h => h) ?_ (fun _ h => h)
    rintro e t ⟨hcall, hc, hready, hquiet⟩
    refine ⟨hcall, hc, hready, fun hnil hfree hold => ?_⟩
    exact (hquiet hnil hfree hold).trans (Nat.le_add_right _ _)
  | append lines => exact append_ready h
  | flush =>
    have hrest : ∀ {t : SegmentWriter}, Ticks w t →
        (readyPost w [] (Hindered w 1)).done {} t := by
      intro t ht
      refine ⟨⟨.of_same ht.files.log, rfl⟩, ht.files.env.carried (h.kept.ticks ht),
        h.kept.ticks ht, fun ho => ?_⟩
      unfold Whole
      rw [ht.active, ht.files.number, ht.files.log]
      exact h.whole (ht.isOpen ▸ ho)
    unfold call flush
    refine Meets.bind (R := ⟨fun _ t => Ticks w t, fun e t => Ticks w t ∧ w.cues ≠ [] ∧ Fresh e,
      fun t => Ticks w t ∧ w.cues ≠ []⟩) ?_ (fun _ t ht => meets_pure (hrest ht)) ?_ ?_
    · refine meets_get_bind ?_
      split
      · exact Meets.mapErr (step_meets.imp (fun _ _ ht => ht)
          (fun _ _ ht => ⟨ht.1, ht.2, rfl⟩) (fun _ ht => ht))
      · exact meets_pure .refl
    · rintro e t ⟨ht, hc, hfresh⟩
      obtain ⟨⟨hgrew, -⟩, hcarried, hready⟩ := hrest ht
      exact ⟨⟨0, Nat.le_refl _, hgrew, hfresh⟩, hcarried, hready, fun hnil => absurd hnil hc⟩
    · rintro t ⟨ht, hc⟩
      exact hstop (h.kept.ticks ht) ht.files.log hc
  | close =>
    unfold call close
    refine Meets.bind (R := ⟨fun _ => (readyPost w [] (Hindered w 1)).done {},
      (readyPost w [] (Hindered w 1)).failed, (readyPost w [] (Hindered w 1)).crashed⟩)
      (released_meets h.kept ?_ fun _ => hstop) (fun _ _ h => meets_pure h) (fun _ _ h => h)
      (fun _ h => h)
    intro r t hc hlog hshut _ hr
    cases r with
    | ok value => exact meets_pure (hsame rfl hc hlog hshut)
    | error e =>
      obtain ⟨⟨hgrew, -⟩, -, hready⟩ := hsame (r := {}) rfl hc hlog hshut
      refine meets_fail ⟨⟨0, Nat.le_refl _, hgrew, (hr e rfl).1⟩, hc, hready, fun hnil => ?_⟩
      exact absurd hnil (hr e rfl).2
  | drop =>
    unfold call drop
    refine Meets.bind (R := ⟨fun _ => (readyPost w [] (Hindered w 1)).done {},
      (readyPost w [] (Hindered w 1)).failed, (readyPost w [] (Hindered w 1)).crashed⟩)
      (released_meets h.kept ?_ fun _ => hstop) (fun _ _ h => meets_pure h) (fun _ _ h => h)
      (fun _ h => h)
    intro r t hc hlog hshut hheld _
    refine meets_modify (hsame rfl (hc.trans ⟨hc.kept.fresh, ?_, rfl, id⟩) hlog rfl)
    exact fun _ hfree => hfree.congr rfl hheld.symm rfl

end SegmentWriter
end VibeField.Native
