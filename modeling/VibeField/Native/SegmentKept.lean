import VibeField.Native.SegmentFiles

/-!
# The lines a log keeps

A file holds the lines that were written whole to it, one after another, and at its end what a
failed write has left.  A writer that is open stands at the end of a line.
-/

namespace VibeField.Native.SegmentWriter

open Prog List

variable {w t u : SegmentWriter} {opts : SegmentWriterOptions}

/-! ## Retention -/

/-- Some segments are deleted. -/
def Trims (w t : SegmentWriter) : Prop :=
  ∃ dir cues clock, t = { w with dir, cues, clock } ∧ dir.Sublist w.dir ∧ (w.cues = [] → cues = [])

theorem Trims.trans (h : Trims w t) (h' : Trims t u) : Trims w u := by
  obtain ⟨dir, cues, clock, rfl, hd, hq⟩ := h
  obtain ⟨dir', cues', clock', rfl, hd', hq'⟩ := h'
  exact ⟨dir', cues', clock', rfl, hd'.trans hd, fun hnil => hq' (hq hnil)⟩

theorem Ticks.trims (h : Ticks w t) : Trims w t := by
  obtain ⟨cues, clock, rfl, hq⟩ := h
  exact ⟨w.dir, cues, clock, rfl, .refl _, hq⟩

theorem Trims.quiet (h : Trims w t) (hnil : w.cues = []) : t.cues = [] := by
  obtain ⟨dir, cues, clock, rfl, -, hq⟩ := h
  exact hq hnil

theorem Trims.noisy (h : Trims w t) (ht : t.cues ≠ []) : w.cues ≠ [] :=
  fun hnil => ht (h.quiet hnil)

def trimming (α : Type) (w : SegmentWriter) : Post SegmentWriter WriterError α where
  done _ t := Trims w t
  failed _ t := Trims w t ∧ w.cues ≠ []
  crashed t := Trims w t ∧ w.cues ≠ []

theorem Trims.imp {α : Type} {p : Task α} (h : Trims w t) (hp : Meets t p (trimming α t)) :
    Meets t p (trimming α w) := by
  refine hp.imp ?_ ?_ ?_
  · exact fun _ u hu => h.trans hu
  · exact fun _ u hu => ⟨h.trans hu.1, h.noisy hu.2⟩
  · exact fun u hu => ⟨h.trans hu.1, h.noisy hu.2⟩

theorem step_trims {α : Type} {op : WriterOperation} {f : Unit → Task α}
    (hdone : ∀ t, Ticks w t → Meets t (f ()) (trimming α t)) :
    Meets w (io op step >>= f) (trimming α w) :=
  step_bind (fun t ht => ht.trims.imp (hdone t ht)) (fun _ _ ht hc => ⟨ht.trims, hc⟩)
    fun _ ht hc => ⟨ht.trims, hc⟩

theorem readClosed_meets {dir : List Segment} : Meets w (readClosed dir) (trimming _ w) := by
  induction dir generalizing w with
  | nil =>
    unfold readClosed
    exact meets_pure Ticks.refl.trims
  | cons segment rest ih =>
    unfold readClosed
    refine step_trims fun t ht => ?_
    refine ih.bind ?_ (fun _ _ h => h) (fun _ h => h)
    rintro ⟨total, closed⟩ u hu
    dsimp only
    split
    · refine now_bind fun time v hv => ?_
      split
      · exact meets_pure (hu.trans hv.trims)
      · exact meets_pure (hu.trans hv.trims)
    · exact meets_pure hu

theorem removeSegments_meets {remove : List (List Char)} {closed : List ClosedSegment}
    {deletions : Nat} : Meets w (removeSegments remove closed deletions) (trimming _ w) := by
  induction closed generalizing w deletions with
  | nil =>
    unfold removeSegments
    exact meets_pure Ticks.refl.trims
  | cons segment rest ih =>
    unfold removeSegments
    split
    · refine step_trims fun t ht => ?_
      refine meets_modify_bind ?_
      exact Trims.imp ⟨_, t.cues, t.clock, rfl, filter_sublist, id⟩ ih
    · exact ih

theorem cleanup_meets : Meets w (cleanup opts) (trimming _ w) := by
  unfold cleanup
  refine now_bind fun time t ht => ht.trims.imp ?_
  refine step_trims fun u hu => ?_
  refine meets_get_bind ?_
  refine readClosed_meets.bind ?_ (fun _ _ h => h) (fun _ h => h)
  rintro ⟨total, closed⟩ v hv
  exact hv.imp removeSegments_meets

/-! ## What the files hold -/

def linesOf (log : List (Nat × LogLine)) (n : Nat) : List LogLine :=
  (log.filter fun entry => entry.1 == n).map Prod.snd

/-- A file has these lines, and after them what is no line. -/
def Holds (bytes : List UInt8) (lines : List LogLine) : Prop :=
  ∃ torn : List UInt8, (10 : UInt8) ∉ torn ∧ bytes = lines.flatMap LogLine.bytes ++ torn

structure Kept (w : SegmentWriter) : Prop where
  closed : ∀ segment ∈ w.dir, ∀ n, segment.number = some n →
    n < w.number ∧ Holds segment.bytes (linesOf w.log n)
  ordered : (w.dir.filterMap Segment.number).Pairwise (· < ·)
  active : Holds (w.active.getD []) (linesOf w.log w.number)
  sorted : w.log.Pairwise fun a b => a.1 ≤ b.1
  bound : ∀ entry ∈ w.log, entry.1 ≤ w.number
  opened : w.isOpen = true → w.active.isSome = true
  overwrote : w.overwrote = false

/-- The active file ends with a whole line, or is empty. -/
def Whole (w : SegmentWriter) : Prop :=
  w.active.getD [] = (linesOf w.log w.number).flatMap LogLine.bytes

theorem holds_nil : Holds [] [] := ⟨[], not_mem_nil, rfl⟩

theorem linesOf_append (log new : List (Nat × LogLine)) (n : Nat) :
    linesOf (log ++ new) n = linesOf log n ++ linesOf new n := by
  unfold linesOf
  rw [filter_append, map_append]

theorem linesOf_eq_nil {log : List (Nat × LogLine)} {n : Nat} (h : ∀ entry ∈ log, entry.1 < n) :
    linesOf log n = [] := by
  unfold linesOf
  rw [map_eq_nil_iff, filter_eq_nil_iff]
  intro entry hm heq
  exact Nat.ne_of_lt (h entry hm) (beq_iff_eq.mp heq)

theorem Kept.files (h : Kept w) (hf : Files w t)
    (hopened : t.isOpen = true → t.active.isSome = true) : Kept t where
  closed := by
    rw [hf.dir, hf.number, hf.log]
    exact h.closed
  ordered := by
    rw [hf.dir]
    exact h.ordered
  active := by
    rw [hf.active, hf.log, hf.number]
    exact h.active
  sorted := by
    rw [hf.log]
    exact h.sorted
  bound := by
    rw [hf.log, hf.number]
    exact h.bound
  opened := hopened
  overwrote := hf.overwrote.trans h.overwrote

theorem Kept.ticks (h : Kept w) (ht : Ticks w t) : Kept t := by
  refine h.files ht.files ?_
  rw [ht.isOpen, ht.active]
  exact h.opened

theorem Kept.locks (h : Kept w) (hl : Locks w t) : Kept t where
  closed := by
    rw [hl.dir, hl.number, hl.log]
    exact h.closed
  ordered := by
    rw [hl.dir]
    exact h.ordered
  active := by
    rw [hl.active, hl.log, hl.number]
    exact h.active
  sorted := by
    rw [hl.log]
    exact h.sorted
  bound := by
    rw [hl.log, hl.number]
    exact h.bound
  opened := by
    rw [hl.isOpen, hl.active]
    exact h.opened
  overwrote := hl.overwrote.trans h.overwrote

theorem Kept.trims (h : Kept w) (ht : Trims w t) : Kept t := by
  obtain ⟨dir, cues, clock, rfl, hsub, -⟩ := ht
  exact ⟨fun segment hm => h.closed segment (hsub.subset hm),
    h.ordered.sublist (hsub.filterMap _), h.active, h.sorted, h.bound, h.opened, h.overwrote⟩

theorem Kept.rename {bytes : List UInt8} {name : List Char} (h : Kept w)
    (hactive : w.active = some bytes) (hfree : name ∉ w.dir.map Segment.name)
    (hshut : w.isOpen = false) :
    Kept
      { w with
        dir := w.dir.filter (fun segment => segment.name ≠ name) ++
          [⟨name, bytes, some w.number⟩]
        overwrote := w.overwrote || w.dir.any fun segment => segment.name == name
        active := none
        number := w.number + 1 } := by
  have hold : ∀ segment ∈ w.dir, ∀ n, segment.number = some n → n < w.number :=
    fun segment hm n hn => (h.closed segment hm n hn).1
  refine ⟨?_, ?_, ?_, h.sorted, ?_, ?_, ?_⟩
  · intro segment hm n hn
    rcases mem_snoc.mp hm with hm | rfl
    · obtain ⟨hlt, hholds⟩ := h.closed segment (mem_filter.mp hm).1 n hn
      exact ⟨Nat.lt_succ_of_lt hlt, hholds⟩
    · obtain rfl := Option.some.inj hn
      refine ⟨Nat.lt_succ_self _, ?_⟩
      have hholds := h.active
      rw [hactive] at hholds
      exact hholds
  · rw [filterMap_append]
    refine pairwise_append.mpr
      ⟨h.ordered.sublist (filter_sublist.filterMap _), pairwise_singleton _ _, ?_⟩
    intro a ha b hb
    obtain rfl := mem_singleton.mp hb
    obtain ⟨segment, hm, ha⟩ := mem_filterMap.mp ha
    exact hold segment (mem_filter.mp hm).1 a ha
  · show Holds [] (linesOf w.log (w.number + 1))
    rw [linesOf_eq_nil fun entry hm => Nat.lt_succ_of_le (h.bound entry hm)]
    exact holds_nil
  · exact fun entry hm => Nat.le_succ_of_le (h.bound entry hm)
  · intro ho
    cases hshut.symm.trans ho
  · have hany : (w.dir.any fun segment => segment.name == name) = false := by
      rw [any_eq_false]
      intro segment hm heq
      exact hfree (mem_map.mpr ⟨segment, hm, beq_iff_eq.mp heq⟩)
    show (w.overwrote || _) = false
    rw [h.overwrote, hany]
    rfl

theorem linesOf_singleton (n : Nat) (line : LogLine) : linesOf [(n, line)] n = [line] := by
  unfold linesOf
  rw [filter_cons_of_pos (by exact beq_iff_eq.mpr rfl)]
  rfl

theorem linesOf_of_ne {n m : Nat} (line : LogLine) (h : m ≠ n) : linesOf [(m, line)] n = [] := by
  unfold linesOf
  rw [map_eq_nil_iff, filter_eq_nil_iff]
  intro entry hm heq
  obtain rfl := mem_singleton.mp hm
  exact h (beq_iff_eq.mp heq)

theorem Kept.put {line : LogLine} {n : Nat} (h : Kept w) (hwhole : Whole w) :
    Kept (w.put (line.text.take n)) where
  __ := h
  active := ⟨line.text.take n, fun hm => line.plain (mem_of_mem_take hm),
    congrArg (· ++ line.text.take n) hwhole⟩
  opened := fun _ => rfl

theorem Whole.putLine (h : Whole w) (line : LogLine) : Whole (w.putLine line) := by
  show w.active.getD [] ++ line.bytes =
    (linesOf (w.log ++ [(w.number, line)]) w.number).flatMap LogLine.bytes
  rw [linesOf_append, linesOf_singleton, flatMap_append, ← h, flatMap_singleton]

theorem Kept.putLine (h : Kept w) (hwhole : Whole w) (line : LogLine) :
    Kept (w.putLine line) where
  __ := h
  closed := by
    intro segment hm n hn
    obtain ⟨hlt, hholds⟩ := h.closed segment hm n hn
    refine ⟨hlt, ?_⟩
    show Holds segment.bytes (linesOf (w.log ++ [(w.number, line)]) n)
    rw [linesOf_append, linesOf_of_ne line (Nat.ne_of_gt hlt), append_nil]
    exact hholds
  active := ⟨[], not_mem_nil, by rw [append_nil]; exact hwhole.putLine line⟩
  sorted := by
    refine pairwise_append.mpr ⟨h.sorted, pairwise_singleton _ _, ?_⟩
    intro a ha b hb
    obtain rfl := mem_singleton.mp hb
    exact h.bound a ha
  bound :=
    forall_mem_append.mpr ⟨h.bound, forall_mem_singleton.mpr (Nat.le_refl _)⟩
  opened := fun _ => rfl

/-! ## Rotation -/

/-- What a part of a call that does not touch the lock leaves as it is. -/
structure Env (w t : SegmentWriter) : Prop where
  lock : t.lock = w.lock
  held : t.held = w.held
  pid : t.pid = w.pid
  alive : t.alive = w.alive
  epoch : t.epoch = w.epoch
  unlocks : t.unlocks = w.unlocks
  quiet : w.cues = [] → t.cues = []

theorem Env.refl : Env w w := ⟨rfl, rfl, rfl, rfl, rfl, rfl, id⟩

theorem Env.trans (h : Env w t) (h' : Env t u) : Env w u where
  lock := h'.lock.trans h.lock
  held := h'.held.trans h.held
  pid := h'.pid.trans h.pid
  alive := h'.alive.trans h.alive
  epoch := h'.epoch.trans h.epoch
  unlocks := h'.unlocks.trans h.unlocks
  quiet := fun hq => h'.quiet (h.quiet hq)

theorem Env.noisy (h : Env w t) (ht : t.cues ≠ []) : w.cues ≠ [] := fun hnil => ht (h.quiet hnil)

theorem Files.env (h : Files w t) : Env w t :=
  { h with }

theorem Trims.env (h : Trims w t) : Env w t := by
  obtain ⟨dir, cues, clock, rfl, -, hq⟩ := h
  exact ⟨rfl, rfl, rfl, rfl, rfl, rfl, hq⟩

/-- An open file is the one from before, or holds nothing. -/
def Standing (w t : SegmentWriter) : Prop :=
  t.isOpen = true → (t.number = w.number ∧ t.active.getD [] = w.active.getD []) ∨
    t.active.getD [] = []

/-- What a part of a call that writes no line keeps, whether it fails or not. -/
structure Passes (w t : SegmentWriter) : Prop where
  kept : Kept t
  env : Env w t
  log : t.log = w.log
  standing : Standing w t

theorem Files.passes (h : Files w t) (hk : Kept w)
    (hopened : t.isOpen = true → t.active.isSome = true) : Passes w t :=
  ⟨hk.files h hopened, h.env, h.log, fun _ => Or.inl ⟨h.number, h.active⟩⟩

theorem openPrivateAppend_meets :
    Meets w openPrivateAppend
      ⟨fun _ t => Files w t ∧ t.isOpen = w.isOpen ∧ t.active.isSome = true,
        fun _ t => Ticks w t ∧ w.cues ≠ [], fun t => Ticks w t ∧ w.cues ≠ []⟩ := by
  unfold openPrivateAppend
  refine step_meets.bind ?_ (fun _ _ h => h) (fun _ h => h)
  rintro ⟨⟩ t ht
  refine meets_modify ⟨ht.files.trans ?_, ht.isOpen, rfl⟩
  exact ⟨rfl, rfl, rfl, rfl, rfl, rfl, rfl, rfl, rfl, rfl, rfl, id⟩

theorem activeLength_meets :
    Meets w activeLength
      ⟨fun n t => Ticks w t ∧ n = (w.active.getD []).length,
        fun _ t => Ticks w t ∧ w.cues ≠ [], fun t => Ticks w t ∧ w.cues ≠ []⟩ := by
  unfold activeLength
  refine step_meets.bind ?_ (fun _ _ h => h) (fun _ h => h)
  rintro ⟨⟩ t ht
  refine meets_get_bind (meets_pure ⟨ht, ?_⟩)
  rw [ht.active]

theorem attempt_bind {ε α β : Type} {p : Prog SegmentWriter ε α} {f : Except ε α → Task β}
    {R : Post SegmentWriter ε α} {Q : Post SegmentWriter WriterError β} (hp : Meets w p R)
    (hok : ∀ a t, R.done a t → Meets t (f (.ok a)) Q)
    (herror : ∀ e t, R.failed e t → Meets t (f (.error e)) Q)
    (hcrashed : ∀ t, R.crashed t → Q.crashed t) : Meets w (attempt p >>= f) Q := by
  refine Meets.bind (R := ⟨fun r t => Meets t (f r) Q, fun _ _ => False, Q.crashed⟩)
    (Meets.attempt (hp.imp ?_ ?_ hcrashed)) (fun _ _ h => h) (fun _ _ h => h.elim) (fun _ h => h)
  · exact hok
  · exact herror

theorem reopenAfterRotationFailure_meets (hshut : w.isOpen = false) :
    Meets w reopenAfterRotationFailure
      ⟨fun _ t => Files w t ∧ (t.isOpen = true → t.active.isSome = true), fun _ _ => False,
        fun t => Files w t ∧ (t.isOpen = true → t.active.isSome = true) ∧ w.cues ≠ []⟩ := by
  unfold reopenAfterRotationFailure
  have hset : ∀ {t : SegmentWriter} {isOpen : Bool} {n : Nat},
      Files t { t with isOpen, activeBytes := n } :=
    ⟨rfl, rfl, rfl, rfl, rfl, rfl, rfl, rfl, rfl, rfl, rfl, id⟩
  refine attempt_bind openPrivateAppend_meets ?_ ?_ ?_
  · rintro ⟨⟩ t ⟨ht, -, hactive⟩
    refine meets_modify_bind ?_
    have hopen : Files w { t with isOpen := true } := ht.trans hset
    refine attempt_bind activeLength_meets ?_ ?_ ?_
    · rintro n u ⟨hu, -⟩
      refine meets_modify ⟨(hopen.trans hu.files).trans hset, fun _ => ?_⟩
      exact hu.active ▸ hactive
    · rintro e u ⟨hu, -⟩
      refine meets_modify ⟨(hopen.trans hu.files).trans hset, fun _ => ?_⟩
      exact hu.active ▸ hactive
    · rintro u ⟨hu, hc⟩
      refine ⟨hopen.trans hu.files, fun _ => ?_, fun hnil => hc (hopen.quiet hnil)⟩
      exact hu.active ▸ hactive
  · rintro e t ⟨ht, -⟩
    refine meets_modify ⟨ht.files.trans hset, fun ho => ?_⟩
    cases ho
  · rintro t ⟨ht, hc⟩
    refine ⟨ht.files, fun ho => ?_, hc⟩
    cases (ht.isOpen.trans hshut).symm.trans ho

theorem renameActive_meets {closed : List Char} (hk : Kept w) (hshut : w.isOpen = false)
    (hfree : closed ∉ w.dir.map Segment.name) :
    Meets w (renameActive closed)
      ⟨fun _ t => Kept t ∧ Env w t ∧ t.log = w.log ∧ t.active = none ∧
          t.dir.length ≤ w.dir.length + 1,
        fun _ t => Ticks w t ∧ (w.cues = [] → w.active = none),
        fun t => Ticks w t ∧ w.cues ≠ []⟩ := by
  unfold renameActive
  refine step_meets.bind ?_ (fun e t h => ⟨h.1, fun hnil => absurd hnil h.2⟩) (fun _ h => h)
  rintro ⟨⟩ t ht
  refine meets_get_bind ?_
  split
  · next hnone => exact meets_fail ⟨ht, fun _ => ht.active ▸ hnone⟩
  · next bytes hsome =>
    refine meets_modify ⟨?_, ht.files.env.trans ⟨rfl, rfl, rfl, rfl, rfl, rfl, id⟩, ht.files.log,
      rfl, ?_⟩
    · exact (hk.ticks ht).rename hsome (ht.files.dir ▸ hfree) (ht.isOpen.trans hshut)
    · rw [length_append, length_singleton, ← ht.files.dir]
      exact Nat.succ_le_succ (length_filter_le _ _)

def rotating (w : SegmentWriter) : Post SegmentWriter WriterError Nat where
  done _ t := Kept t ∧ Env w t ∧ t.log = w.log ∧ t.isOpen = true ∧ t.active = some [] ∧
    t.dir.length ≤ w.dir.length + 1
  failed _ t := Passes w t ∧ (w.cues = [] → 10000 ≤ w.dir.length)
  crashed t := Kept t ∧ t.log = w.log ∧ w.cues ≠ []

theorem Trims.active (h : Trims w t) : t.active = w.active := by
  obtain ⟨dir, cues, clock, rfl, -⟩ := h
  rfl

theorem Trims.isOpen (h : Trims w t) : t.isOpen = w.isOpen := by
  obtain ⟨dir, cues, clock, rfl, -⟩ := h
  rfl

theorem Trims.log (h : Trims w t) : t.log = w.log := by
  obtain ⟨dir, cues, clock, rfl, -⟩ := h
  rfl

theorem Trims.length_dir (h : Trims w t) : t.dir.length ≤ w.dir.length := by
  obtain ⟨dir, cues, clock, rfl, hsub, -⟩ := h
  exact hsub.length_le

theorem standing_of_empty (h : t.active.getD [] = []) : Standing w t := fun _ => Or.inr h

theorem nextActive_meets (hk : Kept w) (hnone : w.active = none) :
    Meets w (nextActive opts)
      ⟨fun _ t => Kept t ∧ Env w t ∧ t.log = w.log ∧ t.isOpen = true ∧ t.active = some [] ∧
          t.dir.length ≤ w.dir.length,
        fun _ t => Passes w t ∧ w.cues ≠ [],
        fun t => Kept t ∧ t.log = w.log ∧ w.cues ≠ []⟩ := by
  unfold nextActive
  have hempty : ∀ {t}, Files w t → t.active.getD [] = [] := fun ht => by
    rw [ht.active, hnone]
    rfl
  have hset : ∀ {t : SegmentWriter} {isOpen : Bool} {n : Nat} {day : List Char},
      Files t { t with isOpen, activeBytes := n, activeDay := day } :=
    ⟨rfl, rfl, rfl, rfl, rfl, rfl, rfl, rfl, rfl, rfl, rfl, id⟩
  refine attempt_bind openPrivateAppend_meets ?_ ?_ ?_
  · rintro ⟨⟩ t ⟨ht, -, hsome⟩
    refine meets_modify_bind ?_
    have hopen : Files w { t with isOpen := true } := ht.trans hset
    refine step_bind ?_ ?_ ?_
    · intro u hu
      refine now_bind fun time v hv => ?_
      refine meets_modify_bind ?_
      have hlast : Files v { v with activeBytes := 0, activeDay := opts.utcDay time } := hset
      have hwv := (hopen.trans hu.files).trans (hv.files.trans hlast)
      have hvsome : v.active.isSome = true := by
        rw [hv.active, hu.active]
        exact hsome
      have hvopen : v.isOpen = true := hv.isOpen.trans hu.isOpen
      have hkv := hk.files hwv fun _ => hvsome
      refine cleanup_meets.imp ?_ ?_ ?_
      · rintro n x hx
        refine ⟨hkv.trims hx, hwv.env.trans hx.env, hx.log.trans hwv.log, hx.isOpen.trans hvopen,
          ?_, hwv.dir ▸ hx.length_dir⟩
        obtain ⟨bytes, hbytes⟩ := Option.isSome_iff_exists.mp hvsome
        have hnil := hempty hwv
        rw [hx.active]
        show v.active = some []
        rw [show v.active.getD [] = bytes by rw [hbytes]; rfl] at hnil
        rw [hbytes, hnil]
      · rintro e x ⟨hx, hc⟩
        refine ⟨⟨hkv.trims hx, hwv.env.trans hx.env, hx.log.trans hwv.log, ?_⟩, hwv.env.noisy hc⟩
        refine standing_of_empty ?_
        rw [hx.active]
        exact hempty hwv
      · rintro x ⟨hx, hc⟩
        exact ⟨hkv.trims hx, hx.log.trans hwv.log, hwv.env.noisy hc⟩
    · rintro e u hu hc
      have hwu := hopen.trans hu.files
      refine ⟨hwu.passes hk fun _ => ?_, hopen.env.noisy hc⟩
      rw [hu.active]
      exact hsome
    · rintro u hu hc
      have hwu := hopen.trans hu.files
      refine ⟨hk.files hwu fun _ => ?_, hwu.log, hopen.env.noisy hc⟩
      rw [hu.active]
      exact hsome
  · rintro e t ⟨ht, hc⟩
    refine meets_modify_bind (meets_fail ⟨(ht.files.trans hset).passes hk ?_, hc⟩)
    intro ho
    cases ho
  · rintro t ⟨ht, hc⟩
    exact ⟨hk.ticks ht, ht.files.log, hc⟩

theorem Passes.of_env (h : Passes t u) (he : Env w t) (hlog : t.log = w.log)
    (hempty : t.active.getD [] = []) : Passes w u := by
  refine ⟨h.kept, he.trans h.env, h.log.trans hlog, fun ho => Or.inr ?_⟩
  rcases h.standing ho with ⟨-, hsame⟩ | hnil
  · rw [hsame, hempty]
  · exact hnil

theorem rotate_meets {reason : List Char} (hk : Kept w) (hopen : w.isOpen = true) :
    Meets w (rotate opts reason) (rotating w) := by
  unfold rotate
  refine meets_get_bind ?_
  rw [if_pos hopen]
  refine meets_modify_bind ?_
  have hsome := hk.opened hopen
  have hset : ∀ {t : SegmentWriter} {isOpen : Bool}, Files t { t with isOpen } :=
    ⟨rfl, rfl, rfl, rfl, rfl, rfl, rfl, rfl, rfl, rfl, rfl, id⟩
  have hshut : Files w { w with isOpen := false } := hset
  refine nextClosedPath_meets.bind ?_ ?_ ?_
  · rintro path t ⟨ht, hfree⟩
    have hwt : Files w t := hshut.trans ht.files
    have hto : t.isOpen = false := ht.isOpen
    have htsome : t.active.isSome = true := by
      rw [ht.active]
      exact hsome
    refine attempt_step_bind ?_ ?_ ?_
    · intro u hu
      have hwu : Files w u := hwt.trans hu.files
      have huo : u.isOpen = false := hu.isOpen.trans hto
      have hku : Kept u := hk.files hwu fun ho => by cases huo.symm.trans ho
      refine attempt_bind (renameActive_meets hku huo (by rw [hwu.dir]; exact hfree)) ?_ ?_ ?_
      · rintro ⟨⟩ v ⟨hkv, hev, hlv, hnone, hdv⟩
        have hwv := hwu.env.trans hev
        have hlog := hlv.trans hwu.log
        have hempty : v.active.getD [] = [] := by
          rw [hnone]
          rfl
        refine (nextActive_meets hkv hnone).imp ?_ ?_ ?_
        · rintro n x ⟨hkx, hex, hlx, hox, hax, hdx⟩
          refine ⟨hkx, hwv.trans hex, hlx.trans hlog, hox, hax, hdx.trans ?_⟩
          rw [← hwu.dir]
          exact hdv
        · rintro e x ⟨hpx, hc⟩
          exact ⟨hpx.of_env hwv hlog hempty, fun hnil => absurd hnil (hwv.noisy hc)⟩
        · rintro x ⟨hkx, hlx, hc⟩
          exact ⟨hkx, hlx.trans hlog, hwv.noisy hc⟩
      · rintro e v ⟨hv, hquiet⟩
        have hwv : Files w v := hwu.trans hv.files
        refine (reopenAfterRotationFailure_meets (hv.isOpen.trans huo)).bind ?_
          (fun _ _ h => h.elim) ?_
        · rintro ⟨⟩ x ⟨hx, hox⟩
          refine meets_fail ⟨(hwv.trans hx).passes hk hox, fun hnil => ?_⟩
          rw [← hu.active, hquiet (hwu.quiet hnil)] at htsome
          cases htsome
        · rintro x ⟨hx, hox, hc⟩
          exact ⟨hk.files (hwv.trans hx) hox, (hwv.trans hx).log, hwv.env.noisy hc⟩
      · rintro v ⟨hv, hc⟩
        exact ⟨hku.ticks hv, hv.files.log.trans hwu.log, hwu.env.noisy hc⟩
    · rintro e u hu hc
      refine meets_modify_bind (meets_fail ⟨?_, fun hnil => absurd hnil (hwt.env.noisy hc)⟩)
      refine ((hwt.trans hu.files).trans hset).passes hk fun _ => ?_
      exact hu.active ▸ htsome
    · rintro u hu hc
      refine ⟨hk.files (hwt.trans hu.files) fun ho => ?_, (hwt.trans hu.files).log,
        hwt.env.noisy hc⟩
      cases (hu.isOpen.trans hto).symm.trans ho
  · rintro e t ⟨ht, hfull⟩
    refine ⟨(hshut.trans ht.files).passes hk ?_, hfull⟩
    intro ho
    cases (show t.isOpen = false from ht.isOpen).symm.trans ho
  · rintro t ⟨ht, hc⟩
    refine ⟨hk.files (hshut.trans ht.files) ?_, (hshut.trans ht.files).log, hc⟩
    intro ho
    cases (show t.isOpen = false from ht.isOpen).symm.trans ho

end VibeField.Native.SegmentWriter
