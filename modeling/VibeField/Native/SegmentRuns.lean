import VibeField.Native.SegmentLog

/-!
# Runs of a segment writer

Over every run of a writer and its successors, the whole lines of the closed segments that are still
there and of the active file are the lines that were completed, in their order.
-/

namespace VibeField.Native.SegmentWriter

open Prog List Option

variable {w t : SegmentWriter} {opts : SegmentWriterOptions}

/-! ## Lines in a file -/

def cutLines : List UInt8 → List UInt8 → List (List UInt8)
  | _, [] => []
  | text, b :: rest =>
    if b = 10 then (text ++ [10]) :: cutLines [] rest else cutLines (text ++ [b]) rest

def wholeLines (bytes : List UInt8) : List (List UInt8) := cutLines [] bytes

theorem cutLines_line {text plain rest : List UInt8} (h : (10 : UInt8) ∉ plain) :
    cutLines text (plain ++ 10 :: rest) = (text ++ plain ++ [10]) :: cutLines [] rest := by
  induction plain generalizing text with
  | nil =>
    rw [nil_append, append_nil, cutLines, if_pos rfl]
  | cons b plain ih =>
    rw [cons_append, cutLines, if_neg fun hb : b = 10 => h (hb ▸ mem_cons_self),
      ih fun hm => h (mem_cons_of_mem _ hm), append_assoc text, singleton_append]

theorem cutLines_torn {text torn : List UInt8} (h : (10 : UInt8) ∉ torn) :
    cutLines text torn = [] := by
  induction torn generalizing text with
  | nil => rfl
  | cons b torn ih =>
    rw [cutLines, if_neg fun hb : b = 10 => h (hb ▸ mem_cons_self),
      ih fun hm => h (mem_cons_of_mem _ hm)]

theorem Holds.wholeLines {bytes : List UInt8} {lines : List LogLine} (h : Holds bytes lines) :
    wholeLines bytes = lines.map LogLine.bytes := by
  obtain ⟨torn, hplain, rfl⟩ := h
  induction lines with
  | nil => exact cutLines_torn hplain
  | cons line rest ih =>
    rw [flatMap_cons, LogLine.bytes, append_assoc, append_assoc,
      singleton_append, SegmentWriter.wholeLines, cutLines_line line.plain, nil_append]
    rw [SegmentWriter.wholeLines] at ih
    rw [ih]
    rfl

def logText (w : SegmentWriter) : List (List UInt8) :=
  (w.dir.filter fun segment => segment.number.isSome).flatMap
      (fun segment => wholeLines segment.bytes) ++
    wholeLines (w.active.getD [])

def completedLines (w : SegmentWriter) : List (List UInt8) :=
  (w.log.filter fun entry => entry.1 ∈ w.dir.filterMap Segment.number ++ [w.number]).map
    fun entry => entry.2.bytes

variable {log : List (Nat × LogLine)} {others : List (List Char × List UInt8)} {s : LogRun}

theorem filter_number_cons {n : Nat} {ns : List Nat} (hlog : log.Pairwise fun a b => a.1 ≤ b.1)
    (hns : ∀ m ∈ ns, n < m) :
    (log.filter fun entry => entry.1 == n) ++ (log.filter fun entry => entry.1 ∈ ns) =
      log.filter fun entry => entry.1 ∈ n :: ns := by
  induction log with
  | nil => rfl
  | cons entry rest ih =>
    obtain ⟨hle, hrest⟩ := pairwise_cons.mp hlog
    have ih := ih hrest
    by_cases heq : entry.1 = n
    · have hout : entry.1 ∉ ns := fun hm => absurd (hns _ hm) (heq ▸ Nat.lt_irrefl _)
      rw [filter_cons_of_pos (by simpa using heq),
        filter_cons_of_neg (by simpa using hout),
        filter_cons_of_pos (by simp [heq]), cons_append, ih]
    · by_cases hm : entry.1 ∈ ns
      · have hnone : (rest.filter fun entry => entry.1 == n) = [] := by
          rw [filter_eq_nil_iff]
          intro later hlater hsame
          have h1 := hns _ hm
          have h2 := hle later hlater
          have h3 := beq_iff_eq.mp hsame
          omega
        rw [hnone, nil_append] at ih
        rw [filter_cons_of_neg (by simpa using heq),
          filter_cons_of_pos (by simpa using hm),
          filter_cons_of_pos (by simp [hm]), hnone, nil_append, ih]
      · rw [filter_cons_of_neg (by simpa using heq),
          filter_cons_of_neg (by simpa using hm),
          filter_cons_of_neg (by simp [heq, hm]), ih]

theorem flatMap_linesOf {ns : List Nat} (hlog : log.Pairwise fun a b => a.1 ≤ b.1)
    (hns : ns.Pairwise (· < ·)) :
    ns.flatMap (linesOf log) = (log.filter fun entry => entry.1 ∈ ns).map Prod.snd := by
  induction ns with
  | nil => simp
  | cons n ns ih =>
    obtain ⟨hlt, hrest⟩ := pairwise_cons.mp hns
    rw [flatMap_cons, ih hrest, linesOf, ← map_append, filter_number_cons hlog hlt]

theorem flatMap_segments {dir : List Segment}
    (h : ∀ segment ∈ dir, ∀ n, segment.number = some n → Holds segment.bytes (linesOf log n)) :
    (dir.filter fun segment => segment.number.isSome).flatMap
        (fun segment => wholeLines segment.bytes) =
      ((dir.filterMap Segment.number).flatMap (linesOf log)).map LogLine.bytes := by
  induction dir with
  | nil => rfl
  | cons segment rest ih =>
    have ih := ih fun other hm => h other (mem_cons_of_mem _ hm)
    cases hn : segment.number with
    | none =>
      rw [filter_cons_of_neg (by simp [hn]), filterMap_cons_none hn, ih]
    | some n =>
      rw [filter_cons_of_pos (by simp [hn]), filterMap_cons_some hn, flatMap_cons,
        flatMap_cons, map_append, ih, (h segment mem_cons_self n hn).wholeLines]


theorem Kept.logText (h : Kept w) : logText w = completedLines w := by
  have hnumbers : (w.dir.filterMap Segment.number ++ [w.number]).Pairwise (· < ·) := by
    refine pairwise_append.mpr ⟨h.ordered, pairwise_singleton _ _, ?_⟩
    intro a ha b hb
    obtain rfl := mem_singleton.mp hb
    obtain ⟨segment, hm, ha⟩ := mem_filterMap.mp ha
    exact (h.closed segment hm a ha).1
  have hlines := flatMap_linesOf h.sorted hnumbers
  rw [flatMap_append, flatMap_singleton] at hlines
  rw [SegmentWriter.logText, flatMap_segments fun segment hm n hn => (h.closed segment hm n hn).2,
    h.active.wholeLines, ← map_append, hlines, List.map_map]
  rfl

/-! ## Runs -/

def Careful (s : LogRun) : LogEvent → Prop
  | .boot _ alive => ∀ lock, s.writer.lock = some lock → ∀ pid, lock.identity = some pid →
      alive pid = false
  | .call _ d => d.unlocks = true
  | .crash => True

structure Sound (s : LogRun) : Prop where
  kept : Kept s.writer
  ready : s.running = true → Ready s.writer

theorem Ready.deal (h : Ready w) (d : Deal) : Ready (w.deal d) :=
  ⟨⟨h.kept.closed, h.kept.ordered, h.kept.active, h.kept.sorted, h.kept.bound, h.kept.opened,
    h.kept.overwrote⟩, h.whole⟩

theorem Ready.boot (h : Kept w) (pid : Nat) (alive : Nat → Bool) :
    Ready { w.fresh with pid, alive } := by
  refine ⟨⟨h.closed, h.ordered, h.active, h.sorted, h.bound, ?_, h.overwrote⟩, ?_⟩
  · intro ho
    cases ho
  · intro ho
    cases ho

theorem Sound.next {s s' : LogRun} {e : LogEvent} (h : Sound s)
    (hs : (logMachine opts others).next s e = some s') : Sound s' := by
  cases e with
  | boot pid alive =>
    replace hs : s.boot pid alive = some s' := hs
    unfold LogRun.boot at hs
    split at hs
    · cases hs
    · split at hs
      · obtain rfl := some.inj hs
        have hready := Ready.boot h.kept pid alive
        exact ⟨hready.kept, fun _ => hready⟩
      · cases hs
  | call c d =>
    replace hs : s.call opts c d = some s' := hs
    unfold LogRun.call at hs
    split at hs
    · next hrun =>
      obtain rfl := some.inj hs
      have hcall : Meets _ (SegmentWriter.call opts c) _ := call_ready ((h.ready hrun).deal d)
      unfold Meets Post.Holds at hcall
      split at hcall
      · next t r heq =>
        rw [heq]
        exact ⟨hcall.2.2.kept, fun _ => hcall.2.2⟩
      · next t e heq =>
        rw [heq]
        exact ⟨hcall.2.2.1.kept, fun _ => hcall.2.2.1⟩
      · next t heq =>
        rw [heq]
        refine ⟨hcall.2.1, ?_⟩
        intro hr
        cases hr
    · cases hs
  | crash =>
    replace hs : (if s.running then some { s with running := false } else none) = some s' := hs
    split at hs
    · obtain rfl := some.inj hs
      refine ⟨h.kept, ?_⟩
      intro hr
      cases hr
    · cases hs

/-- While a writer runs, no lock of a live process is in its way. -/
def Free (s : LogRun) : Prop := s.running = true → LockFree s.writer

theorem Free.next {s s' : LogRun} {e : LogEvent} (h : Sound s) (hfree : Free s)
    (hcareful : Careful s e) (hs : (logMachine opts others).next s e = some s') : Free s' := by
  cases e with
  | boot pid alive =>
    replace hs : s.boot pid alive = some s' := hs
    unfold LogRun.boot at hs
    split at hs
    · cases hs
    · split at hs
      · obtain rfl := some.inj hs
        exact fun _ lock hlock => Or.inr (hcareful lock hlock)
      · cases hs
  | call c d =>
    replace hs : s.call opts c d = some s' := hs
    unfold LogRun.call at hs
    split at hs
    · next hrun =>
      obtain rfl := some.inj hs
      have hcall : Meets _ (SegmentWriter.call opts c) _ := call_ready ((h.ready hrun).deal d)
      have hlock : LockFree (s.writer.deal d) := hfree hrun
      unfold Meets Post.Holds at hcall
      split at hcall
      · next t r heq =>
        rw [heq]
        exact fun _ => hcall.2.1.free hcareful hlock
      · next t e heq =>
        rw [heq]
        exact fun _ => hcall.2.1.free hcareful hlock
      · next t heq =>
        rw [heq]
        intro hr
        cases hr
    · cases hs
  | crash =>
    replace hs : (if s.running then some { s with running := false } else none) = some s' := hs
    split at hs
    · obtain rfl := some.inj hs
      intro hr
      cases hr
    · cases hs

theorem sound_of_reaches (hs : (logMachine opts others).Reachable s) : Sound s := by
  refine hs.invariant ?_ fun _ _ _ h hnext => h.next hnext
  refine ⟨⟨?_, ?_, ?_, List.Pairwise.nil, ?_, ?_, rfl⟩, ?_⟩
  · intro segment hm n hn
    obtain ⟨file, -, rfl⟩ := List.mem_map.mp hm
    cases hn
  · have hnone : ((others.map fun file => (⟨file.1, file.2, none⟩ : Segment)).filterMap
        Segment.number).Pairwise (· < ·) := by
      have hnil : others.filterMap
          (Segment.number ∘ fun file => ⟨file.1, file.2, none⟩) = [] :=
        filterMap_eq_nil_iff.mpr fun _ _ => rfl
      rw [filterMap_map, hnil]
      exact List.Pairwise.nil
    exact hnone
  · exact holds_nil
  · intro entry hm
    cases hm
  · intro ho
    cases ho
  · intro hr
    cases hr

/-- The log of a run, and what a call does to it. -/
structure KeepsLog (opts : SegmentWriterOptions) (s : LogRun) : Prop where
  lines : logText s.writer = completedLines s.writer
  overwrote : s.writer.overwrote = false
  calls : s.running = true → ∀ c d,
    Meets (s.writer.deal d) (SegmentWriter.call opts c) (callPost s.writer c.lines)

/-- Where nothing fails any longer, and a lock file that names no process is old, every call
succeeds, and an open opens. -/
structure WorksAgain (opts : SegmentWriterOptions) (s : LogRun) : Prop where
  calls : ∀ c d, d.cues = [] → LockOld (s.writer.deal d) →
    s.writer.dir.length + c.lines.length + 1 < 10000 →
    Meets (s.writer.deal d) (SegmentWriter.call opts c)
      ⟨(callPost s.writer c.lines).done, fun _ _ => False, fun _ => False⟩
  opens : ∀ d, d.cues = [] → LockOld (s.writer.deal d) → s.writer.dir.length < 10000 →
    Meets (s.writer.deal d) (SegmentWriter.call opts .opening)
      ⟨fun _ t => t.isOpen = true, fun _ _ => False, fun _ => False⟩

theorem Sound.keepsLog (h : Sound s) : KeepsLog opts s where
  lines := h.kept.logText
  overwrote := h.kept.overwrote
  calls := by
    intro hrun c d
    exact (call_ready ((h.ready hrun).deal d)).imp (fun _ _ h => h.1) (fun _ _ h => h.1)
      (fun _ h => h.1)

theorem Sound.worksAgain (h : Sound s) (hfree : Free s) (hrun : s.running = true) :
    WorksAgain opts s where
  calls := by
    intro c d hquiet hold hroom
    refine (call_ready ((h.ready hrun).deal d)).imp (fun _ _ h => h.1) ?_ ?_
    · rintro e t ⟨-, -, -, hexcuse⟩
      have hle : 10000 ≤ s.writer.dir.length + (c.lines.length + 1) :=
        hexcuse hquiet (hfree hrun) hold
      omega
    · rintro t ⟨-, -, hnoisy⟩
      exact hnoisy hquiet
  opens := by
    intro d hquiet hold hroom
    refine (openLog_meets ((h.ready hrun).deal d)).imp (fun _ _ h => h.2.2.1) ?_ ?_
    · rintro e t ⟨⟨-, -, hexcuse⟩, -⟩
      have hle : 10000 ≤ s.writer.dir.length := hexcuse hquiet (hfree hrun) hold
      omega
    · rintro t ⟨-, -, hnoisy⟩
      exact hnoisy hquiet

/-- In every run the files hold the completed lines, once and in order, no closed segment is
overwritten, and a call says how many of its lines are kept; and where a writer can remove its own
lock and no process lives under the number of one that died, it works again after any failure. -/
theorem log_keeps_lines (opts : SegmentWriterOptions) (others : List (List Char × List UInt8)) :
    (∀ s, (logMachine opts others).Reachable s → KeepsLog opts s) ∧
      ∀ s, (logMachine opts others).Reaches Careful s → s.running = true → WorksAgain opts s := by
  constructor
  · exact fun s hs => (sound_of_reaches hs).keepsLog
  · intro s hs hrun
    have hfree : Sound s ∧ Free s := by
      refine hs.invariant (P := fun s => Sound s ∧ Free s) ⟨sound_of_reaches .start, ?_⟩ ?_
      · intro hr
        cases hr
      · exact fun _ _ _ h hcareful hnext => ⟨h.1.next hnext, h.2.next h.1 hcareful hnext⟩
    exact hfree.1.worksAgain hfree.2 hrun

/-! ## A lock that was not removed -/

namespace LogSample

def options : SegmentWriterOptions where
  bootId := []
  utcDay := fun _ => []
  closedStamp := fun _ => []

def line : LogLine := ⟨[1, 2], by decide⟩

def begun : List LogEvent :=
  [.boot 7 (· == 7), .call (.append [line]) {},
    .call (.append [line]) { cues := [.fail .storageFull 1] }]

def careful (s : LogRun) : LogEvent → Bool
  | .boot _ _ => s.writer.lock.isNone
  | .call _ d => d.unlocks
  | .crash => true

theorem careful_of_test {s : LogRun} {e : LogEvent} (h : careful s e = true) : Careful s e := by
  cases e with
  | boot pid alive =>
    intro lock hlock
    rw [careful, hlock] at h
    cases h
  | call c d => exact h
  | crash => trivial

def leftLocked : List LogEvent :=
  [.boot 7 (· == 7), .call .opening {}, .call .close { unlocks := false }]

def after (events : List LogEvent) : LogRun :=
  ((logMachine options []).run (fun _ _ => true) (logMachine options []).start events).getD
    (logMachine options []).start

end LogSample

/-- After half a line the writer still works. -/
theorem log_keeps_lines_begun :
    ∃ s, decide (s.writer.active = some [1, 2, 10, 1]) = true ∧ s.running = true ∧
      KeepsLog LogSample.options s ∧ WorksAgain LogSample.options s := by
  obtain ⟨s, hs, hp⟩ := @Machine.exists_of_keeping_run _ _ (logMachine LogSample.options []) Careful
    LogSample.careful (fun _ _ => LogSample.careful_of_test)
    (fun s => s.running && decide (s.writer.active = some [1, 2, 10, 1])) LogSample.begun (by rfl)
  obtain ⟨hrun, hactive⟩ := Bool.and_eq_true_iff.mp hp
  exact ⟨s, hactive, hrun, (log_keeps_lines LogSample.options []).1 s hs.reachable,
    (log_keeps_lines LogSample.options []).2 s hs hrun⟩

/-- The close leaves the writer's own lock behind, and it is never stale while the process lives:
no later open succeeds, at whatever time. -/
theorem own_lock_stays :
    ∃ s, (logMachine LogSample.options []).Reachable s ∧ s.running = true ∧
      ∀ clock epoch, (SegmentWriter.call LogSample.options .opening
        (s.writer.deal { clock, epoch })).2 =
          .failed { operation := .opening, kind := .writerConflict } := by
  refine ⟨LogSample.after LogSample.leftLocked, ?_, rfl, fun clock epoch => rfl⟩
  have hrun : (logMachine LogSample.options []).run (fun _ _ => true)
      (logMachine LogSample.options []).start LogSample.leftLocked =
        some (LogSample.after LogSample.leftLocked) := rfl
  exact Machine.reaches_run (fun _ _ _ => trivial) .start hrun

end VibeField.Native.SegmentWriter
