import VibeField.Native.SegmentWriter
import VibeField.Base.Uri

/-!
# What the parts of a call do to the files

Specifications of the programs a call of the segment writer is made of.  Without a cue that fails or
crashes no part fails, except where a lock is not stale or all names of a closed segment are taken.
-/

namespace VibeField.Native.SegmentWriter

open Prog List

variable {w t u : SegmentWriter} {ε α : Type}

/-- Only the cues and times that were dealt are used up. -/
def Ticks (w t : SegmentWriter) : Prop :=
  ∃ cues clock, t = { w with cues, clock } ∧ (w.cues = [] → cues = [])

theorem Ticks.refl : Ticks w w := ⟨w.cues, w.clock, rfl, id⟩

/-- The files stay as they are, an active file with nothing in it apart. -/
structure Files (w t : SegmentWriter) : Prop where
  dir : t.dir = w.dir
  active : t.active.getD [] = w.active.getD []
  log : t.log = w.log
  number : t.number = w.number
  overwrote : t.overwrote = w.overwrote
  lock : t.lock = w.lock
  held : t.held = w.held
  pid : t.pid = w.pid
  alive : t.alive = w.alive
  epoch : t.epoch = w.epoch
  unlocks : t.unlocks = w.unlocks
  quiet : w.cues = [] → t.cues = []

theorem Files.refl : Files w w := ⟨rfl, rfl, rfl, rfl, rfl, rfl, rfl, rfl, rfl, rfl, rfl, id⟩

theorem Files.trans (h : Files w t) (h' : Files t u) : Files w u where
  dir := h'.dir.trans h.dir
  active := h'.active.trans h.active
  log := h'.log.trans h.log
  number := h'.number.trans h.number
  overwrote := h'.overwrote.trans h.overwrote
  lock := h'.lock.trans h.lock
  held := h'.held.trans h.held
  pid := h'.pid.trans h.pid
  alive := h'.alive.trans h.alive
  epoch := h'.epoch.trans h.epoch
  unlocks := h'.unlocks.trans h.unlocks
  quiet := fun hq => h'.quiet (h.quiet hq)

theorem Ticks.trans (h : Ticks w t) (h' : Ticks t u) : Ticks w u := by
  obtain ⟨cues, clock, rfl, hq⟩ := h
  obtain ⟨cues', clock', rfl, hq'⟩ := h'
  exact ⟨cues', clock', rfl, fun hnil => hq' (hq hnil)⟩

theorem Ticks.noisy (h : Ticks w t) (ht : t.cues ≠ []) : w.cues ≠ [] := by
  obtain ⟨cues, clock, rfl, hq⟩ := h
  exact fun hnil => ht (hq hnil)

theorem Ticks.files (h : Ticks w t) : Files w t := by
  obtain ⟨cues, clock, rfl, hq⟩ := h
  exact ⟨rfl, rfl, rfl, rfl, rfl, rfl, rfl, rfl, rfl, rfl, rfl, hq⟩

theorem Ticks.isOpen (h : Ticks w t) : t.isOpen = w.isOpen := by
  obtain ⟨cues, clock, rfl, -⟩ := h
  rfl

theorem Ticks.active (h : Ticks w t) : t.active = w.active := by
  obtain ⟨cues, clock, rfl, -⟩ := h
  rfl

theorem cue_meets :
    Meets w (cue : Prog SegmentWriter ε Cue)
      ⟨fun c t => Ticks w t ∧ (w.cues = [] → c = .ok), fun _ _ => False, fun _ => False⟩ := by
  unfold cue
  refine meets_get_bind ?_
  split
  · exact meets_pure ⟨.refl, fun _ => rfl⟩
  · next c rest hc =>
    refine meets_modify_bind (meets_pure ⟨⟨rest, w.clock, rfl, ?_⟩, ?_⟩)
    · intro hnil
      cases hc.symm.trans hnil
    · intro hnil
      cases hc.symm.trans hnil

theorem now_meets :
    Meets w (now : Prog SegmentWriter ε Nat)
      ⟨fun _ t => Ticks w t, fun _ _ => False, fun _ => False⟩ := by
  unfold now
  refine meets_get_bind ?_
  split
  · exact meets_pure .refl
  · next c rest hc => exact meets_modify_bind (meets_pure ⟨w.cues, rest, rfl, id⟩)

theorem step_meets :
    Meets w step ⟨fun _ t => Ticks w t, fun _ t => Ticks w t ∧ w.cues ≠ [],
      fun t => Ticks w t ∧ w.cues ≠ []⟩ := by
  unfold step
  refine cue_meets.bind ?_ (fun _ _ h => h.elim) (fun _ h => h.elim)
  rintro c t ⟨ht, hc⟩
  cases c with
  | ok => exact meets_pure ht
  | fail kind bytes =>
    refine meets_fail ⟨ht, fun hnil => ?_⟩
    cases hc hnil
  | crash bytes =>
    refine meets_crash ⟨ht, fun hnil => ?_⟩
    cases hc hnil

theorem step_bind {op : WriterOperation} {f : Unit → Task α} {Q : Post SegmentWriter WriterError α}
    (hdone : ∀ t, Ticks w t → Meets t (f ()) Q)
    (hfailed : ∀ e t, Ticks w t → w.cues ≠ [] → Q.failed e t)
    (hcrashed : ∀ t, Ticks w t → w.cues ≠ [] → Q.crashed t) :
    Meets w (io op step >>= f) Q := by
  refine Meets.bind (R := ⟨fun _ t => Ticks w t, fun _ t => Ticks w t ∧ w.cues ≠ [],
    fun t => Ticks w t ∧ w.cues ≠ []⟩) (Meets.mapErr step_meets) ?_ ?_ ?_
  · rintro ⟨⟩ t ht
    exact hdone t ht
  · rintro e t ⟨ht, hc⟩
    exact hfailed e t ht hc
  · rintro t ⟨ht, hc⟩
    exact hcrashed t ht hc

theorem now_bind {f : Nat → Prog SegmentWriter ε α} {Q : Post SegmentWriter ε α}
    (hdone : ∀ a t, Ticks w t → Meets t (f a) Q) : Meets w (now >>= f) Q :=
  now_meets.bind hdone (fun _ _ h => h.elim) (fun _ h => h.elim)

theorem attempt_step_bind {f : Except ErrorKind Unit → Task α}
    {Q : Post SegmentWriter WriterError α}
    (hok : ∀ t, Ticks w t → Meets t (f (.ok ())) Q)
    (herror : ∀ e t, Ticks w t → w.cues ≠ [] → Meets t (f (.error e)) Q)
    (hcrashed : ∀ t, Ticks w t → w.cues ≠ [] → Q.crashed t) :
    Meets w (attempt step >>= f) Q := by
  refine Meets.bind (R := ⟨fun r t => Ticks w t ∧ (w.cues = [] → r = .ok ()), fun _ _ => False,
    fun t => Ticks w t ∧ w.cues ≠ []⟩) (Meets.attempt (step_meets.imp ?_ ?_ ?_)) ?_
    (fun _ _ h => h.elim) (fun t h => hcrashed t h.1 h.2)
  · rintro ⟨⟩ t ht
    exact ⟨ht, fun _ => rfl⟩
  · rintro e t ⟨ht, hc⟩
    exact ⟨ht, fun hnil => absurd hnil hc⟩
  · rintro t h
    exact h
  · rintro r t ⟨ht, hr⟩
    cases r with
    | ok value =>
      cases value
      exact hok t ht
    | error e =>
      refine herror e t ht fun hnil => ?_
      cases hr hnil

/-! ## The lock -/

/-- A lock file that the writer does not hold names no live process. -/
def LockFree (w : SegmentWriter) : Prop :=
  ∀ lock, w.lock = some lock → w.held = true ∨
    ∀ pid, lock.identity = some pid → w.alive pid = false

/-- A lock file that the writer does not hold and that names no process is old. -/
def LockOld (w : SegmentWriter) : Prop :=
  ∀ lock, w.lock = some lock → w.held = true ∨
    (lock.identity = none → 30000 < w.epoch - lock.modified)

/-- All but the lock stays as it is. -/
structure Locks (w t : SegmentWriter) : Prop where
  dir : t.dir = w.dir
  active : t.active = w.active
  log : t.log = w.log
  number : t.number = w.number
  overwrote : t.overwrote = w.overwrote
  isOpen : t.isOpen = w.isOpen
  pid : t.pid = w.pid
  alive : t.alive = w.alive
  epoch : t.epoch = w.epoch
  unlocks : t.unlocks = w.unlocks
  quiet : w.cues = [] → t.cues = []

theorem Locks.refl : Locks w w := ⟨rfl, rfl, rfl, rfl, rfl, rfl, rfl, rfl, rfl, rfl, id⟩

theorem Locks.trans (h : Locks w t) (h' : Locks t u) : Locks w u where
  dir := h'.dir.trans h.dir
  active := h'.active.trans h.active
  log := h'.log.trans h.log
  number := h'.number.trans h.number
  overwrote := h'.overwrote.trans h.overwrote
  isOpen := h'.isOpen.trans h.isOpen
  pid := h'.pid.trans h.pid
  alive := h'.alive.trans h.alive
  epoch := h'.epoch.trans h.epoch
  unlocks := h'.unlocks.trans h.unlocks
  quiet := fun hq => h'.quiet (h.quiet hq)

theorem Ticks.locks (h : Ticks w t) : Locks w t := by
  obtain ⟨cues, clock, rfl, hq⟩ := h
  exact ⟨rfl, rfl, rfl, rfl, rfl, rfl, rfl, rfl, rfl, rfl, hq⟩

theorem Ticks.lock (h : Ticks w t) : t.lock = w.lock := by
  obtain ⟨cues, clock, rfl, -⟩ := h
  rfl

theorem Ticks.held (h : Ticks w t) : t.held = w.held := by
  obtain ⟨cues, clock, rfl, -⟩ := h
  rfl

theorem lockFree_of_none (h : w.lock = none) : LockFree w := by
  intro lock hlock
  cases h.symm.trans hlock

theorem LockFree.congr (h : LockFree w) (hlock : t.lock = w.lock) (hheld : t.held = w.held)
    (halive : t.alive = w.alive) : LockFree t := by
  unfold LockFree
  rw [hlock, hheld, halive]
  exact h

theorem createPrivateLock_meets :
    Meets w createPrivateLock
      ⟨fun _ t => Locks w t ∧ t.held = w.held ∧ w.lock = none,
        fun e t => Ticks w t ∧ (w.cues = [] → e = .alreadyExists ∧ w.lock ≠ none),
        fun t => Ticks w t ∧ w.cues ≠ []⟩ := by
  unfold createPrivateLock
  refine step_meets.bind ?_ ?_ ?_
  · rintro ⟨⟩ t ht
    refine meets_get_bind ?_
    split
    · next hsome =>
      refine meets_fail ⟨ht, fun _ => ⟨rfl, fun hnone => ?_⟩⟩
      rw [ht.lock, hnone] at hsome
      cases hsome
    · next hnone =>
      refine meets_modify ⟨ht.locks.trans ⟨rfl, rfl, rfl, rfl, rfl, rfl, rfl, rfl, rfl, rfl, id⟩,
        ht.held, ?_⟩
      rw [← ht.lock]
      exact Option.not_isSome_iff_eq_none.mp hnone
  · rintro e t ⟨ht, hc⟩
    exact ⟨ht, fun hnil => absurd hnil hc⟩
  · rintro t h
    exact h

theorem writeIdentity_meets :
    Meets w writeIdentity
      ⟨fun _ t => Locks w t ∧ t.held = w.held, fun _ t => Locks w t ∧ t.held = w.held ∧ w.cues ≠ [],
        fun t => Locks w t ∧ w.cues ≠ []⟩ := by
  unfold writeIdentity
  refine cue_meets.bind ?_ (fun _ _ h => h.elim) (fun _ h => h.elim)
  rintro c t ⟨ht, hc⟩
  have hwrote : Locks w { t with lock := some ⟨some t.pid, t.epoch⟩ } :=
    ht.locks.trans ⟨rfl, rfl, rfl, rfl, rfl, rfl, rfl, rfl, rfl, rfl, id⟩
  cases c with
  | ok => exact meets_modify ⟨hwrote, ht.held⟩
  | fail kind bytes =>
    have hnoisy : w.cues ≠ [] := fun hnil => by cases hc hnil
    dsimp only
    split
    · exact meets_modify_bind (meets_fail ⟨hwrote, ht.held, hnoisy⟩)
    · exact meets_fail ⟨ht.locks, ht.held, hnoisy⟩
  | crash bytes =>
    have hnoisy : w.cues ≠ [] := fun hnil => by cases hc hnil
    dsimp only
    split
    · exact meets_modify_bind (meets_crash ⟨hwrote, hnoisy⟩)
    · exact meets_crash ⟨ht.locks, hnoisy⟩

theorem unlock_meets :
    Meets w unlock
      ⟨fun _ t => Locks w t ∧ t.held = w.held ∧ (w.unlocks = true → t.lock = none),
        fun _ _ => False, fun t => Locks w t ∧ w.cues ≠ []⟩ := by
  unfold unlock
  refine cue_meets.bind ?_ (fun _ _ h => h.elim) (fun _ h => h.elim)
  rintro c t ⟨ht, hc⟩
  have hdone : Meets t (modify fun w : SegmentWriter =>
      { w with lock := if w.unlocks then none else w.lock })
      (⟨fun _ t => Locks w t ∧ t.held = w.held ∧ (w.unlocks = true → t.lock = none),
        fun _ _ => False, fun t => Locks w t ∧ w.cues ≠ []⟩ : Post _ WriterError Unit) := by
    refine meets_modify ⟨ht.locks.trans ⟨rfl, rfl, rfl, rfl, rfl, rfl, rfl, rfl, rfl, rfl, id⟩,
      ht.held, fun hu => ?_⟩
    exact if_pos (ht.locks.unlocks.trans hu)
  cases c with
  | crash bytes =>
    refine meets_crash ⟨ht.locks, fun hnil => ?_⟩
    cases hc hnil
  | ok => exact hdone
  | fail kind bytes => exact hdone

theorem lockIsStale_meets :
    Meets w lockIsStale
      ⟨fun b t => Ticks w t ∧ (w.cues = [] → w.held = false → LockFree w → LockOld w → b = true),
        fun _ _ => False, fun t => Ticks w t ∧ w.cues ≠ []⟩ := by
  unfold lockIsStale
  refine attempt_step_bind ?_ ?_ fun t ht hc => ⟨ht, hc⟩
  · intro t ht
    refine meets_get_bind ?_
    split
    · exact meets_pure ⟨ht, fun _ _ _ _ => rfl⟩
    · next lock hlock =>
      refine Meets.bind (R := ⟨fun parsed u => Ticks w u ∧ (w.cues = [] → parsed = lock.identity),
        fun _ _ => False, fun u => Ticks w u ∧ w.cues ≠ []⟩) ?_ ?_ (fun _ _ h => h.elim)
        (fun _ h => h)
      · refine attempt_step_bind ?_ ?_ fun u hu hc => ⟨ht.trans hu, ht.noisy hc⟩
        · intro u hu
          exact meets_pure ⟨ht.trans hu, fun _ => rfl⟩
        · intro e u hu hc
          exact meets_pure ⟨ht.trans hu, fun hnil => absurd hnil (ht.noisy hc)⟩
      · rintro parsed u ⟨hu, hparsed⟩
        rw [ht.lock] at hlock
        cases parsed with
        | some pid =>
          refine meets_pure ⟨hu, fun hnil hheld hfree _ => ?_⟩
          rcases hfree lock hlock with hh | hdead
          · cases hheld.symm.trans hh
          · rw [ht.locks.alive, hdead pid (hparsed hnil).symm]
            rfl
        | none =>
          refine meets_pure ⟨hu, fun hnil hheld _ hold => ?_⟩
          rcases hold lock hlock with hh | hage
          · cases hheld.symm.trans hh
          · rw [ht.locks.epoch]
            exact decide_eq_true (hage (hparsed hnil).symm)
  · intro e t ht hc
    exact meets_pure ⟨ht, fun hnil => absurd hnil hc⟩

theorem Locks.noisy (h : Locks w t) (ht : t.cues ≠ []) : w.cues ≠ [] :=
  fun hnil => ht (h.quiet hnil)

/-- What the writer finds in its way when it takes the lock in `n` tries. -/
def Blocked (n : Nat) (w : SegmentWriter) : Prop :=
  LockFree w → LockOld w → n < 2 ∧ (w.lock = none → n < 1)

/-- How a part of a call that may take or give back the lock ends. -/
def locking (w : SegmentWriter) (done : SegmentWriter → Prop) (blocked : Prop) :
    Post SegmentWriter ε Unit where
  done _ t := Locks w t ∧ done t
  failed _ t := Locks w t ∧ t.held = false ∧ (w.unlocks = true → LockFree w → LockFree t) ∧
    (w.cues = [] → blocked)
  crashed t := Locks w t ∧ w.cues ≠ []

theorem identified_meets :
    Meets w (attempt (do writeIdentity; step) : Task (Except ErrorKind Unit))
      ⟨fun r t => Locks w t ∧ t.held = w.held ∧ (w.cues = [] → r = .ok ()), fun _ _ => False,
        fun t => Locks w t ∧ w.cues ≠ []⟩ := by
  refine Meets.attempt (writeIdentity_meets.bind ?_ ?_ ?_)
  · rintro ⟨⟩ t ⟨ht, hheld⟩
    refine step_meets.imp ?_ ?_ ?_
    · rintro ⟨⟩ u hu
      exact ⟨ht.trans hu.locks, hu.held.trans hheld, fun _ => rfl⟩
    · rintro e u ⟨hu, hc⟩
      exact ⟨ht.trans hu.locks, hu.held.trans hheld, fun hnil => absurd hnil (ht.noisy hc)⟩
    · rintro u ⟨hu, hc⟩
      exact ⟨ht.trans hu.locks, ht.noisy hc⟩
  · rintro e t ⟨ht, hheld, hc⟩
    exact ⟨ht, hheld, fun hnil => absurd hnil hc⟩
  · rintro t h
    exact h

theorem removeLock_meets :
    Meets w removeLock
      ⟨fun _ t => Locks w t ∧ t.held = w.held ∧ t.lock = none,
        fun _ t => Ticks w t ∧ w.cues ≠ [], fun t => Ticks w t ∧ w.cues ≠ []⟩ := by
  unfold removeLock
  refine step_meets.bind ?_ (fun _ _ h => h) (fun _ h => h)
  rintro ⟨⟩ t ht
  exact meets_modify ⟨ht.locks.trans ⟨rfl, rfl, rfl, rfl, rfl, rfl, rfl, rfl, rfl, rfl, id⟩,
    ht.held, rfl⟩

theorem stale_meets {n : Nat}
    (ih : ∀ {w : SegmentWriter}, w.held = false →
      Meets w (acquireLoop n) (locking w (fun t => t.held = true) (Blocked n w)))
    (hheld : w.held = false) (ht : Ticks w t)
    (hc : w.cues = [] → ErrorKind.alreadyExists = .alreadyExists ∧ w.lock ≠ none) :
    Meets t (do
        if ← lockIsStale then
          io .opening removeLock
          acquireLoop n
        else fail { operation := .opening, kind := .writerConflict })
      (locking w (fun t => t.held = true) (Blocked (n + 1) w)) := by
  refine lockIsStale_meets.bind ?_ (fun _ _ h => h.elim)
    (fun u h => ⟨ht.locks.trans h.1.locks, ht.noisy h.2⟩)
  rintro stale u ⟨hu, hstale⟩
  have hwu := ht.trans hu
  have huheld : u.held = false := hwu.held.trans hheld
  cases stale with
  | false =>
    refine meets_fail ⟨hwu.locks, huheld, fun _ hfree => hfree.congr hwu.lock hwu.held
      hwu.locks.alive, fun hnil hfree hold => ?_⟩
    have htfree : LockFree t := hfree.congr ht.lock ht.held ht.locks.alive
    have htold : LockOld t := by
      unfold LockOld
      rw [ht.lock, ht.held, ht.locks.epoch]
      exact hold
    cases hstale (ht.locks.quiet hnil) (ht.held.trans hheld) htfree htold
  | true =>
    refine Meets.bind (R := ⟨fun _ v => Locks u v ∧ v.held = u.held ∧ v.lock = none,
      fun _ v => Ticks u v ∧ u.cues ≠ [], fun v => Ticks u v ∧ u.cues ≠ []⟩)
      (Meets.mapErr removeLock_meets) ?_ ?_ ?_
    · rintro ⟨⟩ v ⟨hv, hvheld, hnone⟩
      have hwv := hwu.locks.trans hv
      refine (ih (hvheld.trans huheld)).imp ?_ ?_ ?_
      · rintro ⟨⟩ x ⟨hx, hxheld⟩
        exact ⟨hwv.trans hx, hxheld⟩
      · rintro e x ⟨hx, hxheld, hxfree, hxquiet⟩
        refine ⟨hwv.trans hx, hxheld, fun hun _ => hxfree (hwv.unlocks.trans hun)
          (lockFree_of_none hnone), fun hnil _ _ => ?_⟩
        have hblocked := hxquiet (hwv.quiet hnil) (lockFree_of_none hnone) (by
          intro lock hlock
          cases hnone.symm.trans hlock)
        have hn : n < 1 := hblocked.2 hnone
        exact ⟨by omega, fun hwnone => absurd hwnone (hc hnil).2⟩
      · rintro x ⟨hx, hxc⟩
        exact ⟨hwv.trans hx, hwv.noisy hxc⟩
    · rintro e v ⟨hv, hvc⟩
      have hwv := hwu.trans hv
      exact ⟨hwv.locks, hwv.held.trans hheld, fun _ hfree => hfree.congr hwv.lock hwv.held
        hwv.locks.alive, fun hnil => absurd hnil (hwu.noisy hvc)⟩
    · rintro v ⟨hv, hvc⟩
      exact ⟨hwu.locks.trans hv.locks, hwu.noisy hvc⟩

theorem acquireLoop_meets {n : Nat} (hheld : w.held = false) :
    Meets w (acquireLoop n) (locking w (fun t => t.held = true) (Blocked n w)) := by
  induction n generalizing w with
  | zero =>
    unfold acquireLoop
    exact meets_fail ⟨.refl, hheld, fun _ hfree => hfree,
      fun _ _ _ => ⟨Nat.zero_lt_two, fun _ => Nat.zero_lt_one⟩⟩
  | succ n ih =>
    unfold acquireLoop
    refine Meets.bind (R := ⟨fun r t => Locks w t ∧ t.held = w.held ∧
        (∀ e, r = .error e → Ticks w t ∧ (w.cues = [] → e = .alreadyExists ∧ w.lock ≠ none)) ∧
        (r = .ok () → w.lock = none),
      fun _ _ => False, fun t => Locks w t ∧ w.cues ≠ []⟩)
      (Meets.attempt (createPrivateLock_meets.imp ?_ ?_ ?_)) ?_ (fun _ _ h => h.elim)
      (fun _ h => h)
    · rintro ⟨⟩ t ⟨ht, hh, hnone⟩
      refine ⟨ht, hh, ?_, fun _ => hnone⟩
      intro e he
      cases he
    · rintro e t ⟨ht, hc⟩
      refine ⟨ht.locks, ht.held, ?_, ?_⟩
      · rintro e' ⟨⟩
        exact ⟨ht, hc⟩
      · intro hr
        cases hr
    · rintro t ⟨ht, hc⟩
      exact ⟨ht.locks, hc⟩
    · rintro r t ⟨ht, hh, herr, hok⟩
      cases r with
      | ok value =>
        cases value
        refine identified_meets.bind ?_ (fun _ _ h => h.elim)
          (fun u h => ⟨ht.trans h.1, ht.noisy h.2⟩)
        rintro r u ⟨hu, huh, hr⟩
        cases r with
        | ok value =>
          exact meets_modify ⟨(ht.trans hu).trans
            ⟨rfl, rfl, rfl, rfl, rfl, rfl, rfl, rfl, rfl, rfl, id⟩, rfl⟩
        | error e =>
          refine unlock_meets.bind ?_ (fun _ _ h => h.elim)
            (fun v h => ⟨(ht.trans hu).trans h.1, (ht.trans hu).noisy h.2⟩)
          rintro ⟨⟩ v ⟨hv, hvh, hnone⟩
          refine meets_fail ⟨(ht.trans hu).trans hv, ?_, fun hun _ => ?_, fun hnil => ?_⟩
          · rw [hvh, huh, hh, hheld]
          · exact lockFree_of_none (hnone ((ht.trans hu).unlocks.trans hun))
          · cases hr (ht.quiet hnil)
      | error e =>
        obtain ⟨htick, hc⟩ := herr e rfl
        have hfree : LockFree w → LockFree t := fun h => h.congr htick.lock hh ht.alive
        have hother : e ≠ .alreadyExists → Meets t (fail (fromIo .opening e) : Task Unit)
            (locking w (fun t => t.held = true) (Blocked (n + 1) w)) := by
          intro hne
          exact meets_fail ⟨ht, hh.trans hheld, fun _ => hfree, fun hnil => absurd (hc hnil).1 hne⟩
        cases e with
        | alreadyExists => exact stale_meets ih hheld htick hc
        | storageFull => exact hother ErrorKind.noConfusion
        | permissionDenied => exact hother ErrorKind.noConfusion
        | readOnlyFilesystem => exact hother ErrorKind.noConfusion
        | other => exact hother ErrorKind.noConfusion

theorem acquireLock_meets :
    Meets w acquireLock
      (locking w (fun t => t.held = true ∧ (LockFree w → LockFree t))
        ¬ (LockFree w ∧ LockOld w)) := by
  unfold acquireLock
  refine meets_get_bind ?_
  split
  · next hheld => exact meets_pure ⟨.refl, hheld, id⟩
  · next hheld =>
    refine (acquireLoop_meets (Bool.eq_false_iff.mpr hheld)).imp ?_ ?_ (fun _ h => h)
    · rintro ⟨⟩ t ⟨ht, hh⟩
      exact ⟨ht, hh, fun _ _ _ => Or.inl hh⟩
    · rintro e t ⟨ht, hh, hfree, hquiet⟩
      refine ⟨ht, hh, hfree, fun hnil hok => ?_⟩
      exact absurd (hquiet hnil hok.1 hok.2).1 (Nat.lt_irrefl 2)

theorem releaseLock_meets :
    Meets w releaseLock
      ⟨fun _ t => Locks w t ∧ t.held = false ∧ (w.unlocks = true → LockFree w → LockFree t),
        fun _ _ => False, fun t => Locks w t ∧ w.cues ≠ []⟩ := by
  unfold releaseLock
  refine meets_get_bind ?_
  split
  · refine meets_modify_bind ?_
    have hfirst : Locks w { w with held := false } :=
      ⟨rfl, rfl, rfl, rfl, rfl, rfl, rfl, rfl, rfl, rfl, id⟩
    refine unlock_meets.imp ?_ (fun _ _ h => h) (fun t h => ⟨hfirst.trans h.1, h.2⟩)
    rintro ⟨⟩ t ⟨ht, hh, hnone⟩
    exact ⟨hfirst.trans ht, hh, fun hun _ => lockFree_of_none (hnone hun)⟩
  · next hheld =>
    exact meets_pure ⟨.refl, Bool.eq_false_iff.mpr hheld, fun _ h => h⟩

/-! ## Names of closed segments -/

theorem dot_notMem_padded (n : Nat) : '.' ∉ padded n := by
  intro hm
  rcases mem_append.mp hm with hm | hm
  · have hzero := eq_of_mem_replicate hm
    revert hzero
    decide
  · have hdigit := Nat.isDigit_of_mem_toDigits (by decide) (by decide) hm
    revert hdigit
    decide

theorem padded_inj {m n : Nat} (h : padded m = padded n) : m = n := by
  have hvalue : ∀ k, Nat.ofDigitChars 10 (padded k) 0 = k := by
    intro k
    rw [padded, Nat.ofDigitChars_append, Nat.ofDigitChars_replicate_zero, Nat.mul_zero,
      Nat.ofDigitChars_ten_toDigits]
  rw [← hvalue m, ← hvalue n, h]

variable {opts : SegmentWriterOptions} {reason : List Char}

theorem closedName_sequence {time time' sequence sequence' : Nat}
    (h : closedName opts time sequence reason = closedName opts time' sequence' reason) :
    sequence = sequence' := by
  unfold closedName at h
  have h' := (append_inj' (append_inj' h rfl).1 rfl).1
  have hrev : (padded sequence).reverse ++
        '.' :: (streamPrefix ++ opts.closedStamp time ++ '.' :: safeBootId opts.bootId).reverse =
      (padded sequence').reverse ++
        '.' :: (streamPrefix ++ opts.closedStamp time' ++
          '.' :: safeBootId opts.bootId).reverse := by
    simpa using congrArg List.reverse h'
  have heq := Uri.cut_inj (fun hm => dot_notMem_padded _ (mem_reverse.mp hm))
    (fun hm => dot_notMem_padded _ (mem_reverse.mp hm)) hrev
  exact padded_inj (reverse_inj.mp heq.1)

/-- Names are only looked for: what is dealt is used up, and the sequence goes on. -/
def Counts (w t : SegmentWriter) : Prop :=
  ∃ cues clock n, t = { w with cues, clock, rotationSequence := n } ∧ (w.cues = [] → cues = [])

theorem Counts.trans (h : Counts w t) (h' : Counts t u) : Counts w u := by
  obtain ⟨cues, clock, n, rfl, hq⟩ := h
  obtain ⟨cues', clock', n', rfl, hq'⟩ := h'
  exact ⟨cues', clock', n', rfl, fun hnil => hq' (hq hnil)⟩

theorem Counts.files (h : Counts w t) : Files w t := by
  obtain ⟨cues, clock, n, rfl, hq⟩ := h
  exact ⟨rfl, rfl, rfl, rfl, rfl, rfl, rfl, rfl, rfl, rfl, rfl, hq⟩

theorem Counts.isOpen (h : Counts w t) : t.isOpen = w.isOpen := by
  obtain ⟨cues, clock, n, rfl, -⟩ := h
  rfl

theorem Counts.active (h : Counts w t) : t.active = w.active := by
  obtain ⟨cues, clock, n, rfl, -⟩ := h
  rfl

/-- The names that `n` tries have found taken. -/
def Taken (opts : SegmentWriterOptions) (reason : List Char) (n : Nat) (w : SegmentWriter) : Prop :=
  ∃ names : List (List Char), names.Nodup ∧ names.length = n ∧
    names ⊆ w.dir.map Segment.name ∧
    ∀ name ∈ names, ∃ time sequence, w.rotationSequence < sequence ∧
      name = closedName opts time sequence reason

theorem nextClosedLoop_meets {n : Nat} :
    Meets w (nextClosedLoop opts reason n)
      ⟨fun path t => Counts w t ∧ path ∉ w.dir.map Segment.name,
        fun _ t => Counts w t ∧ (w.cues = [] → Taken opts reason n w),
        fun t => Counts w t ∧ w.cues ≠ []⟩ := by
  induction n generalizing w with
  | zero =>
    unfold nextClosedLoop
    refine meets_fail ⟨⟨w.cues, w.clock, w.rotationSequence, rfl, id⟩, fun _ => ?_⟩
    refine ⟨[], nodup_nil, rfl, nil_subset _, ?_⟩
    intro name hname
    cases hname
  | succ n ih =>
    unfold nextClosedLoop
    refine meets_modify_bind (now_bind ?_)
    intro time t ht
    refine meets_get_bind ?_
    have hcounts : ∀ {u}, Ticks t u → Counts w u := by
      intro u hu
      obtain ⟨cues, clock, rfl, hq⟩ := ht.trans hu
      exact ⟨cues, clock, _, rfl, hq⟩
    have hdir : ∀ {u}, Ticks t u → u.dir = w.dir := fun hu => (hcounts hu).files.dir
    have hnoisy : t.cues ≠ [] → w.cues ≠ [] := fun hc hnil => hc ((hcounts .refl).files.quiet hnil)
    have hsequence : t.rotationSequence = w.rotationSequence + 1 := by
      obtain ⟨cues, clock, rfl, -⟩ := ht
      rfl
    refine step_bind ?_ (fun e u hu hc => ⟨hcounts hu, fun hnil => absurd hnil (hnoisy hc)⟩)
      (fun u hu hc => ⟨hcounts hu, hnoisy hc⟩)
    intro u hu
    have hseen : t.dir.any (fun segment => segment.name == closedName opts time t.rotationSequence
        reason) = true ↔ closedName opts time t.rotationSequence reason ∈
          w.dir.map Segment.name := by
      rw [hdir .refl, any_eq_true, mem_map]
      exact exists_congr fun segment => and_congr_right fun _ => beq_iff_eq
    split
    · next hany =>
      refine ih.imp ?_ ?_ ?_
      · rintro path v ⟨hv, hpath⟩
        rw [hdir hu] at hpath
        exact ⟨(hcounts hu).trans hv, hpath⟩
      · rintro e v ⟨hv, htaken⟩
        refine ⟨(hcounts hu).trans hv, fun hnil => ?_⟩
        obtain ⟨names, hnodup, hlen, hsub, hnames⟩ := htaken ((hcounts hu).files.quiet hnil)
        have hlater : u.rotationSequence = t.rotationSequence := by
          obtain ⟨cues, clock, rfl, -⟩ := hu
          rfl
        refine ⟨closedName opts time t.rotationSequence reason :: names, ?_, ?_, ?_, ?_⟩
        · refine nodup_cons.mpr ⟨fun hm => ?_, hnodup⟩
          obtain ⟨time', sequence, hlt, hname⟩ := hnames _ hm
          have heq := closedName_sequence hname
          omega
        · rw [length_cons, hlen]
        · refine cons_subset.mpr ⟨hseen.mp hany, ?_⟩
          rw [← hdir hu]
          exact hsub
        · intro name hm
          rcases mem_cons.mp hm with rfl | hm
          · exact ⟨time, _, by omega, rfl⟩
          · obtain ⟨time', sequence, hlt, hname⟩ := hnames name hm
            exact ⟨time', sequence, by omega, hname⟩
      · rintro v ⟨hv, hc⟩
        exact ⟨(hcounts hu).trans hv, fun hnil => hc ((hcounts hu).files.quiet hnil)⟩
    · next hany =>
      exact meets_pure ⟨hcounts hu, fun hm => hany (hseen.mpr hm)⟩

theorem nextClosedPath_meets :
    Meets w (nextClosedPath opts reason)
      ⟨fun path t => Counts w t ∧ path ∉ w.dir.map Segment.name,
        fun _ t => Counts w t ∧ (w.cues = [] → 10000 ≤ w.dir.length),
        fun t => Counts w t ∧ w.cues ≠ []⟩ := by
  refine nextClosedLoop_meets.imp (fun _ _ h => h) ?_ (fun _ h => h)
  rintro e t ⟨ht, htaken⟩
  refine ⟨ht, fun hnil => ?_⟩
  obtain ⟨names, hnodup, hlen, hsub, -⟩ := htaken hnil
  have hle := hnodup.length_le_of_subset hsub
  rw [hlen, length_map] at hle
  exact hle

end VibeField.Native.SegmentWriter
