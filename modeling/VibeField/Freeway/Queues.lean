import VibeField.Freeway.Writer

/-!
# What a stream still has to send

The queues of a writer's streams, apart from the rings and the deficits that decide
whose turn it is.  A call for the next frame leaves every queue alone or lets one
stream give up the front of its own.  A frame the codec refuses is given up unsent,
and the search goes on.
-/

namespace VibeField.Freeway.Writer

def queueOf (w : Writer) (x : StreamId) : Option (List Queued) :=
  (w.streams.lookup x).map Stream.queue

variable {w w' w'' : Writer} {x : StreamId}

theorem queueOf_setStream (w : Writer) (x y : StreamId) (state : Stream) :
    (w.setStream x state).queueOf y = if y = x then some state.queue else w.queueOf y := by
  rw [queueOf, setStream, Dict.lookup_insert]
  split <;> rfl

theorem queueOf_openStream (w : Writer) (x y : StreamId) (cls : Class) (windowed : Bool) :
    (w.openStream x cls windowed).queueOf y = if y = x then some [] else w.queueOf y :=
  queueOf_setStream _ _ _ _

theorem queueOf_queue (w : Writer) (x y : StreamId) (kind : FrameType) (payload : Bytes) :
    (w.queue x kind payload).queueOf y =
      if y = x then (w.queueOf x).map (· ++ [{ kind := kind, payload := payload, sent := 0 }])
      else w.queueOf y := by
  unfold queue
  split
  · next hnone =>
    split
    · next hxy => rw [hxy, queueOf, hnone]; rfl
    · rfl
  · next state hstate =>
    have hset := queueOf_setStream w x y
      { state with queue := state.queue ++ [{ kind := kind, payload := payload, sent := 0 }] }
    rw [queueOf, queueOf, hstate]
    dsimp only
    split <;> exact hset

theorem queueOf_reclass (w : Writer) (x y : StreamId) (cls : Class) :
    (w.reclass x cls).queueOf y = w.queueOf y := by
  unfold reclass
  split
  · rfl
  · next state hstate =>
    split
    · rfl
    · have hset : (w.setStream x { state with cls := cls }).queueOf y = w.queueOf y := by
        rw [queueOf_setStream]
        split
        · next hxy => rw [hxy, queueOf, hstate]; rfl
        · rfl
      dsimp only
      split <;> exact hset

theorem queueOf_grant (w : Writer) (x y : StreamId) (bytes : Nat) :
    (w.grant x bytes).queueOf y = w.queueOf y := by
  unfold grant
  split
  · rfl
  · next state hstate =>
    split
    · rfl
    · rw [queueOf_setStream]
      split
      · next hxy => rw [hxy, queueOf, hstate]; rfl
      · rfl

@[simp]
theorem link_queue (w : Writer) (x : StreamId) (kind : FrameType) (payload : Bytes) :
    (w.queue x kind payload).link = w.link := by
  unfold queue
  split
  · rfl
  · dsimp only
    split <;> rfl

@[simp]
theorem link_reclass (w : Writer) (x : StreamId) (cls : Class) :
    (w.reclass x cls).link = w.link := by
  unfold reclass
  split
  · rfl
  · dsimp only
    split
    · rfl
    · split <;> rfl

@[simp]
theorem link_grant (w : Writer) (x : StreamId) (bytes : Nat) : (w.grant x bytes).link = w.link := by
  unfold grant
  split
  · rfl
  · split <;> rfl

/-! ## The next frame of some stream -/

/-- One stream gave up the front of its queue, cut to some fragment size. -/
structure Gives (w w' : Writer) (frame : Frame) : Prop where
  link : w'.link = w.link
  queues : ∃ (v : Writer) (x : StreamId) (head : Queued) (behind : List Queued),
    w.queueOf x = some (head :: behind) ∧ frame = (v.cut x head).1 ∧
    ∀ y, w'.queueOf y =
      if y = x then (if head.last then none else some (v.leftover x head behind))
      else w.queueOf y

structure Idle (w w' : Writer) : Prop where
  link : w'.link = w.link
  queues : ∀ y, w'.queueOf y = w.queueOf y

/-- What a search for a frame did to the queues. -/
inductive Drew : Writer → Writer × Option Bytes → Prop
  | nothing {w w' : Writer} : Idle w w' → Drew w (w', none)
  | found {w w' : Writer} {frame : Frame} {message : Bytes} :
      Gives w w' frame → encode frame = .ok message → Drew w (w', some message)
  | dropped {w w' : Writer} {frame : Frame} {e : FrameError} {r : Writer × Option Bytes} :
      Gives w w' frame → encode frame = .error e → Drew w' r → Drew w r

theorem Idle.rfl : Idle w w := ⟨.refl _, fun _ => .refl _⟩

theorem Idle.trans (h : Idle w w') (h' : Idle w' w'') : Idle w w'' :=
  ⟨h'.link.trans h.link, fun y => (h'.queues y).trans (h.queues y)⟩

theorem Gives.after {frame : Frame} (h : Gives w' w'' frame) (hi : Idle w w') :
    Gives w w'' frame := by
  obtain ⟨v, x, head, behind, hx, hframe, hqueues⟩ := h.queues
  refine ⟨h.link.trans hi.link, v, x, head, behind, (hi.queues x).symm.trans hx, hframe,
    fun y => ?_⟩
  rw [hqueues, hi.queues]

theorem Gives.before {frame : Frame} (h : Gives w w' frame) (hi : Idle w' w'') :
    Gives w w'' frame := by
  obtain ⟨v, x, head, behind, hx, hframe, hqueues⟩ := h.queues
  exact ⟨hi.link.trans h.link, v, x, head, behind, hx, hframe,
    fun y => (hi.queues y).trans (hqueues y)⟩

theorem Drew.after {r : Writer × Option Bytes} (h : Drew w' r) (hi : Idle w w') : Drew w r := by
  cases h with
  | nothing hi' => exact .nothing (hi.trans hi')
  | found hg he => exact .found (hg.after hi) he
  | dropped hg he hr => exact .dropped (hg.after hi) he hr

theorem Drew.andThen {p r : Writer × Option Bytes} (h : Drew w p) (hnone : p.2 = none)
    (hr : Drew p.1 r) : Drew w r := by
  induction h with
  | nothing hi => exact hr.after hi
  | found hg he => cases hnone
  | dropped hg he _ ih => exact .dropped hg he (ih hnone hr)

theorem Drew.counted {r : Writer × Option Bytes} (h : Drew w r) {w' : Writer}
    (hi : Idle r.1 w') : Drew w (w', r.2) := by
  induction h with
  | nothing hi' => exact .nothing (hi'.trans hi)
  | found hg he => exact .found (hg.before hi) he
  | dropped hg he _ ih => exact .dropped hg he (ih hi)

theorem serve_gives {cls : Class} {state : Stream} {head : Queued} {behind : List Queued}
    (hx : w.streams.lookup x = some state) (hq : state.queue = head :: behind)
    (rest : List StreamId) :
    Gives w ((w.setRing cls rest).serve cls x state head behind)
      ((w.setRing cls rest).cut x head).1 := by
  have hqueue : w.queueOf x = some (head :: behind) := by rw [queueOf, hx, ← hq]; rfl
  have hqueues : ∀ y, ((w.setRing cls rest).serve cls x state head behind).queueOf y =
      if y = x then
        (if head.last then none else some ((w.setRing cls rest).leftover x head behind))
      else w.queueOf y := by
    intro y
    unfold serve
    dsimp only
    split
    · rw [queueOf, Dict.lookup_erase]
      split <;> rfl
    · have hset := queueOf_setStream (w.setRing cls rest) x y
        { state with
          window := state.window.map fun window =>
            window - ((w.setRing cls rest).cut x head).2.2
          queue := (w.setRing cls rest).leftover x head behind }
      split <;> exact hset
  refine ⟨?_, _, x, head, behind, hqueue, rfl, hqueues⟩
  unfold serve
  dsimp only
  split
  · rfl
  · split <;> rfl

theorem nextFromLoop_drew (cls : Class) (tries : Nat) (w : Writer) :
    Drew w (nextFromLoop cls tries w) := by
  induction tries generalizing w with
  | zero => exact .nothing .rfl
  | succ tries ih =>
    unfold nextFromLoop
    split
    · exact .nothing .rfl
    · next x rest _ =>
      dsimp only
      split
      · exact .nothing ⟨.refl _, fun _ => .refl _⟩
      · next state hx =>
        split
        · exact (ih _).after ⟨.refl _, fun _ => .refl _⟩
        · split
          · exact .nothing ⟨.refl _, fun _ => .refl _⟩
          · next head behind hq =>
            have hgives : Gives w ((w.setRing cls rest).serve cls x state head behind)
                ((w.setRing cls rest).cut x head).1 := serve_gives hx hq rest
            split
            · next message he => exact .found hgives he
            · next e he => exact .dropped hgives he (ih _)

theorem headCostLoop_idle (cls : Class) (tries : Nat) (w : Writer) :
    Idle w (headCostLoop cls tries w).1 := by
  induction tries generalizing w with
  | zero => exact .rfl
  | succ tries ih =>
    unfold headCostLoop
    split
    · exact .rfl
    · next x rest _ =>
      split
      · exact .rfl
      · split
        · split <;> exact .rfl
        · have hturned : Idle w (w.setRing cls (rest ++ [x])) := ⟨.refl _, fun _ => .refl _⟩
          exact hturned.trans (ih _)

theorem nextSharedLoop_drew (quantum tries : Nat) (w : Writer) :
    Drew w (nextSharedLoop quantum tries w) := by
  induction tries generalizing w with
  | zero => exact .nothing .rfl
  | succ tries ih =>
    unfold nextSharedLoop
    have hidle : Idle w (w.headCost (Class.shared w.turn)).1 := headCostLoop_idle _ _ _
    dsimp only
    split
    · next w' heq =>
      rw [heq] at hidle
      exact (ih _).after (hidle.trans ⟨.refl _, fun _ => .refl _⟩)
    · next w' cost heq =>
      rw [heq] at hidle
      split
      · exact (nextFromLoop_drew _ _ _).after (hidle.trans ⟨.refl _, fun _ => .refl _⟩)
      · exact (ih _).after (hidle.trans ⟨.refl _, fun _ => .refl _⟩)

theorem nextFrame_drew (w : Writer) :
    (∃ message rest, w.link = message :: rest ∧ w.nextFrame.2 = some message ∧
      w.nextFrame.1.link = rest ∧ ∀ y, w.nextFrame.1.queueOf y = w.queueOf y) ∨
    Drew w w.nextFrame := by
  have hcounted : ∀ {r : Writer × Option Bytes}, w.pick = r → Drew w r → Drew w w.nextFrame := by
    rintro ⟨w', found⟩ hpick h
    unfold nextFrame
    rw [hpick]
    cases found with
    | none => exact h
    | some frame => exact h.counted ⟨.refl _, fun _ => .refl _⟩
  cases hlink : w.link with
  | cons message rest =>
    left
    have hpick : w.pick = ({ w with link := rest }, some message) := by
      unfold pick
      rw [hlink]
    refine ⟨message, rest, .refl _, ?_⟩
    unfold nextFrame
    rw [hpick]
    exact ⟨.refl _, .refl _, fun _ => .refl _⟩
  | nil =>
    right
    have hurgent : Drew w (w.nextFrom .urgent) := nextFromLoop_drew _ _ _
    refine hcounted (.refl _) ?_
    unfold pick
    rw [hlink]
    dsimp only
    split
    · next w' frame heq => rwa [heq] at hurgent
    · next w' heq =>
      rw [heq] at hurgent
      split
      · exact hurgent
      · exact hurgent.andThen (.refl _) (nextSharedLoop_drew _ _ _)

end VibeField.Freeway.Writer
