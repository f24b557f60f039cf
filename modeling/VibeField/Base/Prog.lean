/-!
# Programs whose steps may fail

A program over a state ends with a value, with an error that a caller may catch, or with a crash
that nobody catches; in each case it leaves a state behind.

`Meets s p Q` says how `p` ends from `s`: `Q` has one condition for each way to end, on the state it
is left in.  A proof follows the program with one rule for each construct.
-/

namespace VibeField

/-- How a program ends. -/
inductive Ending (ε α : Type) where
  | done (value : α)
  | failed (error : ε)
  | crashed
  deriving Repr

def Prog (σ ε α : Type) := σ → σ × Ending ε α

namespace Prog

variable {σ ε ε' α β : Type}

instance : Monad (Prog σ ε) where
  pure a := fun s => (s, .done a)
  bind p f := fun s =>
    match p s with
    | (t, .done a) => f a t
    | (t, .failed e) => (t, .failed e)
    | (t, .crashed) => (t, .crashed)

def get : Prog σ ε σ := fun s => (s, .done s)

def modify (f : σ → σ) : Prog σ ε Unit := fun s => (f s, .done ())

def fail (e : ε) : Prog σ ε α := fun s => (s, .failed e)

def crash : Prog σ ε α := fun s => (s, .crashed)

def attempt (p : Prog σ ε α) : Prog σ ε' (Except ε α) := fun s =>
  match p s with
  | (t, .done a) => (t, .done (.ok a))
  | (t, .failed e) => (t, .done (.error e))
  | (t, .crashed) => (t, .crashed)

def mapErr (f : ε → ε') (p : Prog σ ε α) : Prog σ ε' α := fun s =>
  match p s with
  | (t, .done a) => (t, .done a)
  | (t, .failed e) => (t, .failed (f e))
  | (t, .crashed) => (t, .crashed)

/-- What holds of the state a program leaves, for each way it ends. -/
structure Post (σ ε α : Type) where
  done : α → σ → Prop
  failed : ε → σ → Prop
  crashed : σ → Prop

def Post.Holds (Q : Post σ ε α) : σ × Ending ε α → Prop
  | (s, .done a) => Q.done a s
  | (s, .failed e) => Q.failed e s
  | (s, .crashed) => Q.crashed s

/-- From `s`, the program ends as `Q` says. -/
def Meets (s : σ) (p : Prog σ ε α) (Q : Post σ ε α) : Prop := Q.Holds (p s)

variable {s : σ} {p : Prog σ ε α} {Q : Post σ ε α}

theorem meets_pure {a : α} (h : Q.done a s) : Meets s (pure a) Q := h

theorem meets_get {Q : Post σ ε σ} (h : Q.done s s) : Meets s get Q := h

theorem meets_modify {f : σ → σ} {Q : Post σ ε Unit} (h : Q.done () (f s)) :
    Meets s (modify f) Q := h

theorem meets_fail {e : ε} (h : Q.failed e s) : Meets s (fail e) Q := h

theorem meets_crash (h : Q.crashed s) : Meets s crash Q := h

theorem Meets.imp {Q R : Post σ ε α} (h : Meets s p R) (hdone : ∀ a t, R.done a t → Q.done a t)
    (hfailed : ∀ e t, R.failed e t → Q.failed e t) (hcrashed : ∀ t, R.crashed t → Q.crashed t) :
    Meets s p Q := by
  unfold Meets Post.Holds at *
  split at h
  · exact hdone _ _ h
  · exact hfailed _ _ h
  · exact hcrashed _ h

theorem Meets.bind {R : Post σ ε α} {Q : Post σ ε β} {f : α → Prog σ ε β} (h : Meets s p R)
    (hdone : ∀ a t, R.done a t → Meets t (f a) Q) (hfailed : ∀ e t, R.failed e t → Q.failed e t)
    (hcrashed : ∀ t, R.crashed t → Q.crashed t) : Meets s (p >>= f) Q := by
  show Q.Holds (match p s with
    | (t, .done a) => f a t
    | (t, .failed e) => (t, .failed e)
    | (t, .crashed) => (t, .crashed))
  unfold Meets Post.Holds at h
  split at h
  · exact hdone _ _ h
  · exact hfailed _ _ h
  · exact hcrashed _ h

theorem meets_get_bind {Q : Post σ ε β} {f : σ → Prog σ ε β} (h : Meets s (f s) Q) :
    Meets s (get >>= f) Q := h

theorem meets_modify_bind {Q : Post σ ε β} {g : σ → σ} {f : Unit → Prog σ ε β}
    (h : Meets (g s) (f ()) Q) : Meets s (modify g >>= f) Q := h

theorem Meets.attempt {Q : Post σ ε' (Except ε α)}
    (h : Meets s p ⟨fun a => Q.done (.ok a), fun e => Q.done (.error e), Q.crashed⟩) :
    Meets s (attempt p : Prog σ ε' (Except ε α)) Q := by
  unfold Meets Post.Holds at h
  unfold Meets Prog.attempt
  split at h
  · exact h
  · exact h
  · exact h

theorem Meets.mapErr {f : ε → ε'} {Q : Post σ ε' α}
    (h : Meets s p ⟨Q.done, fun e => Q.failed (f e), Q.crashed⟩) : Meets s (p.mapErr f) Q := by
  unfold Meets Post.Holds at h
  unfold Meets Prog.mapErr
  split at h
  · exact h
  · exact h
  · exact h

/-! ## The errors of a program -/

/-- Every error the program ends with satisfies `P`. -/
def FailsWith (P : ε → Prop) (p : Prog σ ε α) : Prop :=
  ∀ s, Meets s p ⟨fun _ _ => True, fun e _ => P e, fun _ => True⟩

variable {P : ε → Prop}

theorem failsWith_pure {a : α} : FailsWith P (pure a : Prog σ ε α) := fun _ => meets_pure trivial

theorem failsWith_get : FailsWith P (get : Prog σ ε σ) := fun _ => meets_get trivial

theorem failsWith_modify {f : σ → σ} : FailsWith P (modify f : Prog σ ε Unit) :=
  fun _ => meets_modify trivial

theorem failsWith_fail {e : ε} (h : P e) : FailsWith P (fail e : Prog σ ε α) :=
  fun _ => meets_fail h

theorem FailsWith.bind {f : α → Prog σ ε β} (hp : FailsWith P p) (hf : ∀ a, FailsWith P (f a)) :
    FailsWith P (p >>= f) :=
  fun s => (hp s).bind (fun a t _ => hf a t) (fun _ _ h => h) fun _ h => h

theorem failsWith_attempt {q : Prog σ ε' α} :
    FailsWith P (attempt q : Prog σ ε (Except ε' α)) := by
  intro s
  refine Meets.attempt ?_
  unfold Meets Post.Holds
  split <;> trivial

theorem failsWith_mapErr {P : ε' → Prop} {f : ε → ε'} (h : ∀ e, P (f e)) :
    FailsWith P (p.mapErr f) := by
  intro s
  refine Meets.mapErr ?_
  unfold Meets Post.Holds
  split
  · trivial
  · exact h _
  · trivial

theorem Meets.failsWith (h : Meets s p Q) (hp : FailsWith P p) :
    Meets s p ⟨Q.done, fun e t => Q.failed e t ∧ P e, Q.crashed⟩ := by
  have hs := hp s
  unfold Meets Post.Holds at *
  split at h
  · exact h
  · next t e heq =>
    rw [heq] at hs
    exact ⟨h, hs⟩
  · exact h

end Prog
end VibeField
