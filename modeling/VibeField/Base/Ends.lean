/-!
# Computations that may stop

What a computation in `Except` comes to: one statement about the value it ends with and one about
what stopped it.  The rules follow the computation's own steps, so that a statement about a whole
computation is put together from statements about its parts.
-/

namespace VibeField

universe u v w

variable {ε : Type u} {α : Type v} {β : Type v}

def Ends (Q : α → Prop) (E : ε → Prop) : Except ε α → Prop
  | .ok a => Q a
  | .error e => E e

namespace Ends

variable {Q Q' : α → Prop} {R : β → Prop} {E E' : ε → Prop} {x : Except ε α}

theorem ok {a : α} (h : Q a) : Ends Q E (.ok a : Except ε α) := h

theorem of_ok {a : α} (h : Ends Q E x) (hx : x = .ok a) : Q a := by
  subst hx
  exact h

theorem of_error {e : ε} (h : Ends Q E x) (hx : x = .error e) : E e := by
  subst hx
  exact h

theorem mono (h : Ends Q E x) (hQ : ∀ a, x = .ok a → Q a → Q' a) (hE : ∀ e, E e → E' e) :
    Ends Q' E' x := by
  cases x with
  | ok a => exact hQ a rfl h
  | error e => exact hE e h

theorem self (x : Except ε α) : Ends (fun a => x = .ok a) (fun e => x = .error e) x := by
  cases x with
  | ok a => exact Eq.refl (Except.ok a)
  | error e => exact Eq.refl (Except.error e)

theorem and (h : Ends Q E x) (h' : Ends Q' E' x) :
    Ends (fun a => Q a ∧ Q' a) (fun e => E e ∧ E' e) x := by
  cases x with
  | ok a => exact ⟨h, h'⟩
  | error e => exact ⟨h, h'⟩

theorem bind {f : α → Except ε β} (h : Ends Q E x) (hf : ∀ a, Q a → Ends R E (f a)) :
    Ends R E (x >>= f) := by
  cases x with
  | ok a => exact hf a h
  | error e => exact h

end Ends

theorem ok_bind (a : α) (f : α → Except ε β) : ((.ok a : Except ε α) >>= f) = f a := rfl

/-! ## The steps that stop -/

def present (value : Option α) (stop : ε) : Except ε α :=
  match value with
  | some a => .ok a
  | none => .error stop

/-- Go on where the condition holds. -/
def require (holds : Prop) [Decidable holds] (stop : ε) : Except ε Unit :=
  if holds then .ok () else .error stop

def orStop {μ : Type w} (value : Except μ α) (stop : μ → ε) : Except ε α :=
  match value with
  | .ok a => .ok a
  | .error why => .error (stop why)

namespace Ends

variable {E : ε → Prop}

theorem present {value : Option α} {stop : ε} (h : E stop) :
    Ends (fun a => value = some a) E (present value stop) := by
  cases value with
  | none => exact h
  | some a => exact Eq.refl (some a)

theorem require {holds : Prop} [Decidable holds] {stop : ε} (h : E stop) :
    Ends (fun _ => holds) E (require holds stop) := by
  unfold VibeField.require
  split
  · next hholds => exact hholds
  · exact h

theorem orStop {μ : Type w} {value : Except μ α} {stop : μ → ε}
    (h : ∀ why, value = .error why → E (stop why)) :
    Ends (fun a => value = .ok a) E (orStop value stop) := by
  cases value with
  | ok a => exact Eq.refl (Except.ok a)
  | error why => exact h why rfl

end Ends

end VibeField
