import VibeField.Base.Machine

/-!
# What must come

A goal is inevitable by the inner events of a machine where it has come, or where some inner event
can take place and after each that can it is inevitable.  The inner events are those that nobody has
to ask for.  A measure that they lower shows it.
-/

namespace VibeField.Machine

universe u v

variable {σ : Type u} {ε : Type v}

inductive Inevitable (M : Machine σ ε) (inner : ε → Prop) (goal : σ → Prop) : σ → Prop
  | now {s : σ} : goal s → Inevitable M inner goal s
  | later {s : σ} : (∃ e s', inner e ∧ M.next s e = some s') →
      (∀ e s', inner e → M.next s e = some s' → Inevitable M inner goal s') →
        Inevitable M inner goal s

theorem Inevitable.of_measure {M : Machine σ ε} {inner : ε → Prop} {goal P : σ → Prop}
    (measure : σ → Nat) (henabled : ∀ s, P s → goal s ∨ ∃ e s', inner e ∧ M.next s e = some s')
    (hstep : ∀ s e s', P s → inner e → M.next s e = some s' →
      goal s' ∨ P s' ∧ measure s' < measure s) {s : σ} (h : P s) : M.Inevitable inner goal s := by
  induction hm : measure s using Nat.strongRecOn generalizing s with
  | ind m ih =>
    rcases henabled s h with hgoal | hinner
    · exact .now hgoal
    · refine .later hinner fun e s' he hs => ?_
      rcases hstep s e s' h he hs with hgoal | ⟨hP, hlt⟩
      · exact .now hgoal
      · exact ih (measure s') (by omega) hP rfl

end VibeField.Machine
