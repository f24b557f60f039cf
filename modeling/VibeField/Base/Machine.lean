/-!
# Machines and their runs

A machine has a start state and a step that an event may or may not be able to
take.  `Reaches ok` collects the states of the runs all of whose steps meet the
condition `ok`, a relation between the state before a step and its event, and
`Reachable` the states of every run.

A safety property is proved by `Reaches.invariant`: it holds at the start, and a
step that meets the condition keeps it.  A concrete run is replayed by `run`,
which the kernel evaluates.
-/

namespace VibeField

universe u v

theorem mem_snoc {α : Type u} {a b : α} {l : List α} : a ∈ l ++ [b] ↔ a ∈ l ∨ a = b := by
  rw [List.mem_append, List.mem_singleton]

structure Machine (σ : Type u) (ε : Type v) where
  start : σ
  next : σ → ε → Option σ

namespace Machine

variable {σ : Type u} {ε : Type v} {M : Machine σ ε} {ok : σ → ε → Prop}

/-- The states of the runs whose steps all meet `ok`. -/
inductive Reaches (M : Machine σ ε) (ok : σ → ε → Prop) : σ → Prop
  | start : Reaches M ok M.start
  | next {s s' : σ} {e : ε} :
      Reaches M ok s → ok s e → M.next s e = some s' → Reaches M ok s'

def Reachable (M : Machine σ ε) : σ → Prop := Reaches M fun _ _ => True

variable {s : σ} {P : σ → Prop}

theorem Reaches.invariant (hstart : P M.start)
    (hnext : ∀ s e s', P s → ok s e → M.next s e = some s' → P s')
    (h : Reaches M ok s) : P s := by
  induction h with
  | start => exact hstart
  | next _ hok hs ih => exact hnext _ _ _ ih hok hs

theorem Reaches.invariant_of (hstart : P M.start)
    (hnext : ∀ s e s', Reaches M ok s → P s → ok s e → M.next s e = some s' → P s')
    (h : Reaches M ok s) : P s := by
  induction h with
  | start => exact hstart
  | next hr hok hs ih => exact hnext _ _ _ hr ih hok hs

theorem Reaches.weaken {ok' : σ → ε → Prop}
    (himp : ∀ s e s', Reaches M ok s → ok s e → M.next s e = some s' → ok' s e)
    (h : Reaches M ok s) : Reaches M ok' s := by
  induction h with
  | start => exact .start
  | next hr hok hs ih => exact ih.next (himp _ _ _ hr hok hs) hs

theorem Reaches.reachable (h : Reaches M ok s) : Reachable M s :=
  h.weaken fun _ _ _ _ _ _ => trivial

theorem Reachable.invariant (hstart : P M.start)
    (hnext : ∀ s e s', P s → M.next s e = some s' → P s') (h : M.Reachable s) : P s :=
  Reaches.invariant hstart (fun s e s' hp _ hs => hnext s e s' hp hs) h

theorem Reachable.next {s s' : σ} {e : ε} (h : M.Reachable s) (hs : M.next s e = some s') :
    M.Reachable s' :=
  Reaches.next h trivial hs

inductive Follows (M : Machine σ ε) (keep : σ → Prop) (s : σ) : σ → Prop
  | refl : Follows M keep s s
  | next {t u : σ} {e : ε} : Follows M keep s t → M.next t e = some u → keep u → Follows M keep s u

theorem Follows.invariant {keep P : σ → Prop} {s u : σ} (hs : P s)
    (hnext : ∀ t e u, P t → M.next t e = some u → keep u → P u) (h : Follows M keep s u) : P u := by
  induction h with
  | refl => exact hs
  | next _ hu hkeep ih => exact hnext _ _ _ ih hu hkeep

def run (M : Machine σ ε) (keep : σ → ε → Bool) : σ → List ε → Option σ
  | s, [] => some s
  | s, e :: rest => if keep s e then (M.next s e).bind fun s' => M.run keep s' rest else none

theorem reaches_run {keep : σ → ε → Bool} (hkeep : ∀ s e, keep s e = true → ok s e)
    (h : M.Reaches ok s) :
    ∀ {es : List ε} {s' : σ}, M.run keep s es = some s' → M.Reaches ok s' := by
  intro es
  induction es generalizing s with
  | nil =>
    intro s' hr
    obtain rfl : s = s' := by simpa [run] using hr
    exact h
  | cons e rest ih =>
    intro s' hr
    rw [run] at hr
    split at hr
    · next hke =>
      obtain ⟨t, ht, hr⟩ := Option.bind_eq_some_iff.mp hr
      exact ih (h.next (hkeep s e hke) ht) hr
    · cases hr

theorem exists_of_keeping_run {keep : σ → ε → Bool} (hkeep : ∀ s e, keep s e = true → ok s e)
    (p : σ → Bool) (es : List ε) (h : (M.run keep M.start es).map p = some true) :
    ∃ s, M.Reaches ok s ∧ p s = true := by
  obtain ⟨s, hs, hp⟩ := Option.map_eq_some_iff.mp h
  exact ⟨s, reaches_run hkeep .start hs, hp⟩

theorem exists_of_orderly_run (ok : σ → ε → Prop) [∀ s e, Decidable (ok s e)] (p : σ → Bool)
    (es : List ε) (h : (M.run (fun s e => decide (ok s e)) M.start es).map p = some true) :
    ∃ s, M.Reaches ok s ∧ p s = true :=
  exists_of_keeping_run (fun _ _ hok => of_decide_eq_true hok) p es h

theorem exists_of_run (p : σ → Bool) (es : List ε)
    (h : (M.run (fun _ _ => true) M.start es).map p = some true) :
    ∃ s, M.Reachable s ∧ p s = true :=
  exists_of_keeping_run (fun _ _ _ => trivial) p es h

end Machine
end VibeField
