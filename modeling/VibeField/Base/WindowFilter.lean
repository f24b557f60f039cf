import Mathlib.Data.List.DropRight
import Mathlib.Order.Defs.Unbundled

/-!
# The best sample of a window

Samples come with their times, oldest first.  A filter keeps those that no later one is as good as:
a new sample drops the ones before it that are no better, and time drops the ones that have left the
window, the newest excepted.  Its first sample is the best of those the window still has.
-/

namespace VibeField.WindowFilter

open List

variable {α : Type}

abbrev Sample (α : Type) := Nat × α

def expire (window now : Nat) : List (Sample α) → List (Sample α)
  | s :: s' :: rest =>
    if window < now - s.1 then expire window now (s' :: rest) else s :: s' :: rest
  | q => q

def unexpired (window now : Nat) (samples : List (Sample α)) : List (Sample α) :=
  (samples.dropLast.filter fun s => now - s.1 ≤ window) ++ samples.getLast?.toList

section

-- `worse a b`: the sample `b` makes `a` useless
variable (worse : α → α → Prop) [DecidableRel worse]

def push (now : Nat) (value : α) (q : List (Sample α)) : List (Sample α) :=
  q.rdropWhile (fun s => worse s.2 value) ++ [(now, value)]

end

/-- What a filter holds of the samples given to it. -/
structure Keeps (worse : α → α → Prop) (window now : Nat) (samples q : List (Sample α)) :
    Prop where
  past : ∀ s ∈ samples, s.1 ≤ now
  sub : q.Sublist samples
  newest : q.getLast? = samples.getLast?
  strict : q.Pairwise fun s t => ¬worse s.2 t.2
  covers : ∀ s ∈ samples, now - s.1 ≤ window → ∃ t ∈ q, s.1 ≤ t.1 ∧ worse s.2 t.2

variable {worse : α → α → Prop} {window now now' : Nat} {samples q : List (Sample α)}

theorem keeps_nil : Keeps worse window now [] [] where
  past _ h := by cases h
  sub := List.Sublist.refl _
  newest := rfl
  strict := List.Pairwise.nil
  covers _ h := by cases h

theorem Keeps.later (h : Keeps worse window now samples q) (hnow : now ≤ now') :
    Keeps worse window now' samples q where
  __ := h
  past s hs := Nat.le_trans (h.past s hs) hnow
  covers s hs hage := h.covers s hs (by omega)

/-! ## The samples that leave the window -/

theorem Keeps.expire (h : Keeps worse window now samples q) :
    Keeps worse window now samples (expire window now q) := by
  fun_induction WindowFilter.expire window now q with
  | case1 s s' rest hold ih =>
    refine ih ⟨h.past, (sublist_cons_self _ _).trans h.sub, ?_, ?_, fun x hx hage => ?_⟩
    · rw [← h.newest, List.getLast?_cons_cons]
    · exact (pairwise_cons.mp h.strict).2
    · obtain ⟨t, ht, htime, hworse⟩ := h.covers x hx hage
      rcases mem_cons.mp ht with rfl | ht
      · omega
      · exact ⟨t, ht, htime, hworse⟩
  | case2 s s' rest hyoung => exact h
  | case3 q hq => exact h

theorem expire_fresh (q : List (Sample α)) {s : Sample α} {rest : List (Sample α)}
    (h : expire window now q = s :: rest) (hrest : rest ≠ []) : now - s.1 ≤ window := by
  fun_induction WindowFilter.expire window now q with
  | case1 s s' rest hold ih => exact ih h
  | case2 x x' rest' hyoung =>
    rw [List.cons.injEq] at h
    rw [← h.1]
    omega
  | case3 q hq =>
    cases rest with
    | nil => exact absurd rfl hrest
    | cons s' rest => exact absurd h (hq s s' rest)

/-! ## The samples a new one drops -/

section

variable [Std.Total worse]

theorem worse_refl (a : α) : worse a a := (Std.Total.total a a).elim id id

theorem worse_of_not {a b : α} (h : ¬worse a b) : worse b a :=
  (Std.Total.total a b).resolve_left h

end

section

variable [DecidableRel worse]

theorem mem_rdropWhile {p : Sample α → Bool} {s : Sample α} (h : s ∈ q) :
    s ∈ q.rdropWhile p ∨ p s = true := by
  induction q using List.reverseRecOn with
  | nil => cases h
  | append_singleton q t ih =>
    rw [rdropWhile_concat]
    split
    · next ht =>
      rcases mem_append.mp h with hs | hs
      · exact ih hs
      · rw [mem_singleton] at hs
        exact .inr (hs ▸ ht)
    · exact .inl h

variable [Std.Total worse] [IsTrans α worse]

theorem not_worse_of_kept {value : α} (hstrict : q.Pairwise fun s t => ¬worse s.2 t.2) :
    ∀ s ∈ q.rdropWhile (fun s => decide (worse s.2 value)), ¬worse s.2 value := by
  induction q using List.reverseRecOn with
  | nil => exact fun s h => by cases h
  | append_singleton q t ih =>
    obtain ⟨hq, -, hlast⟩ := pairwise_append.mp hstrict
    rw [rdropWhile_concat]
    split
    · exact ih hq
    · next ht =>
      rw [decide_eq_true_eq] at ht
      intro s hs
      rcases mem_append.mp hs with hs | hs
      · have hst := hlast s hs t (mem_singleton_self t)
        exact fun hsv => hst (IsTrans.trans _ _ _ hsv (worse_of_not ht))
      · rw [mem_singleton] at hs
        exact hs ▸ ht

theorem Keeps.push (h : Keeps worse window now samples q) (hnow : now ≤ now') (value : α) :
    Keeps worse window now' (samples ++ [(now', value)]) (push worse now' value q) where
  past s hs := by
    rcases mem_append.mp hs with hs | hs
    · exact Nat.le_trans (h.past s hs) hnow
    · rw [mem_singleton.mp hs]
  sub := (List.rdropWhile_prefix _ _).sublist.trans h.sub |>.append (List.Sublist.refl _)
  newest := by
    rw [WindowFilter.push, List.getLast?_append, List.getLast?_append]
    rfl
  strict := by
    refine pairwise_append.mpr ⟨h.strict.sublist (List.rdropWhile_prefix _ _).sublist,
      pairwise_singleton _ _, fun s hs t ht => ?_⟩
    rw [mem_singleton.mp ht]
    exact not_worse_of_kept h.strict s hs
  covers s hs hage := by
    have hnew : (now', value) ∈ WindowFilter.push worse now' value q :=
      mem_append_right _ (mem_singleton_self _)
    rcases mem_append.mp hs with hs | hs
    · obtain ⟨t, ht, htime, hworse⟩ := (h.later hnow).covers s hs hage
      rcases mem_rdropWhile (p := fun s => decide (worse s.2 value)) ht with hkept | hdropped
      · exact ⟨t, mem_append_left _ hkept, htime, hworse⟩
      · rw [decide_eq_true_eq] at hdropped
        exact ⟨_, hnew, Nat.le_trans (h.past s hs) hnow, IsTrans.trans _ _ _ hworse hdropped⟩
    · rw [mem_singleton.mp hs]
      exact ⟨_, hnew, Nat.le_refl _, worse_refl value⟩

end

/-! ## The best of the window -/

theorem mem_unexpired {s : Sample α} (hs : s ∈ samples) (hage : now - s.1 ≤ window) :
    s ∈ unexpired window now samples := by
  cases samples using List.reverseRecOn with
  | nil => cases hs
  | append_singleton samples t =>
    rw [unexpired, dropLast_concat, List.getLast?_concat]
    rcases mem_append.mp hs with hs | hs
    · exact mem_append_left _ (mem_filter.mpr ⟨hs, decide_eq_true hage⟩)
    · exact mem_append_right _ (by simpa using hs)

theorem mem_unexpired_cases {s : Sample α} (h : s ∈ unexpired window now samples) :
    s ∈ samples ∧ now - s.1 ≤ window ∨ samples.getLast? = some s := by
  rcases mem_append.mp h with h | h
  · obtain ⟨hs, hage⟩ := mem_filter.mp h
    exact .inl ⟨(dropLast_sublist _).subset hs, of_decide_eq_true hage⟩
  · exact .inr (Option.mem_toList.mp h)

theorem Keeps.nonempty (h : Keeps worse window now samples q) :
    q.head? = none ↔ samples = [] := by
  have hnewest := h.newest
  rw [List.head?_eq_none_iff]
  constructor
  · intro hq
    rw [hq, List.getLast?_nil] at hnewest
    exact List.getLast?_eq_none_iff.mp hnewest.symm
  · intro hs
    rw [hs, List.getLast?_nil] at hnewest
    exact List.getLast?_eq_none_iff.mp hnewest

variable [Std.Total worse] [IsTrans α worse]

theorem Keeps.best (h : Keeps worse window now samples (WindowFilter.expire window now q))
    {f : Sample α} (hf : (WindowFilter.expire window now q).head? = some f) :
    f ∈ unexpired window now samples ∧ ∀ s ∈ unexpired window now samples, worse s.2 f.2 := by
  obtain ⟨rest, hq⟩ := List.head?_eq_some_iff.mp hf
  have hworse : ∀ t ∈ WindowFilter.expire window now q, worse t.2 f.2 := fun t ht => by
    rw [hq] at ht
    rcases mem_cons.mp ht with rfl | ht
    · exact worse_refl _
    · have hstrict := h.strict
      rw [hq] at hstrict
      exact worse_of_not ((pairwise_cons.mp hstrict).1 t ht)
  have hmem : f ∈ samples := h.sub.subset (hq ▸ mem_cons_self)
  refine ⟨?_, fun s hs => ?_⟩
  · by_cases hrest : rest = []
    · have hlast := h.newest
      rw [hq, hrest] at hlast
      exact mem_append_right _ (by rw [← hlast]; exact mem_singleton_self f)
    · exact mem_unexpired hmem (expire_fresh q hq hrest)
  · rcases mem_unexpired_cases hs with ⟨hin, hage⟩ | hlast
    · obtain ⟨t, ht, -, hst⟩ := h.covers s hin hage
      exact IsTrans.trans _ _ _ hst (hworse t ht)
    · exact hworse s (List.mem_of_getLast? (h.newest.trans hlast))

end VibeField.WindowFilter
