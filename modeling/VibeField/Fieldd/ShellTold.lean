import Mathlib.Data.List.Nodup
import VibeField.Base.Slots
import VibeField.Fieldd.ShellLease

/-!
# The shell's exit is told once

A vacancy makes one record, planned where its holder said why since it last attached.  As long as an
attach removes what it has read, and a record is read only by the first attach that began after its
vacancy, records are told once, in order, and by that attach.
-/

namespace VibeField.Fieldd

open List Option

variable {C : Type} {s s' : ShellLease C} {e : LeaseEvent C}

/-! ## What files touch -/

theorem write_frame {ok : Bool} (hs : s.write ok = some s') :
    s'.holders = s.holders ∧ s'.leaving = s.leaving ∧ s'.said = s.said ∧
      s'.vacancies = s.vacancies := by
  unfold ShellLease.write at hs
  split at hs
  · cases hs
  · obtain rfl := some.inj hs
    split
    case h_6 => split <;> exact ⟨rfl, rfl, rfl, rfl⟩
    all_goals exact ⟨rfl, rfl, rfl, rfl⟩

theorem read_frame {a : Nat} {ok : Bool} (hs : s.read a ok = some s') :
    s'.holders = s.holders ∧ s'.leaving = s.leaving ∧ s'.said = s.said ∧
      s'.vacancies = s.vacancies := by
  unfold ShellLease.read at hs
  split at hs
  · split at hs
    · split at hs <;> obtain rfl := some.inj hs <;> exact ⟨rfl, rfl, rfl, rfl⟩
    · cases hs
  · cases hs

theorem remove_frame {a : Nat} {ok : Bool} (hs : s.remove a ok = some s') :
    s'.holders = s.holders ∧ s'.leaving = s.leaving ∧ s'.said = s.said ∧
      s'.vacancies = s.vacancies := by
  unfold ShellLease.remove at hs
  split at hs
  · split at hs
    · split at hs <;> obtain rfl := some.inj hs <;> exact ⟨rfl, rfl, rfl, rfl⟩
    · obtain rfl := some.inj hs
      exact ⟨rfl, rfl, rfl, rfl⟩
  · cases hs

section Connections

variable [DecidableEq C]

/-! ## What a vacancy records -/

def whySince (c : C) : List (Said C) → Option ShellLeaveReason
  | [] => none
  | .attached c' :: rest => if c' = c then none else whySince c rest
  | .left c' why :: rest => if c' = c then some why else whySince c rest

/-- The holders' reasons are what they last said. -/
def Reasons (s : ShellLease C) : Prop :=
  ∀ c ∈ s.holders, s.leaving c = whySince c s.said.reverse

theorem reverse_snoc {α : Type} (said : List α) (word : α) :
    (said ++ [word]).reverse = word :: said.reverse := by
  rw [reverse_append, reverse_singleton, singleton_append]

theorem Reasons.attach (h : Reasons s) (c : C) : Reasons (s.attach c) := by
  intro c' hc'
  show s.setLeaving c none c' = whySince c' (s.said ++ [Said.attached c]).reverse
  rw [reverse_snoc, whySince, ShellLease.setLeaving]
  by_cases heq : c' = c
  · rw [if_pos heq, if_pos heq.symm]
  · rw [if_neg heq, if_neg (Ne.symm heq)]
    refine h c' ?_
    have hmem : c' ∈ if c ∈ s.holders then s.holders else s.holders ++ [c] := hc'
    split at hmem
    · exact hmem
    · exact (mem_append.mp hmem).resolve_right fun hnew => heq (mem_singleton.mp hnew)

theorem Reasons.leave (h : Reasons s) (c : C) (why : ShellLeaveReason) :
    Reasons (s.leave c why) := by
  unfold ShellLease.leave
  split
  · intro c' hc'
    show s.setLeaving c (some why) c' = whySince c' (s.said ++ [Said.left c why]).reverse
    rw [reverse_snoc, whySince, ShellLease.setLeaving]
    by_cases heq : c' = c
    · rw [if_pos heq, if_pos heq.symm]
    · rw [if_neg heq, if_neg (Ne.symm heq)]
      exact h c' hc'
  · exact h

theorem Reasons.closed (h : Reasons s) (c : C) (time : Nat) (sessions : Option Nat) :
    Reasons (s.closed c time sessions) := by
  have hgone : ∀ c' ∈ s.holders.filter (· ≠ c), c' ≠ c ∧ c' ∈ s.holders := by
    intro c' hc'
    obtain ⟨hmem, hne⟩ := mem_filter.mp hc'
    exact ⟨of_decide_eq_true hne, hmem⟩
  have hkept : ∀ c' ∈ s.holders.filter (· ≠ c),
      s.setLeaving c none c' = whySince c' s.said.reverse := by
    intro c' hc'
    obtain ⟨hne, hmem⟩ := hgone c' hc'
    rw [ShellLease.setLeaving, if_neg hne]
    exact h c' hmem
  unfold ShellLease.closed
  split
  · dsimp only
    split
    · exact fun c' hc' => h c' (hgone c' hc').2
    · split
      · exact hkept
      · exact hkept
  · exact h

theorem Reasons.of_eq (h : Reasons s) (hholders : s'.holders = s.holders)
    (hleaving : s'.leaving = s.leaving) (hsaid : s'.said = s.said) : Reasons s' := by
  intro c hc
  rw [hholders] at hc
  rw [hleaving, hsaid]
  exact h c hc

theorem Reasons.next (h : Reasons s) (hs : s.next e = some s') : Reasons s' := by
  cases e with
  | attach c =>
    obtain rfl := some.inj hs
    exact h.attach c
  | leave c why =>
    obtain rfl := some.inj hs
    exact h.leave c why
  | closed c time sessions =>
    obtain rfl := some.inj hs
    exact h.closed c time sessions
  | sealLease =>
    obtain rfl := some.inj hs
    exact h
  | keep =>
    obtain rfl := some.inj hs
    exact h
  | write ok =>
    obtain ⟨hholders, hleaving, hsaid, -⟩ := write_frame hs
    exact h.of_eq hholders hleaving hsaid
  | read a ok =>
    obtain ⟨hholders, hleaving, hsaid, -⟩ := read_frame hs
    exact h.of_eq hholders hleaving hsaid
  | remove a ok =>
    obtain ⟨hholders, hleaving, hsaid, -⟩ := remove_frame hs
    exact h.of_eq hholders hleaving hsaid

/-- The last holder closes while the lease is not sealed. -/
def Vacates (s : ShellLease C) (c : C) : Prop :=
  c ∈ s.holders ∧ (∀ other ∈ s.holders, other = c) ∧ s.isSealed = false

def exitRecord (why : Option ShellLeaveReason) (time : Nat) (sessions : Option Nat) :
    ShellExitRecord :=
  ⟨why.isSome, why, time, sessions⟩

/-- Each vacancy makes one record and queues it, and nothing else makes one. -/
structure Records (s : ShellLease C) : Prop where
  vacancy : ∀ c time sessions, Vacates s c →
    (s.closed c time sessions).vacancies = s.vacancies ++
        [⟨exitRecord (whySince c s.said.reverse) time sessions, s.attaches.length⟩] ∧
      (s.closed c time sessions).queue = s.queue ++ [.exit s.vacancies.length, .other]
  none : ∀ c time sessions, ¬Vacates s c →
    (s.closed c time sessions).vacancies = s.vacancies ∧
      (s.closed c time sessions).queue = s.queue
  others : ∀ e s', (∀ c time sessions, e ≠ .closed c time sessions) → s.next e = some s' →
    s'.vacancies = s.vacancies

theorem holders_gone_iff {c : C} :
    ¬(s.holders.filter (· ≠ c)).length > 0 ↔ ∀ other ∈ s.holders, other = c := by
  rw [Nat.not_lt, Nat.le_zero, length_eq_zero_iff, filter_eq_nil_iff]
  refine forall₂_congr fun other _ => ?_
  rw [decide_eq_true_eq, Decidable.not_not]

theorem Reasons.records (h : Reasons s) : Records s := by
  refine ⟨fun c time sessions hvacates => ?_, fun c time sessions hnot => ?_,
    fun e s' hne hs => ?_⟩
  · obtain ⟨hmem, hlast, hlive⟩ := hvacates
    unfold ShellLease.closed
    rw [if_pos hmem, hlive]
    dsimp only
    rw [if_neg (holders_gone_iff.mpr hlast), h c hmem]
    exact ⟨rfl, rfl⟩
  · unfold ShellLease.closed
    split
    · next hmem =>
      dsimp only
      split
      · exact ⟨rfl, rfl⟩
      · next hlive =>
        split
        · exact ⟨rfl, rfl⟩
        · next hnone =>
          exact absurd ⟨hmem, holders_gone_iff.mp hnone, eq_false_of_ne_true hlive⟩ hnot
    · exact ⟨rfl, rfl⟩
  · cases e with
    | attach c =>
      obtain rfl := some.inj hs
      rfl
    | leave c why =>
      obtain rfl := some.inj hs
      show (s.leave c why).vacancies = s.vacancies
      unfold ShellLease.leave
      split <;> rfl
    | closed c time sessions => exact absurd rfl (hne c time sessions)
    | sealLease =>
      obtain rfl := some.inj hs
      rfl
    | keep =>
      obtain rfl := some.inj hs
      rfl
    | write ok => exact (write_frame hs).2.2.2
    | read a ok => exact (read_frame hs).2.2.2
    | remove a ok => exact (remove_frame hs).2.2.2

end Connections

/-! ## The condition -/

def TakesItsOwn (s : ShellLease C) : LeaseEvent C → Prop
  | .read a true => ∀ n : Nat, s.file = some (.record n) →
    ∀ v : Vacancy, s.vacancies[n]? = some v → v.attaches = a
  | .remove a true => ∀ file : ExitFile, s.attaches[a]? = some (.removing file) →
    s.file = some file
  | _ => True

/-! ## The invariant -/

def exits (queue : List LeaseWrite) : List Nat :=
  queue.filterMap fun job =>
    match job with
    | .exit n => some n
    | .other => none

/-- Records are written in the order of their vacancies; the file holds the newest, or the attach
that is owed it has returned it. -/
structure Kept (s : ShellLease C) : Prop where
  order : (s.landed ++ exits s.queue).Pairwise (· < ·)
  made : ∀ n ∈ s.landed ++ exits s.queue, n < s.vacancies.length
  garbled : s.file = some .garbled → s.landed = []
  newest : ∀ n, s.file = some (.record n) →
    n ∈ s.landed ∧ (∀ m ∈ s.landed, m ≤ n) ∧ ∀ p ∈ s.told, p.2 < n
  told : ∀ p ∈ s.told, p.2 ∈ s.landed
  ascending : s.told.Pairwise fun p q => p.2 < q.2
  owed : ∀ n ∈ s.landed, (∀ m ∈ s.landed, m ≤ n) → s.file = some (.record n) ∨
    ∃ v : Vacancy, s.vacancies[n]? = some v ∧ (v.attaches, n) ∈ s.told
  reads : ∀ a n : Nat, s.attaches[a]? = some (.removing (.record n)) →
    ∃ v : Vacancy, s.vacancies[n]? = some v ∧ v.attaches = a
  answers : ∀ a n : Nat, s.attaches[a]? = some (.returned (some n)) ↔ (a, n) ∈ s.told

theorem exits_append (queue queue' : List LeaseWrite) :
    exits (queue ++ queue') = exits queue ++ exits queue' := filterMap_append

namespace Kept

theorem start (found : FoundFile) : Kept (.start found : ShellLease C) := by
  cases found with
  | none =>
    refine ⟨.nil, fun _ h => absurd h not_mem_nil, fun h => (by cases h),
      fun _ h => (by cases h), fun _ h => absurd h not_mem_nil, .nil,
      fun _ h => absurd h not_mem_nil, fun _ _ h => (by cases h), fun _ _ => ?_⟩
    exact ⟨fun h => (by cases h), fun h => absurd h not_mem_nil⟩
  | garbled =>
    refine ⟨.nil, fun _ h => absurd h not_mem_nil, fun _ => rfl,
      fun _ h => (by cases h), fun _ h => absurd h not_mem_nil, .nil,
      fun _ h => absurd h not_mem_nil, fun _ _ h => (by cases h), fun _ _ => ?_⟩
    exact ⟨fun h => (by cases h), fun h => absurd h not_mem_nil⟩
  | record record =>
    refine ⟨pairwise_singleton _ 0, fun n hn => ?_, fun h => (by cases h), fun n h => ?_,
      fun _ h => absurd h not_mem_nil, .nil, fun n hn _ => .inl ?_,
      fun _ _ h => (by cases h), fun _ _ => ⟨fun h => (by cases h),
        fun h => absurd h not_mem_nil⟩⟩
    · rw [mem_singleton.mp hn]
      exact Nat.zero_lt_one
    · obtain rfl := ExitFile.record.inj (some.inj h)
      exact ⟨mem_singleton_self 0, fun m hm => Nat.le_of_eq (mem_singleton.mp hm),
        fun _ h => absurd h not_mem_nil⟩
    · rw [mem_singleton.mp hn]
      rfl

theorem of_frame (h : Kept s) (hfile : s'.file = s.file) (hlanded : s'.landed = s.landed)
    (htold : s'.told = s.told) (hvacancies : s'.vacancies = s.vacancies)
    (hqueue : (exits s'.queue).Sublist (exits s.queue))
    (hreads : ∀ a n : Nat, s'.attaches[a]? = some (.removing (.record n)) →
      ∃ v : Vacancy, s.vacancies[n]? = some v ∧ v.attaches = a)
    (hanswers : ∀ a n : Nat, s'.attaches[a]? = some (.returned (some n)) ↔
      s.attaches[a]? = some (.returned (some n))) : Kept s' := by
  have hsub : (s'.landed ++ exits s'.queue).Sublist (s.landed ++ exits s.queue) := by
    rw [hlanded]
    exact hqueue.append_left _
  refine ⟨h.order.sublist hsub, fun n hn => ?_, fun hg => ?_, fun n hn => ?_, ?_, ?_, ?_, ?_, ?_⟩
  · rw [hvacancies]
    exact h.made n (hsub.subset hn)
  · rw [hlanded]
    exact h.garbled (hfile ▸ hg)
  · rw [hlanded, htold]
    exact h.newest n (hfile ▸ hn)
  · rw [hlanded, htold]
    exact h.told
  · rw [htold]
    exact h.ascending
  · rw [hlanded, hfile, hvacancies, htold]
    exact h.owed
  · rw [hvacancies]
    exact hreads
  · rw [htold]
    exact fun a n => (hanswers a n).trans (h.answers a n)

theorem attach [DecidableEq C] (h : Kept s) (c : C) : Kept (s.attach c) := by
  refine h.of_frame rfl rfl rfl rfl (List.Sublist.refl _) (fun a n ha => ?_) fun a n => ?_
  · rcases getElem?_snoc.mp ha with ha | ⟨-, heq⟩
    · exact h.reads a n ha
    · cases heq
  · refine ⟨fun ha => ?_, getElem?_snoc_of_some⟩
    exact (getElem?_snoc.mp ha).resolve_right fun heq => Attach.noConfusion heq.2

theorem leave [DecidableEq C] (h : Kept s) (c : C) (why : ShellLeaveReason) :
    Kept (s.leave c why) := by
  unfold ShellLease.leave
  split
  · exact h.of_frame rfl rfl rfl rfl (List.Sublist.refl _) h.reads fun _ _ => .rfl
  · exact h

theorem vacancy {gone : ShellLease C} (h : Kept gone) (v : Vacancy) :
    Kept { gone with
      vacancies := gone.vacancies ++ [v]
      queue := gone.queue ++ [.exit gone.vacancies.length, .other] } := by
  have hexits : exits (gone.queue ++ [.exit gone.vacancies.length, .other]) =
      exits gone.queue ++ [gone.vacancies.length] := exits_append _ _
  have hall : gone.landed ++ exits (gone.queue ++ [.exit gone.vacancies.length, .other]) =
      (gone.landed ++ exits gone.queue) ++ [gone.vacancies.length] := by
    rw [hexits, append_assoc]
  refine ⟨?_, fun n hn => ?_, h.garbled, h.newest, h.told, h.ascending, fun n hn hnewest => ?_,
    fun a n ha => ?_, h.answers⟩
  · rw [hall, pairwise_append]
    refine ⟨h.order, pairwise_singleton _ _, fun n hn m hm => ?_⟩
    rw [mem_singleton.mp hm]
    exact h.made n hn
  · rw [hall] at hn
    rw [length_append]
    rcases mem_snoc.mp hn with hn | hn
    · exact Nat.lt_succ_of_lt (h.made n hn)
    · rw [hn]
      exact Nat.lt_succ_self _
  · refine (h.owed n hn hnewest).imp_right ?_
    rintro ⟨w, hw, htold⟩
    exact ⟨w, getElem?_snoc_of_some hw, htold⟩
  · obtain ⟨w, hw, hfirst⟩ := h.reads a n ha
    exact ⟨w, getElem?_snoc_of_some hw, hfirst⟩

theorem closed [DecidableEq C] (h : Kept s) (c : C) (time : Nat) (sessions : Option Nat) :
    Kept (s.closed c time sessions) := by
  have hgone : Kept { s with
      holders := s.holders.filter (· ≠ c), leaving := s.setLeaving c none } :=
    h.of_frame rfl rfl rfl rfl (List.Sublist.refl _) h.reads fun _ _ => .rfl
  unfold ShellLease.closed
  split
  · dsimp only
    split
    · exact h.of_frame rfl rfl rfl rfl (List.Sublist.refl _) h.reads fun _ _ => .rfl
    · split
      · exact hgone
      · exact hgone.vacancy _
  · exact h

theorem keep (h : Kept s) : Kept s.keep := by
  refine h.of_frame rfl rfl rfl rfl ?_ h.reads fun _ _ => .rfl
  show (exits (s.queue ++ [.other])).Sublist (exits s.queue)
  rw [exits_append]
  exact (append_nil _).symm ▸ List.Sublist.refl _

theorem settleWrite {job : LeaseWrite} {rest : List LeaseWrite} (h : Kept s)
    (hqueue : s.queue = job :: rest) : Kept (s.settleWrite rest) := by
  refine h.of_frame rfl rfl rfl rfl ?_ h.reads fun _ _ => .rfl
  show (exits rest).Sublist (exits s.queue)
  rw [hqueue]
  exact (sublist_cons_self job rest).filterMap _

theorem landed {n : Nat} {rest : List LeaseWrite} (h : Kept s)
    (hqueue : s.queue = .exit n :: rest) :
    Kept (({ s with file := some (.record n), landed := s.landed ++ [n] } :
      ShellLease C).settleWrite rest) := by
  have hexits : exits s.queue = n :: exits rest := by rw [hqueue]; rfl
  have hall : (s.landed ++ [n]) ++ exits rest = s.landed ++ exits s.queue := by
    rw [hexits, append_assoc]
    rfl
  have hless : ∀ m ∈ s.landed, m < n := by
    intro m hm
    have horder := h.order
    rw [hexits, pairwise_append] at horder
    exact horder.2.2 m hm n mem_cons_self
  have hlast : ∀ m ∈ s.landed ++ [n], m ≤ n := by
    intro m hm
    rcases mem_snoc.mp hm with hm | hm
    · exact Nat.le_of_lt (hless m hm)
    · exact Nat.le_of_eq hm
  refine ⟨?_, fun m hm => ?_, fun hg => (by cases hg), fun m hm => ?_, fun p hp => ?_,
    h.ascending, fun m hm hnewest => .inl ?_, h.reads, h.answers⟩
  · show ((s.landed ++ [n]) ++ exits rest).Pairwise (· < ·)
    rw [hall]
    exact h.order
  · have hm' : m ∈ (s.landed ++ [n]) ++ exits rest := hm
    rw [hall] at hm'
    exact h.made m hm'
  · obtain rfl := ExitFile.record.inj (some.inj hm)
    exact ⟨mem_append_right _ (mem_singleton_self _), hlast,
      fun p hp => hless p.2 (h.told p hp)⟩
  · exact mem_append_left _ (h.told p hp)
  · have heq : m = n := Nat.le_antisymm (hlast m hm)
      (hnewest n (mem_append_right _ (mem_singleton_self _)))
    rw [heq]
    rfl

theorem write {ok : Bool} (h : Kept s) (hs : s.write ok = some s') : Kept s' := by
  have hstage : ∀ stage, Kept { s with stage } := fun _ =>
    h.of_frame rfl rfl rfl rfl (List.Sublist.refl _) h.reads fun _ _ => .rfl
  unfold ShellLease.write at hs
  split at hs
  · cases hs
  · next job rest hqueue =>
    obtain rfl := some.inj hs
    split
    case h_6 =>
      split
      · exact h.landed hqueue
      · exact h.settleWrite hqueue
    case h_7 => exact h.settleWrite hqueue
    all_goals exact hstage _

theorem goOn {a : Nat} {old new : Attach} (h : Kept s) (ha : s.attaches[a]? = some old)
    (hold : ∀ n, old ≠ .returned (some n)) (hnew : ∀ n, new ≠ .returned (some n))
    (hreads : ∀ n, new = .removing (.record n) →
      ∃ v : Vacancy, s.vacancies[n]? = some v ∧ v.attaches = a) :
    Kept { s with attaches := s.attaches.set a new } := by
  refine h.of_frame rfl rfl rfl rfl (List.Sublist.refl _) (fun b n hb => ?_) fun b n => ?_
  · rcases getElem?_set_iff.mp hb with ⟨rfl, -, heq⟩ | ⟨-, hb⟩
    · exact hreads n heq
    · exact h.reads b n hb
  · exact getElem?_set_iff_of_ne ha (hold n) (hnew n)

theorem read {a : Nat} {ok : Bool} (h : Kept s) (hok : TakesItsOwn s (.read a ok))
    (hs : s.read a ok = some s') : Kept s' := by
  unfold ShellLease.read at hs
  split at hs
  · next writes ha =>
    split at hs
    · split at hs
      · next file hfile =>
        obtain rfl := some.inj hs
        refine h.goOn ha (fun _ => Attach.noConfusion) (fun _ => Attach.noConfusion) fun n hn => ?_
        obtain rfl := Attach.removing.inj hn
        obtain ⟨hlanded, -⟩ := h.newest n hfile
        have hlt : n < s.vacancies.length := h.made n (mem_append_left _ hlanded)
        exact ⟨s.vacancies[n], List.getElem?_eq_getElem hlt,
          hok n hfile _ (List.getElem?_eq_getElem hlt)⟩
      · obtain rfl := some.inj hs
        refine h.goOn ha (fun _ => Attach.noConfusion) (fun n hn => ?_)
          fun n hn => Attach.noConfusion hn
        cases Attach.returned.inj hn
    · cases hs
  · cases hs

theorem taken {a n : Nat} (h : Kept s) (ha : s.attaches[a]? = some (.removing (.record n)))
    (hfile : s.file = some (.record n)) :
    Kept { s with
      file := none
      attaches := s.attaches.set a (.returned (some n))
      told := s.told ++ [(a, n)] } := by
  obtain ⟨hlanded, hlast, hless⟩ := h.newest n hfile
  obtain ⟨v, hv, hfirst⟩ := h.reads a n ha
  have hlt : a < s.attaches.length := (List.getElem?_eq_some_iff.mp ha).1
  refine ⟨h.order, h.made, fun hg => (by cases hg), fun m hm => (by cases hm), fun p hp => ?_, ?_,
    fun m hm hnewest => .inr ?_, fun b m hb => ?_, fun b m => ?_⟩
  · rcases mem_snoc.mp hp with hp | hp
    · exact h.told p hp
    · rw [hp]
      exact hlanded
  · rw [pairwise_append]
    refine ⟨h.ascending, pairwise_singleton _ _, fun p hp q hq => ?_⟩
    rw [mem_singleton.mp hq]
    exact hless p hp
  · obtain rfl : m = n := Nat.le_antisymm (hlast m hm) (hnewest n hlanded)
    refine ⟨v, hv, mem_append_right _ ?_⟩
    rw [hfirst]
    exact mem_singleton_self _
  · rcases getElem?_set_iff.mp hb with ⟨-, -, heq⟩ | ⟨-, hb⟩
    · cases heq
    · exact h.reads b m hb
  · rw [getElem?_set_iff, mem_append, mem_singleton, ← h.answers b m]
    constructor
    · rintro (⟨rfl, -, heq⟩ | ⟨-, hb⟩)
      · rw [some.inj (Attach.returned.inj heq)]
        exact .inr rfl
      · exact .inl hb
    · rintro (hb | heq)
      · refine .inr ⟨?_, hb⟩
        rintro rfl
        cases some.inj (ha.symm.trans hb)
      · obtain ⟨rfl, rfl⟩ := Prod.mk.inj heq
        exact .inl ⟨rfl, hlt, rfl⟩

theorem setAside {a : Nat} (h : Kept s) (ha : s.attaches[a]? = some (.removing .garbled))
    (hfile : s.file = some .garbled) :
    Kept { s with file := none, attaches := s.attaches.set a (.returned none) } := by
  have hnone := h.garbled hfile
  refine ⟨h.order, h.made, fun _ => hnone, fun n hn => (by cases hn), h.told, h.ascending,
    fun n hn _ => ?_, fun b n hb => ?_, fun b n => ?_⟩
  · rw [show s.landed = [] from hnone] at hn
    exact absurd hn not_mem_nil
  · rcases getElem?_set_iff.mp hb with ⟨-, -, heq⟩ | ⟨-, hb⟩
    · cases heq
    · exact h.reads b n hb
  · refine (getElem?_set_iff_of_ne ha Attach.noConfusion fun heq => ?_).trans (h.answers b n)
    cases Attach.returned.inj heq

theorem remove {a : Nat} {ok : Bool} (h : Kept s) (hok : TakesItsOwn s (.remove a ok))
    (hs : s.remove a ok = some s') : Kept s' := by
  unfold ShellLease.remove at hs
  split at hs
  · next file ha =>
    cases ok with
    | true =>
      have hfile := hok file ha
      cases file with
      | record n =>
        obtain rfl := some.inj hs
        exact h.taken ha hfile
      | garbled =>
        obtain rfl := some.inj hs
        exact h.setAside ha hfile
    | false =>
      obtain rfl := some.inj hs
      exact h.goOn ha (fun _ => Attach.noConfusion) (fun _ => Attach.noConfusion)
        fun _ => Attach.noConfusion
  · cases hs

theorem next [DecidableEq C] (h : Kept s) (hok : TakesItsOwn s e) (hs : s.next e = some s') :
    Kept s' := by
  cases e with
  | attach c =>
    obtain rfl := some.inj hs
    exact h.attach c
  | leave c why =>
    obtain rfl := some.inj hs
    exact h.leave c why
  | closed c time sessions =>
    obtain rfl := some.inj hs
    exact h.closed c time sessions
  | sealLease =>
    obtain rfl := some.inj hs
    exact h.of_frame rfl rfl rfl rfl (List.Sublist.refl _) h.reads fun _ _ => .rfl
  | keep =>
    obtain rfl := some.inj hs
    exact h.keep
  | write ok => exact h.write hs
  | read a ok => exact h.read hok hs
  | remove a ok => exact h.remove hok hs

end Kept

/-! ## Told once -/

/-- No record is returned twice, nor after a newer one; and one that was written and not replaced
is in the file, or was returned by the first attach that began after its vacancy. -/
structure ToldOnce (s : ShellLease C) : Prop where
  log : ∀ a n : Nat, s.attaches[a]? = some (.returned (some n)) ↔ (a, n) ∈ s.told
  once : ∀ a b n : Nat, s.attaches[a]? = some (.returned (some n)) →
    s.attaches[b]? = some (.returned (some n)) → a = b
  inOrder : s.told.Pairwise fun p q => p.2 < q.2
  kept : ∀ n ∈ s.landed, (∀ m ∈ s.landed, m ≤ n) → s.file = some (.record n) ∨
    ∃ v : Vacancy, s.vacancies[n]? = some v ∧
      s.attaches[v.attaches]? = some (.returned (some n))

theorem Kept.toldOnce (h : Kept s) : ToldOnce s := by
  refine ⟨h.answers, fun a b n ha hb => ?_, h.ascending, fun n hn hnewest => ?_⟩
  · have hnodup : (s.told.map Prod.snd).Nodup :=
      pairwise_map.mpr (h.ascending.imp fun hlt => Nat.ne_of_lt hlt)
    have hsame := inj_on_of_nodup_map hnodup ((h.answers a n).mp ha) ((h.answers b n).mp hb)
      rfl
    exact congrArg Prod.fst hsame
  · refine (h.owed n hn hnewest).imp_right ?_
    rintro ⟨v, hv, htold⟩
    exact ⟨v, hv, (h.answers _ n).mpr htold⟩

/-- In every run a vacancy makes one record, planned where its holder said why since it last
attached; and where an attach takes only the record it is owed, and removes what it read, each
record is told once, in order, by the first attach after its vacancy. -/
theorem shell_exit_told_once (C : Type) [DecidableEq C] (found : FoundFile) :
    (∀ s, (leaseMachine C found).Reachable s → Records s) ∧
      ∀ s, (leaseMachine C found).Reaches TakesItsOwn s → ToldOnce s := by
  constructor
  · intro s hs
    have hstart : Reasons (.start found : ShellLease C) := by
      intro c hc
      cases found <;> exact absurd hc List.not_mem_nil
    have hreasons : Reasons s := hs.invariant hstart fun _ _ _ h hnext => h.next hnext
    exact hreasons.records
  · intro s hs
    have hkept : Kept s := hs.invariant (.start found) fun _ _ _ h hok hnext => h.next hok hnext
    exact hkept.toldOnce

/-! ## Two shells at once -/

namespace LeaseSample

def written : List (LeaseEvent Nat) := List.replicate 6 (.write true)

def left : List (LeaseEvent Nat) :=
  [.attach 0, .read 0 true, .leave 0 .quit, .closed 0 5 (some 2)] ++ written

def again : List (LeaseEvent Nat) :=
  left ++ written ++ [.attach 1, .read 1 true, .remove 1 true]

def together : List (LeaseEvent Nat) :=
  left ++ written ++
    [.attach 1, .attach 2, .read 1 true, .read 2 true, .remove 1 true, .remove 2 true]

def tellers (s : ShellLease Nat) : Nat := s.attaches.count (.returned (some 0))

def takesItsOwn (s : ShellLease Nat) : LeaseEvent Nat → Bool
  | .read a true =>
    match s.file with
    | some (.record n) => (s.vacancies[n]?).all fun v => v.attaches == a
    | _ => true
  | .remove a true =>
    match s.attaches[a]? with
    | some (.removing file) => s.file == some file
    | _ => true
  | _ => true

theorem takesItsOwn_of_test {s : ShellLease Nat} {e : LeaseEvent Nat}
    (h : takesItsOwn s e = true) : TakesItsOwn s e := by
  cases e with
  | read a ok =>
    cases ok with
    | true =>
      intro n hfile v hv
      rw [takesItsOwn, hfile] at h
      dsimp only at h
      rw [hv] at h
      exact eq_of_beq h
    | false => exact trivial
  | remove a ok =>
    cases ok with
    | true =>
      intro file ha
      rw [takesItsOwn, ha] at h
      exact eq_of_beq h
    | false => exact trivial
  | _ => exact trivial

end LeaseSample

/-- A shell quits, and the next is told so. -/
theorem shell_exit_told_once_again :
    ∃ s, (leaseMachine Nat .none).Reaches TakesItsOwn s ∧ (LeaseSample.tellers s == 1) = true ∧
      Records s ∧ ToldOnce s := by
  obtain ⟨s, hs, htold⟩ := @Machine.exists_of_keeping_run _ _ (leaseMachine Nat .none) TakesItsOwn
    LeaseSample.takesItsOwn (fun _ _ => LeaseSample.takesItsOwn_of_test)
    (fun s => LeaseSample.tellers s == 1) LeaseSample.again (by decide)
  exact ⟨s, hs, htold, (shell_exit_told_once Nat .none).1 s hs.reachable,
    (shell_exit_told_once Nat .none).2 s hs⟩

/-- Two attaches return the record of one vacancy. -/
theorem told_twice :
    ∃ s, (leaseMachine Nat .none).Reachable s ∧ (LeaseSample.tellers s == 2) = true :=
  Machine.exists_of_run (fun s => LeaseSample.tellers s == 2) LeaseSample.together (by decide)

end VibeField.Fieldd
