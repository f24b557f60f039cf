import Mathlib.Logic.Function.Iterate
import VibeField.Base.Ahead
import VibeField.Base.Machine
import VibeField.Tp.Wire

/-!
# The writer's lanes

A frames connection has one writer with two lanes.  Urgent units pass bulk units, but
an urgent unit waits while a bulk unit of its own activation that arrived before it is
queued, and that bulk unit goes first.

A `Line` is the lanes with what was enqueued on them and what has left, each in its
order.
-/

namespace VibeField.Tp

open List Option

/-- A unit on its way to a leg's writer.  A permit is named by its number. -/
inductive Outbound where
  | text (text : String)
  | selectionText (text : String) (permit : Nat)
  | binary (bytes : List UInt8) (activation : Option ActivationId)
  | bulk (bytes : List UInt8) (activation : ActivationId) (release : Option Nat)
  | close (code : Nat) (reason : String)
  deriving DecidableEq, Repr

namespace Outbound

def activation : Outbound → Option ActivationId
  | binary _ activation => activation
  | bulk _ activation _ => some activation
  | _ => none

def isBulk : Outbound → Bool
  | bulk _ _ _ => true
  | _ => false

end Outbound

/-- What the writer is given to write next. -/
inductive Pick where
  | urgent (unit : Outbound)
  | bulk (bytes : List UInt8) (release : Option Nat)
  | idle
  deriving DecidableEq, Repr

/-- A queued unit and the order it arrived in. -/
structure Queued (α : Type) where
  arrival : Nat
  unit : α
  deriving DecidableEq, Repr

structure BulkUnit where
  bytes : List UInt8
  activation : ActivationId
  release : Option Nat
  deriving DecidableEq, Repr

def BulkUnit.outbound (b : BulkUnit) : Outbound := .bulk b.bytes b.activation b.release

def Queued.outbound (q : Queued BulkUnit) : Queued Outbound := ⟨q.arrival, q.unit.outbound⟩

structure Lanes where
  urgent : List (Queued Outbound) := []
  bulk : List (Queued BulkUnit) := []
  arrivals : Nat := 0
  deriving DecidableEq, Repr

namespace Lanes

def enqueue (l : Lanes) (item : Outbound) : Lanes :=
  let arrival := l.arrivals + 1
  match item with
  | .bulk bytes activation release =>
    { l with arrivals := arrival, bulk := l.bulk ++ [⟨arrival, ⟨bytes, activation, release⟩⟩] }
  | unit => { l with arrivals := arrival, urgent := l.urgent ++ [⟨arrival, unit⟩] }

def holding (l : Lanes) (queued : Queued Outbound) : Option Nat :=
  match queued.unit with
  | .binary _ (some activation) =>
    l.bulk.findIdx? fun b => b.arrival < queued.arrival && b.unit.activation == activation
  | _ => none

def scan (l : Lanes) : List (Queued Outbound) → Nat → Option Nat → Option Nat × Option Nat
  | [], _, waitsOn => (none, waitsOn)
  | queued :: rest, i, waitsOn =>
    match l.holding queued with
    | none => (some i, waitsOn)
    | some bulkAt => l.scan rest (i + 1) (waitsOn.or (some bulkAt))

inductive Place where
  | urgent (i : Nat)
  | bulk (i : Nat)

def place (l : Lanes) : Place :=
  match l.scan l.urgent 0 none with
  | (some i, _) => .urgent i
  | (none, waitsOn) => .bulk (waitsOn.getD 0)

def pick (l : Lanes) : Pick × Lanes :=
  match l.place with
  | .urgent i =>
    match l.urgent[i]? with
    | some queued => (.urgent queued.unit, { l with urgent := l.urgent.eraseIdx i })
    | none => (.idle, l)
  | .bulk i =>
    match l.bulk[i]? with
    | some queued =>
      (.bulk queued.unit.bytes queued.unit.release, { l with bulk := l.bulk.eraseIdx i })
    | none => (.idle, l)

def leaving (l : Lanes) : Option (Queued Outbound) :=
  match l.place with
  | .urgent i => l.urgent[i]?
  | .bulk i => l.bulk[i]?.map Queued.outbound

def queued (l : Lanes) : List (Queued Outbound) := l.urgent ++ l.bulk.map Queued.outbound

end Lanes

def Pick.of : Option (Queued Outbound) → Pick
  | none => .idle
  | some queued =>
    match queued.unit with
    | .bulk bytes _ release => .bulk bytes release
    | unit => .urgent unit

/-- The lanes of a writer, with what came and what has gone. -/
structure Line where
  lanes : Lanes := {}
  enqueued : List (Queued Outbound) := []
  left : List (Queued Outbound) := []
  deriving DecidableEq, Repr

namespace Line

inductive Event where
  | enqueue (item : Outbound)
  | pick

def enqueue (s : Line) (item : Outbound) : Line :=
  { s with
    lanes := s.lanes.enqueue item
    enqueued := s.enqueued ++ [⟨s.lanes.arrivals + 1, item⟩] }

def pick (s : Line) : Line :=
  { s with
    lanes := s.lanes.pick.2
    left := s.left ++ s.lanes.leaving.toList }

def machine : Machine Line Event where
  start := {}
  next s
    | .enqueue item => some (s.enqueue item)
    | .pick => some s.pick

end Line

namespace Lanes

variable {l : Lanes}

/-- Each lane is in order of arrival, and the urgent lane has no bulk unit. -/
structure Sorted (l : Lanes) : Prop where
  urgent : l.urgent.Pairwise fun a b => a.arrival < b.arrival
  bulk : l.bulk.Pairwise fun a b => a.arrival < b.arrival
  lane : ∀ u ∈ l.urgent, u.unit.isBulk = false
  fresh : ∀ u ∈ l.queued, u.arrival ≤ l.arrivals

/-- No bulk unit of the unit's own activation that came before it is queued. -/
def Free (l : Lanes) (u : Queued Outbound) : Prop :=
  ∀ b ∈ l.bulk, some b.unit.activation = u.unit.activation → u.arrival ≤ b.arrival

theorem mem_queued {q : Queued Outbound} :
    q ∈ l.queued ↔ q ∈ l.urgent ∨ ∃ b ∈ l.bulk, b.outbound = q := by
  simp [queued]

theorem outbound_mem {b : Queued BulkUnit} (h : b ∈ l.bulk) : b.outbound ∈ l.queued :=
  mem_queued.mpr (.inr ⟨b, h, rfl⟩)

variable {o : Option (Queued Outbound)} {r : Pick × Lanes} {u : Queued Outbound}

theorem holding_none (h : l.holding u = none) (hlane : u.unit.isBulk = false) : l.Free u := by
  intro b hb hact
  unfold holding at h
  split at h
  · next activation hunit =>
    rw [hunit] at hact
    obtain rfl := some.inj hact
    have hnot := List.findIdx?_eq_none_iff.mp h b hb
    simpa using hnot
  · next hnot =>
    cases hu : u.unit with
    | binary bytes activation =>
      cases activation with
      | none => rw [hu] at hact; cases hact
      | some activation => exact absurd hu (hnot bytes activation)
    | bulk bytes activation release => rw [hu] at hlane; cases hlane
    | _ => rw [hu] at hact; cases hact

theorem holding_some {i : Nat} (hs : l.Sorted) (h : l.holding u = some i) :
    ∃ before b after, l.bulk = before ++ b :: after ∧ before.length = i ∧
      b.arrival < u.arrival ∧ some b.unit.activation = u.unit.activation ∧
      ∀ c ∈ before, c.unit.activation ≠ b.unit.activation := by
  unfold holding at h
  split at h
  · next activation hunit =>
    obtain ⟨hi, hat, hbefore⟩ := List.findIdx?_eq_some_iff_getElem.mp h
    have hsplit : l.bulk = l.bulk.take i ++ l.bulk[i] :: l.bulk.drop (i + 1) := by
      rw [getElem_cons_drop, take_append_drop]
    simp only [Bool.and_eq_true, decide_eq_true_eq, beq_iff_eq] at hat
    refine ⟨_, _, _, hsplit, by simp; omega, hat.1, by rw [hunit, hat.2]; rfl, ?_⟩
    intro c hc hact
    obtain ⟨j, hj, rfl⟩ := mem_iff_getElem.mp hc
    rw [length_take] at hj
    rw [getElem_take] at hact
    have hji : j < i := by omega
    have hlt := pairwise_iff_getElem.mp hs.bulk j i (by omega) hi hji
    have hnot := hbefore j hji
    simp only [Bool.and_eq_true, decide_eq_true_eq, beq_iff_eq, not_and] at hnot
    exact hnot (by omega) (hact.trans hat.2)
  · cases h

theorem scan_spec (l : Lanes) :
    ∀ (rest : List (Queued Outbound)) (i : Nat) (waitsOn : Option Nat),
      (∃ before u after w, rest = before ++ u :: after ∧ l.holding u = none ∧
        (∀ v ∈ before, l.holding v ≠ none) ∧
        l.scan rest i waitsOn = (some (i + before.length), w)) ∨
      ((∀ v ∈ rest, l.holding v ≠ none) ∧
        l.scan rest i waitsOn = (none, waitsOn.or (rest.head?.bind l.holding))) := by
  intro rest
  induction rest with
  | nil => exact fun i waitsOn => .inr ⟨by simp, by simp [scan]⟩
  | cons u rest ih =>
    intro i waitsOn
    cases hu : l.holding u with
    | none => exact .inl ⟨[], u, rest, waitsOn, rfl, hu, by simp, by simp [scan, hu]⟩
    | some j =>
      rcases ih (i + 1) (waitsOn.or (some j)) with
        ⟨before, v, after, w, rfl, hv, hbefore, heq⟩ | ⟨hall, heq⟩
      · refine .inl ⟨u :: before, v, after, w, rfl, hv, ?_, ?_⟩
        · intro x hx
          rcases mem_cons.mp hx with rfl | hx
          · simp [hu]
          · exact hbefore x hx
        · simp only [scan, hu, heq, length_cons]
          congr 2
          omega
      · refine .inr ⟨?_, ?_⟩
        · intro x hx
          rcases mem_cons.mp hx with rfl | hx
          · simp [hu]
          · exact hall x hx
        · simp only [scan, hu, heq]
          cases waitsOn <;> simp [hu]

/-- What a pick does. -/
inductive Picked (l : Lanes) : Pick × Lanes → Option (Queued Outbound) → Prop
  | urgent (before : List (Queued Outbound)) (u : Queued Outbound)
      (after : List (Queued Outbound)) (hsplit : l.urgent = before ++ u :: after)
      (hfree : l.holding u = none) (hheld : ∀ v ∈ before, l.holding v ≠ none) :
      Picked l (.urgent u.unit, { l with urgent := before ++ after }) (some u)
  | bulk (before : List (Queued BulkUnit)) (b : Queued BulkUnit)
      (after : List (Queued BulkUnit)) (hsplit : l.bulk = before ++ b :: after)
      (hheld : ∀ v ∈ l.urgent, l.holding v ≠ none)
      (hfirst : ∀ c ∈ before, c.unit.activation ≠ b.unit.activation) :
      Picked l (.bulk b.unit.bytes b.unit.release, { l with bulk := before ++ after })
        (some b.outbound)
  | idle (hurgent : l.urgent = []) (hbulk : l.bulk = []) : Picked l (.idle, l) none

theorem pick_picked (hs : l.Sorted) : Picked l l.pick l.leaving := by
  rcases scan_spec l l.urgent 0 none with
    ⟨before, u, after, w, hsplit, hu, hbefore, heq⟩ | ⟨hall, heq⟩
  · have hplace : l.place = .urgent before.length := by simp [place, heq]
    have hget : l.urgent[before.length]? = some u := by simp [hsplit]
    have herase : l.urgent.eraseIdx before.length = before ++ after := by
      simp [hsplit, eraseIdx_append_of_length_le]
    simp only [pick, leaving, hplace, hget, herase]
    exact .urgent before u after hsplit hu hbefore
  · have hplace : l.place = .bulk ((l.urgent.head?.bind l.holding).getD 0) := by
      simp [place, heq]
    simp only [pick, leaving, hplace]
    cases hurgent : l.urgent with
    | nil =>
      cases hbulk : l.bulk with
      | nil => simpa [hurgent, hbulk] using Picked.idle hurgent hbulk
      | cons b rest =>
        have := Picked.bulk [] b rest (by simpa using hbulk) hall (by simp)
        simpa [hurgent, hbulk] using this
    | cons u rest =>
      have hu := hall u (by simp [hurgent])
      obtain ⟨i, hi⟩ := ne_none_iff_exists'.mp hu
      obtain ⟨before, b, after, hbulk, hlen, -, -, hfirst⟩ := holding_some hs hi
      have hget : l.bulk[i]? = some b := by simp [hbulk, ← hlen]
      have herase : l.bulk.eraseIdx i = before ++ after := by
        simp [hbulk, ← hlen, eraseIdx_append_of_length_le]
      simp only [List.head?_cons, bind_some, hi, getD_some, hget, herase,
        map_some]
      rw [← hurgent] at *
      exact Picked.bulk before b after hbulk hall hfirst

theorem Picked.perm (h : Picked l r (some u)) : (u :: r.2.queued).Perm l.queued := by
  cases h with
  | urgent before u after hsplit hfree hheld =>
    simp only [queued, hsplit, append_assoc, cons_append]
    exact perm_middle.symm
  | bulk before b after hsplit hheld hfirst =>
    simp only [queued, hsplit, map_append, map_cons]
    rw [← append_assoc, ← append_assoc]
    exact perm_middle.symm

theorem Picked.sorted (hs : l.Sorted) (h : Picked l r o) : r.2.Sorted := by
  cases h with
  | urgent before u after hsplit hfree hheld =>
    have hsub : (before ++ after).Sublist l.urgent :=
      hsplit ▸ (List.Sublist.refl before).append (sublist_cons_self u after)
    exact ⟨hs.urgent.sublist hsub, hs.bulk, fun v hv => hs.lane v (hsub.subset hv),
      fun v hv => hs.fresh v (mem_queued.mpr ((mem_queued.mp hv).imp_left fun h => hsub.subset h))⟩
  | bulk before b after hsplit hheld hfirst =>
    have hsub : (before ++ after).Sublist l.bulk :=
      hsplit ▸ (List.Sublist.refl before).append (sublist_cons_self b after)
    refine ⟨hs.urgent, hs.bulk.sublist hsub, hs.lane, fun v hv => hs.fresh v (mem_queued.mpr ?_)⟩
    exact (mem_queued.mp hv).imp_right fun ⟨c, hc, heq⟩ => ⟨c, hsub.subset hc, heq⟩
  | idle _ _ => exact hs

theorem Picked.first {u v : Queued Outbound} (hs : l.Sorted) (h : Picked l r (some u))
    (hv : v ∈ l.queued) (hact : v.unit.activation = u.unit.activation) : u.arrival ≤ v.arrival := by
  cases h with
  | urgent before u after hsplit hfree hheld =>
    have hu : u ∈ l.urgent := by simp [hsplit]
    have hfree := holding_none hfree (hs.lane u hu)
    rcases mem_queued.mp hv with hv | ⟨b, hb, rfl⟩
    · rw [hsplit] at hv
      rcases mem_append.mp hv with hv | hv
      · -- a held unit before `u` would be held by a bulk unit that holds `u` too
        obtain ⟨i, hi⟩ := ne_none_iff_exists'.mp (hheld v hv)
        obtain ⟨_, b, _, hbulk, -, hlt, hab, -⟩ := holding_some hs hi
        have hle := hfree b (by simp [hbulk]) (hab.trans hact)
        have hsorted := hs.urgent
        rw [hsplit, pairwise_append] at hsorted
        have := hsorted.2.2 v hv u mem_cons_self
        omega
      · rcases mem_cons.mp hv with rfl | hv
        · exact Nat.le_refl _
        · have hsorted := hs.urgent
          rw [hsplit, pairwise_append, pairwise_cons] at hsorted
          exact Nat.le_of_lt (hsorted.2.1.1 v hv)
    · exact hfree b hb hact
  | bulk before b after hsplit hheld hfirst =>
    rcases mem_queued.mp hv with hv | ⟨c, hc, rfl⟩
    · obtain ⟨i, hi⟩ := ne_none_iff_exists'.mp (hheld v hv)
      obtain ⟨bef, c, aft, hbulk, -, hlt, hab, -⟩ := holding_some hs hi
      have hc : c ∈ l.bulk := by simp [hbulk]
      have hcb : c.unit.activation = b.unit.activation :=
        some.inj (hab.trans hact)
      have hle := bulk_first hs hsplit hfirst hc hcb
      exact Nat.le_trans hle (Nat.le_of_lt hlt)
    · exact bulk_first hs hsplit hfirst hc (some.inj hact)
where
  bulk_first {before after : List (Queued BulkUnit)} {b c : Queued BulkUnit} (hs : l.Sorted)
      (hsplit : l.bulk = before ++ b :: after)
      (hfirst : ∀ c ∈ before, c.unit.activation ≠ b.unit.activation) (hc : c ∈ l.bulk)
      (hact : c.unit.activation = b.unit.activation) : b.arrival ≤ c.arrival := by
    have hsorted := hs.bulk
    rw [hsplit, pairwise_append, pairwise_cons] at hsorted
    rw [hsplit] at hc
    rcases mem_append.mp hc with hc | hc
    · exact absurd hact (hfirst c hc)
    · rcases mem_cons.mp hc with rfl | hc
      · exact Nat.le_refl _
      · exact Nat.le_of_lt (hsorted.2.1.1 c hc)

theorem Picked.handed (hs : l.Sorted) (h : Picked l r o) : r.1 = Pick.of o := by
  cases h with
  | urgent before u after hsplit hfree hheld =>
    have hlane := hs.lane u (by simp [hsplit])
    cases hu : u.unit with
    | bulk bytes activation release => rw [hu] at hlane; cases hlane
    | _ => simp [Pick.of, hu]
  | bulk before b after hsplit hheld hfirst => rfl
  | idle _ _ => rfl

theorem Picked.arrivals (h : Picked l r o) : r.2.arrivals = l.arrivals := by
  cases h <;> rfl

theorem Picked.free (hs : l.Sorted) (h : Picked l r o) (hu : u ∈ l.urgent) (hfree : l.Free u) :
    r.2.bulk = l.bulk ∧ (o = some u ∨ u ∈ r.2.urgent) := by
  have hnone : l.holding u = none := by
    rw [eq_none_iff_forall_ne_some]
    intro i hi
    obtain ⟨_, b, _, hbulk, -, hlt, hab, -⟩ := holding_some hs hi
    have := hfree b (by simp [hbulk]) hab
    omega
  cases h with
  | urgent before v after hsplit _ hheld =>
    refine ⟨rfl, ?_⟩
    rw [hsplit] at hu
    rcases mem_append.mp hu with hu | hu
    · exact absurd hnone (hheld u hu)
    · rcases mem_cons.mp hu with rfl | hu
      · exact .inl rfl
      · exact .inr (mem_append_right _ hu)
  | bulk before b after hsplit hheld hfirst => exact absurd hnone (hheld u hu)
  | idle hurgent _ => rw [hurgent] at hu; cases hu

theorem Picked.bulk_stays {b : Queued BulkUnit} (h : Picked l r o) (hb : b ∈ l.bulk)
    (hne : o ≠ some b.outbound) : b ∈ r.2.bulk := by
  cases h with
  | urgent before u after _ _ _ => exact hb
  | bulk before c after hsplit _ _ =>
    rw [hsplit] at hb
    rcases mem_append.mp hb with hb | hb
    · exact mem_append_left _ hb
    · rcases mem_cons.mp hb with rfl | hb
      · exact absurd rfl hne
      · exact mem_append_right _ hb
  | idle _ _ => exact hb

theorem enqueue_queued (l : Lanes) (item : Outbound) :
    (l.enqueue item).queued.Perm (l.queued ++ [⟨l.arrivals + 1, item⟩]) := by
  cases item with
  | bulk bytes activation release =>
    simp [enqueue, queued, Queued.outbound, BulkUnit.outbound]
  | _ =>
    simp only [enqueue, queued, append_assoc]
    exact perm_append_comm.append_left l.urgent

theorem enqueue_arrivals (l : Lanes) (item : Outbound) :
    (l.enqueue item).arrivals = l.arrivals + 1 := by
  cases item <;> rfl

theorem enqueue_sorted (hs : l.Sorted) (item : Outbound) : (l.enqueue item).Sorted := by
  have hurgent : ∀ u ∈ l.urgent, u.arrival < l.arrivals + 1 := fun u hu =>
    Nat.lt_succ_of_le (hs.fresh u (mem_queued.mpr (.inl hu)))
  have hbulk : ∀ b ∈ l.bulk, b.arrival < l.arrivals + 1 := fun b hb =>
    Nat.lt_succ_of_le (hs.fresh b.outbound (outbound_mem hb))
  have hfresh : ∀ u ∈ (l.enqueue item).queued, u.arrival ≤ (l.enqueue item).arrivals := by
    intro u hu
    rw [enqueue_arrivals]
    rcases mem_snoc.mp ((enqueue_queued l item).mem_iff.mp hu) with hu | hu
    · exact Nat.le_succ_of_le (hs.fresh u hu)
    · exact hu ▸ Nat.le_refl _
  cases item with
  | bulk bytes activation release =>
    refine ⟨hs.urgent, pairwise_append.mpr ⟨hs.bulk, pairwise_singleton _ _, ?_⟩, hs.lane,
      hfresh⟩
    intro b hb c hc
    rw [mem_singleton.mp hc]
    exact hbulk b hb
  | _ =>
    refine ⟨pairwise_append.mpr ⟨hs.urgent, pairwise_singleton _ _, ?_⟩, hs.bulk, ?_,
      hfresh⟩
    · intro u hu v hv
      rw [mem_singleton.mp hv]
      exact hurgent u hu
    · exact forall_mem_append.mpr ⟨hs.lane, forall_mem_singleton.mpr rfl⟩

theorem enqueue_free (hu : u.arrival ≤ l.arrivals) (h : l.Free u) (item : Outbound) :
    (l.enqueue item).Free u := by
  cases item with
  | bulk bytes activation release =>
    intro b hb hact
    rcases mem_snoc.mp hb with hb | hb
    · exact h b hb hact
    · rw [hb]
      exact Nat.le_succ_of_le hu
  | _ => exact h

theorem enqueue_keeps (l : Lanes) (item : Outbound) :
    (∀ u ∈ l.urgent, u ∈ (l.enqueue item).urgent) ∧ ∀ b ∈ l.bulk, b ∈ (l.enqueue item).bulk := by
  cases item with
  | bulk bytes activation release => exact ⟨fun _ h => h, fun _ h => mem_append_left _ h⟩
  | _ => exact ⟨fun _ h => mem_append_left _ h, fun _ h => h⟩

end Lanes

namespace Line

variable {s : Line}

/-- The lanes are sorted, a unit is either queued or has left, and whatever of one
activation came before a unit that has left has left before it. -/
structure Kept (s : Line) : Prop where
  sorted : s.lanes.Sorted
  came : s.enqueued.map Queued.arrival = List.range' 1 s.lanes.arrivals
  once : (s.left ++ s.lanes.queued).Perm s.enqueued
  passed : ∀ u ∈ s.left, ∀ v ∈ s.lanes.queued, v.unit.activation = u.unit.activation →
    u.arrival < v.arrival
  order : s.left.Pairwise fun u v => u.unit.activation = v.unit.activation → u.arrival < v.arrival

namespace Kept

theorem start : Kept {} :=
  ⟨⟨.nil, .nil, by simp, by simp [Lanes.queued]⟩, rfl, .refl _, by simp, .nil⟩

theorem enqueue (h : s.Kept) (item : Outbound) : (s.enqueue item).Kept := by
  refine ⟨Lanes.enqueue_sorted h.sorted item, ?_, ?_, ?_, h.order⟩
  · simp [Line.enqueue, h.came, Lanes.enqueue_arrivals, range'_concat, Nat.add_comm]
  · have hqueued := (Lanes.enqueue_queued s.lanes item).append_left s.left
    rw [← append_assoc] at hqueued
    exact hqueued.trans (h.once.append_right _)
  · intro u hu v hv hact
    rcases mem_snoc.mp ((Lanes.enqueue_queued s.lanes item).mem_iff.mp hv) with hv | hv
    · exact h.passed u hu v hv hact
    · rw [hv]
      have hu : u ∈ s.enqueued := h.once.mem_iff.mp (mem_append_left _ hu)
      have := h.came ▸ List.mem_map_of_mem (f := Queued.arrival) hu
      rw [mem_range'_1] at this
      dsimp only
      omega

theorem distinct (h : s.Kept) : (s.enqueued.map Queued.arrival).Nodup :=
  h.came ▸ nodup_range'

theorem nodup (h : s.Kept) : ((s.left ++ s.lanes.queued).map Queued.arrival).Nodup :=
  ((h.once.map Queued.arrival).nodup_iff).mpr h.distinct

theorem pick (h : s.Kept) : s.pick.Kept := by
  have hp := Lanes.pick_picked h.sorted
  cases ho : s.lanes.leaving with
  | none =>
    rw [ho] at hp
    have hsame : s.pick = s := by
      have : s.lanes.pick.2 = s.lanes := by generalize s.lanes.pick = r at hp; cases hp; rfl
      simp [Line.pick, ho, this]
    rwa [hsame]
  | some u =>
    rw [ho] at hp
    have hperm := hp.perm
    have hu : u ∈ s.lanes.queued := hperm.mem_iff.mp mem_cons_self
    have hsub : ∀ v ∈ s.lanes.pick.2.queued, v ∈ s.lanes.queued := fun v hv =>
      hperm.mem_iff.mp (mem_cons_of_mem _ hv)
    have hleft : s.pick.left = s.left ++ [u] := by simp [Line.pick, ho]
    refine ⟨hp.sorted h.sorted, ?_, ?_, ?_, ?_⟩
    · exact h.came.trans (congrArg (List.range' 1) hp.arrivals.symm)
    · rw [hleft, append_assoc]
      exact (hperm.append_left s.left).trans h.once
    · intro v hv w hw hact
      rw [hleft] at hv
      rcases mem_snoc.mp hv with hv | hv
      · exact h.passed v hv w (hsub w hw) hact
      · rw [hv] at hact ⊢
        have hle := hp.first h.sorted (hsub w hw) hact
        have hnodup := ((hperm.map Queued.arrival).nodup_iff).mpr
          (h.nodup.sublist ((sublist_append_right _ _).map _))
        rw [map_cons, nodup_cons] at hnodup
        have hne : u.arrival ≠ w.arrival := fun heq =>
          hnodup.1 (heq ▸ List.mem_map_of_mem hw)
        omega
    · rw [hleft, pairwise_append]
      refine ⟨h.order, pairwise_singleton _ _, fun v hv w hw hact => ?_⟩
      rw [mem_singleton.mp hw] at hact ⊢
      exact h.passed v hv u hu hact.symm

theorem reachable (h : machine.Reachable s) : s.Kept := by
  refine h.invariant start ?_
  intro s e s' hs hnext
  cases e with
  | enqueue item => exact some.inj hnext ▸ hs.enqueue item
  | pick => exact some.inj hnext ▸ hs.pick

theorem inOrder (h : s.Kept) (k : Option ActivationId) :
    s.left.filter (fun u => u.unit.activation = k) <+:
      s.enqueued.filter (fun u => u.unit.activation = k) := by
  refine prefix_of_served (r := fun u v => u.arrival < v.arrival)
    (fun a b hab hba => Nat.lt_asymm hab hba) ?_ ?_ ?_ ?_
  · refine List.Pairwise.imp_of_mem ?_ (h.order.sublist filter_sublist)
    intro u v hu hv huv
    have hu := (mem_filter.mp hu).2
    have hv := (mem_filter.mp hv).2
    simp only [decide_eq_true_eq] at hu hv
    exact huv (hu.trans hv.symm)
  · have hcame : (s.enqueued.map Queued.arrival).Pairwise (· < ·) :=
      h.came ▸ pairwise_lt_range' 1
    exact (pairwise_map.mp hcame).sublist filter_sublist
  · intro u hu
    obtain ⟨hu, hk⟩ := mem_filter.mp hu
    exact mem_filter.mpr ⟨h.once.mem_iff.mp (mem_append_left _ hu), hk⟩
  · intro u hu v hv hlt
    obtain ⟨hu, huk⟩ := mem_filter.mp hu
    obtain ⟨hv, hvk⟩ := mem_filter.mp hv
    simp only [decide_eq_true_eq] at huk hvk
    rcases mem_append.mp (h.once.mem_iff.mpr hv) with hleft | hqueued
    · exact mem_filter.mpr ⟨hleft, by simpa using hvk⟩
    · have := h.passed u hu v hqueued (hvk.trans huk.symm)
      omega

theorem length_pick (h : s.Kept) : s.pick.lanes.queued.length = s.lanes.queued.length - 1 := by
  have hp := Lanes.pick_picked h.sorted
  simp only [Line.pick]
  generalize s.lanes.pick = r at hp
  cases ho : s.lanes.leaving with
  | none =>
    rw [ho] at hp
    cases hp with
    | idle hurgent hbulk => simp [Lanes.queued, hurgent, hbulk]
  | some u =>
    rw [ho] at hp
    have := hp.perm.length_eq
    simp only [length_cons] at this
    omega

theorem drains (h : s.Kept) : ∀ {n : Nat}, s.lanes.queued.length = n →
    (Line.pick^[n] s).left.Perm s.enqueued := by
  intro n
  induction n generalizing s with
  | zero =>
    intro hn
    have hnil := length_eq_zero_iff.mp hn
    simpa [hnil] using h.once
  | succ n ih =>
    intro hn
    have hlen := h.length_pick
    exact ih h.pick (by omega)

end Kept

/-- The bulk unit has not gone ahead of the urgent one. -/
def NotPassed (u : Queued Outbound) (b : Queued BulkUnit) (s : Line) : Prop :=
  (u ∈ s.lanes.urgent ∧ s.lanes.Free u ∧ b ∈ s.lanes.bulk) ∨
    (u ∈ s.left ∧ b ∈ s.lanes.bulk) ∨ Ahead s.left u b.outbound

theorem notPassed_enqueue (h : s.Kept) {u : Queued Outbound} {b : Queued BulkUnit}
    (hp : NotPassed u b s) (item : Outbound) : NotPassed u b (s.enqueue item) := by
  have hkeeps := Lanes.enqueue_keeps s.lanes item
  rcases hp with ⟨hu, hfree, hb⟩ | ⟨hu, hb⟩ | hahead
  · have hle := h.sorted.fresh u (Lanes.mem_queued.mpr (.inl hu))
    exact .inl ⟨hkeeps.1 u hu, Lanes.enqueue_free hle hfree item, hkeeps.2 b hb⟩
  · exact .inr (.inl ⟨hu, hkeeps.2 b hb⟩)
  · exact .inr (.inr hahead)

theorem notPassed_pick (h : s.Kept) {u : Queued Outbound} {b : Queued BulkUnit}
    (hp : NotPassed u b s) : NotPassed u b s.pick := by
  have hpick := Lanes.pick_picked h.sorted
  rcases hp with ⟨hu, hfree, hb⟩ | ⟨hu, hb⟩ | hahead
  · obtain ⟨hbulk, hleaves | hstays⟩ := hpick.free h.sorted hu hfree
    · exact .inr (.inl ⟨by simp [Line.pick, hleaves], hbulk.symm ▸ hb⟩)
    · exact .inl ⟨hstays, fun c hc => hfree c (hbulk ▸ hc), hbulk.symm ▸ hb⟩
  · by_cases hleaves : s.lanes.leaving = some b.outbound
    · refine .inr (.inr ?_)
      simp only [Line.pick, hleaves, toList_some]
      exact Ahead.of_mem hu _
    · exact .inr (.inl ⟨mem_append_left _ hu, hpick.bulk_stays hb hleaves⟩)
  · exact .inr (.inr (hahead.mono (sublist_append_left _ _)))

/-- Every unit leaves exactly once, the units of one activation in the order they were
enqueued and the unbound ones among themselves too, and a free urgent unit leaves ahead
of every bulk unit queued by then. -/
structure Served (s : Line) : Prop where
  came : s.enqueued.map Queued.arrival = List.range' 1 s.enqueued.length
  once : (s.left ++ s.lanes.queued).Perm s.enqueued
  drains : (Line.pick^[s.lanes.queued.length] s).left.Perm s.enqueued
  handed : s.lanes.pick.1 = Pick.of s.lanes.leaving
  inOrder : ∀ k : Option ActivationId,
    s.left.filter (fun u => u.unit.activation = k) <+:
      s.enqueued.filter (fun u => u.unit.activation = k)
  first : ∀ u ∈ s.lanes.urgent, s.lanes.Free u → ∀ b ∈ s.lanes.bulk,
    ∀ s', machine.Follows (fun _ => True) s s' → b.outbound ∈ s'.left →
      Ahead s'.left u b.outbound

theorem served_of_reachable (h : machine.Reachable s) : s.Served := by
  have hs := Kept.reachable h
  have hlen : s.enqueued.length = s.lanes.arrivals := by
    have := congrArg List.length hs.came
    simpa using this
  refine ⟨hlen ▸ hs.came, hs.once, hs.drains rfl,
    (Lanes.pick_picked hs.sorted).handed hs.sorted, hs.inOrder, ?_⟩
  intro u hu hfree b hb s' hfollows hleft
  obtain ⟨hs', hnot⟩ := hfollows.invariant (P := fun t => t.Kept ∧ NotPassed u b t)
    ⟨hs, .inl ⟨hu, hfree, hb⟩⟩ (by
      intro t e t' ⟨ht, hnot⟩ hnext _
      cases e with
      | enqueue item =>
        exact Option.some.inj hnext ▸ ⟨ht.enqueue item, notPassed_enqueue ht hnot item⟩
      | pick => exact Option.some.inj hnext ▸ ⟨ht.pick, notPassed_pick ht hnot⟩)
  have hgone : b ∉ s'.lanes.bulk := by
    intro hb'
    have hnodup := hs'.nodup
    rw [List.map_append, List.nodup_append] at hnodup
    exact hnodup.2.2 _ (List.mem_map_of_mem hleft) _
      (List.mem_map_of_mem (Lanes.outbound_mem hb')) rfl
  rcases hnot with ⟨-, -, hb'⟩ | ⟨-, hb'⟩ | hahead
  · exact absurd hb' hgone
  · exact absurd hb' hgone
  · exact hahead

/-- A delta behind its own transfer, which waits while another activation's delta goes
first. -/
theorem served_held :
    ∃ s : Line, s.left.map (fun u => u.arrival) = [3, 1, 2] ∧ s.Served := by
  obtain ⟨s, hreach, hp⟩ := Machine.exists_of_run (M := machine)
    (fun s => s.left.map (fun u => u.arrival) == [3, 1, 2])
    [.enqueue (.bulk [1] "a" none), .enqueue (.binary [2] (some "a")),
      .enqueue (.binary [3] (some "b")), .pick, .pick, .pick] (by decide)
  exact ⟨s, by simpa using hp, served_of_reachable hreach⟩

end Line
end VibeField.Tp
