import Mathlib.Algebra.GroupWithZero.Nat
import VibeField.Base.WindowFilter
import VibeField.Freeway.Frame

/-!
# The path of a link

What the peer's answers say of the path: a pong measures a round trip, and the growth of the count
of delivered bytes a rate.  The smallest round trip and the largest rate of the last ten seconds
pace the writer.
-/

namespace VibeField.Freeway

open List Option
open WindowFilter (expire push unexpired)

def WINDOW_MS : Nat := 10000

def FRAGMENT_MS : Nat := 5

def u64Max : Nat := 0xFFFFFFFFFFFFFFFF

def saturatingMul (a b : Nat) : Nat := min (a * b) u64Max

def checkedSub (a b : Nat) : Option Nat := if b ≤ a then some (a - b) else none

def checkedDiv (a b : Nat) : Option Nat := if b = 0 then none else some (a / b)

structure Path where
  /-- Round trips with their times, strictly increasing. -/
  rtts : List (Nat × Nat)
  /-- Bytes a second with their times, strictly decreasing. -/
  rates : List (Nat × Nat)
  /-- When the last count came, and the count. -/
  last : Option (Nat × Nat)

namespace Path

def new : Path := { rtts := [], rates := [], last := none }

def rtt (p : Path) (now ms : Nat) : Path :=
  { p with rtts := expire WINDOW_MS now (push (· ≥ ·) now ms p.rtts) }

/-- The peer's cumulative delivered bytes. -/
def delivered (p : Path) (now count : Nat) : Option Path :=
  match p.last with
  | some (since, before) =>
    if before < count ∧ since < now then do
      let grown ← checkedSub count before
      let span ← checkedSub now since
      let rate ← checkedDiv (saturatingMul grown 1000) span
      some
        { p with
          rates := expire WINDOW_MS now (push (· ≤ ·) now rate p.rates)
          last := some (now, count) }
    else if count ≤ before then some { p with rates := expire WINDOW_MS now p.rates }
    else some { p with rates := expire WINDOW_MS now p.rates, last := some (now, count) }
  | none => some { p with rates := expire WINDOW_MS now p.rates, last := some (now, count) }

def minRtt (p : Path) : Option Nat := p.rtts.head?.map Prod.snd

def rate (p : Path) : Option Nat := p.rates.head?.map Prod.snd

def cap (p : Path) : Nat :=
  let product :=
    match p.minRtt, p.rate with
    | some rtt, some rate => saturatingMul rate rtt / 1000
    | _, _ => 0
  max (saturatingMul product 5 / 4) watermarkBytes

def fragmentBytes (p : Path) : Nat :=
  let bytes := p.rate.elim Freeway.fragmentBytes fun rate => saturatingMul rate FRAGMENT_MS / 1000
  max minFragmentBytes (min bytes Freeway.fragmentBytes)

end Path

/-- What the link tells the path, with the time it came. -/
inductive Sample where
  | rtt (now ms : Nat)
  | delivered (now count : Nat)
  deriving DecidableEq

def Sample.now : Sample → Nat
  | .rtt now _ => now
  | .delivered now _ => now

def Sample.word : Sample → Nat
  | .rtt _ ms => ms
  | .delivered _ count => count

namespace Path

def sample (p : Path) : Sample → Option Path
  | .rtt now ms => some (p.rtt now ms)
  | .delivered now count => p.delivered now count

def run (samples : List Sample) : Option Path := samples.foldlM sample new

/-! ## The samples alone -/

def roundTrips (samples : List Sample) : List (Nat × Nat) :=
  samples.filterMap fun
    | .rtt now ms => some (now, ms)
    | .delivered _ _ => none

def counts (samples : List Sample) : List (Nat × Nat) :=
  samples.filterMap fun
    | .rtt _ _ => none
    | .delivered now count => some (now, count)

/-- A rate measured from two counts. -/
structure Measure where
  time : Nat
  count : Nat
  bytes : Nat
  span : Nat
  deriving DecidableEq

def Measure.rate (m : Measure) : Nat := saturatingMul m.bytes 1000 / m.span

def measures : Option (Nat × Nat) → List (Nat × Nat) → List Measure
  | _, [] => []
  | none, c :: rest => measures (some c) rest
  | some (since, before), (now, count) :: rest =>
    if before < count ∧ since < now then
      { time := now, count, bytes := count - before, span := now - since } ::
        measures (some (now, count)) rest
    else if count ≤ before then measures (some (since, before)) rest
    else measures (some (now, count)) rest

def records : Option Nat → List (Nat × Nat) → List (Nat × Nat)
  | _, [] => []
  | none, c :: rest => c :: records (some c.2) rest
  | some high, c :: rest =>
    if high < c.2 then c :: records (some c.2) rest else records (some high) rest

def clock (samples : List (Nat × Nat)) : Nat := (samples.getLast?.map Prod.fst).getD 0

def rateSamples (samples : List Sample) : List (Nat × Nat) :=
  (measures none (counts samples)).map fun m => (m.time, m.rate)

/-! ## What is claimed -/

/-- At every measured rate the bytes measured so far are those the count has grown by. -/
def Accounts (counts : List (Nat × Nat)) : Prop :=
  ∀ first rest, counts = first :: rest → ∀ before m after,
    measures none counts = before ++ m :: after →
    ((before ++ [m]).map Measure.bytes).sum = m.count - first.2

def points (counts : List (Nat × Nat)) : List (Nat × Nat) :=
  counts.head?.toList ++ (measures none counts).map fun m => (m.time, m.count)

/-- The rate is no less than the average from one point to a later one that nothing older than the
window stands between, or to the newest from the one before it. -/
def AboveAverage (counts : List (Nat × Nat)) (rate : Option Nat) : Prop :=
  ∀ before a mid b after, points counts = before ++ a :: (mid ++ b :: after) →
    ((∀ s ∈ mid ++ [b], clock counts - s.1 ≤ WINDOW_MS) ∨ mid = [] ∧ after = []) →
    ∃ r, rate = some r ∧ saturatingMul (b.2 - a.2) 1000 / (b.1 - a.1) ≤ r

structure Exact (samples : List Sample) (p : Path) : Prop where
  minRtt : p.minRtt = ((unexpired WINDOW_MS (clock (roundTrips samples))
    (roundTrips samples)).map Prod.snd).min?
  rate : p.rate = ((unexpired WINDOW_MS (clock (counts samples))
    (rateSamples samples)).map Prod.snd).max?
  accounts : Accounts (counts samples)
  average : AboveAverage (counts samples) p.rate
  cap : watermarkBytes ≤ p.cap ∧ p.cap ≤ u64Max

structure Feed (samples : List Sample) : Prop where
  clock : samples.Pairwise fun s t => s.now ≤ t.now
  words : ∀ s ∈ samples, s.now ≤ u64Max ∧ s.word ≤ u64Max

/-- No count grows within the millisecond of the growth before it, unless no later one grows at a
later time. -/
def Spread (counts : List (Nat × Nat)) : Prop :=
  ∀ before a b after, records none counts = before ++ a :: b :: after → a.1 = b.1 →
    ∀ c ∈ after, c.1 = a.1

/-! ## The filters hold the samples -/

section Filters

variable {p p' : Path} {samples : List Sample}

def lastOf : Option (Nat × Nat) → List (Nat × Nat) → Option (Nat × Nat)
  | last, [] => last
  | none, c :: rest => lastOf (some c) rest
  | some (since, before), (now, count) :: rest =>
    if before < count ∧ since < now then lastOf (some (now, count)) rest
    else if count ≤ before then lastOf (some (since, before)) rest
    else lastOf (some (now, count)) rest

theorem measures_append (last : Option (Nat × Nat)) (cs : List (Nat × Nat)) (c : Nat × Nat) :
    measures last (cs ++ [c]) = measures last cs ++ measures (lastOf last cs) [c] := by
  induction cs generalizing last with
  | nil => cases last <;> rfl
  | cons d cs ih =>
    cases last with
    | none => exact ih (some d)
    | some l =>
      rw [cons_append, measures, measures, lastOf]
      split
      · rw [ih, cons_append]
      split
      · exact ih _
      · exact ih _

theorem lastOf_append (last : Option (Nat × Nat)) (cs : List (Nat × Nat)) (c : Nat × Nat) :
    lastOf last (cs ++ [c]) = lastOf (lastOf last cs) [c] := by
  induction cs generalizing last with
  | nil => cases last <;> rfl
  | cons d cs ih =>
    cases last with
    | none => exact ih (some d)
    | some l =>
      rw [cons_append, lastOf, lastOf]
      split
      · exact ih _
      split
      · exact ih _
      · exact ih _

theorem delivered_eq (p : Path) (now count : Nat) :
    p.delivered now count = some
      { rtts := p.rtts
        rates := expire WINDOW_MS now ((measures p.last [(now, count)]).foldl
          (fun q m => push (· ≤ ·) now m.rate q) p.rates)
        last := lastOf p.last [(now, count)] } := by
  rw [delivered]
  cases hlast : p.last with
  | none => rfl
  | some l =>
    obtain ⟨since, before⟩ := l
    simp only [measures, lastOf]
    by_cases hgrew : before < count ∧ since < now
    · have hcount : checkedSub count before = some (count - before) :=
        if_pos (Nat.le_of_lt hgrew.1)
      have hspan : checkedSub now since = some (now - since) := if_pos (Nat.le_of_lt hgrew.2)
      have hdiv : checkedDiv (saturatingMul (count - before) 1000) (now - since) =
          some (saturatingMul (count - before) 1000 / (now - since)) := if_neg (by omega)
      simp only [if_pos hgrew, hcount, hspan, bind_eq_bind, bind_some, hdiv]
      rfl
    · simp only [if_neg hgrew]
      by_cases hold : count ≤ before
      · simp only [if_pos hold, ← hlast]
        rfl
      · simp only [if_neg hold]
        rfl

/-- What a path holds of the samples given to it. -/
structure Held (samples : List Sample) (p : Path) : Prop where
  rtts : WindowFilter.Keeps (· ≥ ·) WINDOW_MS (clock (roundTrips samples)) (roundTrips samples)
    p.rtts
  freshRtts : ∃ q, p.rtts = expire WINDOW_MS (clock (roundTrips samples)) q
  rates : WindowFilter.Keeps (· ≤ ·) WINDOW_MS (clock (counts samples)) (rateSamples samples)
    p.rates
  freshRates : ∃ q, p.rates = expire WINDOW_MS (clock (counts samples)) q
  last : p.last = lastOf none (counts samples)

theorem held_new : Held [] new where
  rtts := WindowFilter.keeps_nil
  freshRtts := ⟨[], rfl⟩
  rates := WindowFilter.keeps_nil
  freshRates := ⟨[], rfl⟩
  last := rfl

theorem clock_append (cs : List (Nat × Nat)) (c : Nat × Nat) : clock (cs ++ [c]) = c.1 := by
  rw [clock, List.getLast?_concat]
  rfl

variable {now : Nat}

theorem clock_le {cs : List (Nat × Nat)} (h : ∀ c ∈ cs, c.1 ≤ now) :
    clock cs ≤ now := by
  cases hlast : cs.getLast? with
  | none =>
    rw [clock, hlast]
    exact Nat.zero_le _
  | some c =>
    rw [clock, hlast]
    exact h c (List.mem_of_getLast? hlast)

theorem roundTrips_append (samples : List Sample) (s : Sample) :
    roundTrips (samples ++ [s]) = roundTrips samples ++ roundTrips [s] := filterMap_append

theorem counts_append (samples : List Sample) (s : Sample) :
    counts (samples ++ [s]) = counts samples ++ counts [s] := filterMap_append

theorem roundTrips_past (h : ∀ s ∈ samples, s.now ≤ now) :
    ∀ c ∈ roundTrips samples, c.1 ≤ now := by
  intro c hc
  obtain ⟨s, hs, hsc⟩ := mem_filterMap.mp hc
  cases s with
  | rtt at' ms =>
    cases hsc
    exact h _ hs
  | delivered at' count => cases hsc

theorem counts_past (h : ∀ s ∈ samples, s.now ≤ now) :
    ∀ c ∈ counts samples, c.1 ≤ now := by
  intro c hc
  obtain ⟨s, hs, hsc⟩ := mem_filterMap.mp hc
  cases s with
  | rtt at' ms => cases hsc
  | delivered at' count =>
    cases hsc
    exact h _ hs

theorem Held.rtt (h : Held samples p) (hpast : ∀ s ∈ samples, s.now ≤ now)
    (ms : Nat) : Held (samples ++ [.rtt now ms]) (p.rtt now ms) := by
  have hrounds : roundTrips (samples ++ [.rtt now ms]) = roundTrips samples ++ [(now, ms)] :=
    roundTrips_append _ _
  have hcounts : counts (samples ++ [.rtt now ms]) = counts samples :=
    (counts_append _ _).trans (append_nil _)
  refine ⟨?_, ?_, ?_, ?_, ?_⟩
  · rw [hrounds, clock_append]
    exact (h.rtts.push (clock_le (roundTrips_past hpast)) ms).expire
  · rw [hrounds, clock_append]
    exact ⟨_, rfl⟩
  · rw [rateSamples, hcounts]
    exact h.rates
  · rw [hcounts]
    exact h.freshRates
  · rw [hcounts]
    exact h.last

theorem Held.delivered (h : Held samples p) (hpast : ∀ s ∈ samples, s.now ≤ now)
    (count : Nat) :
    ∃ p', p.delivered now count = some p' ∧ Held (samples ++ [.delivered now count]) p' := by
  have hrounds : roundTrips (samples ++ [.delivered now count]) = roundTrips samples :=
    (roundTrips_append _ _).trans (append_nil _)
  have hcounts : counts (samples ++ [.delivered now count]) = counts samples ++ [(now, count)] :=
    counts_append _ _
  have hclock := clock_le (counts_past hpast)
  have hrates : rateSamples (samples ++ [.delivered now count]) =
      rateSamples samples ++ (measures p.last [(now, count)]).map fun m => (m.time, m.rate) := by
    rw [rateSamples, hcounts, measures_append, map_append, h.last]
    rfl
  refine ⟨_, delivered_eq p now count, ?_, ?_, ?_, ?_, ?_⟩
  · rw [hrounds]
    exact h.rtts
  · rw [hrounds]
    exact h.freshRtts
  · rw [hcounts, clock_append, hrates]
    refine WindowFilter.Keeps.expire ?_
    cases hlast : p.last with
    | none =>
      have hnone : (measures none [(now, count)]).map (fun m => (m.time, m.rate)) = [] := rfl
      rw [hnone, append_nil]
      exact h.rates.later hclock
    | some l =>
      rw [measures]
      split
      · exact h.rates.push hclock _
      · have hnone : (if count ≤ l.2 then measures (some (l.1, l.2)) []
            else measures (some (now, count)) []) = [] := by
          split <;> rfl
        rw [hnone, map_nil, append_nil]
        exact h.rates.later hclock
  · rw [hcounts, clock_append]
    exact ⟨_, rfl⟩
  · show lastOf p.last [(now, count)] = lastOf none (counts (samples ++ [.delivered now count]))
    rw [hcounts, lastOf_append, h.last]

theorem run_held (hfeed : samples.Pairwise fun s t => s.now ≤ t.now) :
    ∃ p, run samples = some p ∧ Held samples p := by
  induction samples using List.reverseRecOn with
  | nil => exact ⟨new, rfl, held_new⟩
  | append_singleton samples s ih =>
    obtain ⟨hbefore, -, hlast⟩ := pairwise_append.mp hfeed
    obtain ⟨p, hrun, hheld⟩ := ih hbefore
    have hpast : ∀ t ∈ samples, t.now ≤ s.now := fun t ht =>
      hlast t ht s (mem_singleton_self s)
    have hstep : run (samples ++ [s]) = p.sample s := by
      rw [run, foldlM_append]
      show (run samples).bind _ = _
      rw [hrun, bind_some]
      simp
    rw [hstep]
    cases s with
    | rtt now ms => exact ⟨_, rfl, hheld.rtt hpast ms⟩
    | delivered now count => exact hheld.delivered hpast count

theorem Held.minRtt_eq (h : Held samples p) :
    p.minRtt = ((unexpired WINDOW_MS (clock (roundTrips samples))
      (roundTrips samples)).map Prod.snd).min? := by
  obtain ⟨q, hq⟩ := h.freshRtts
  have hkeeps := h.rtts
  rw [minRtt]
  cases hhead : p.rtts.head? with
  | none =>
    rw [hkeeps.nonempty.mp hhead]
    rfl
  | some f =>
    rw [hq] at hkeeps hhead
    obtain ⟨hmem, hbest⟩ := hkeeps.best hhead
    symm
    refine List.min?_eq_some_iff.mpr ⟨List.mem_map_of_mem hmem, fun ms hms => ?_⟩
    obtain ⟨s, hs, rfl⟩ := List.mem_map.mp hms
    exact hbest s hs

theorem Held.rate_eq (h : Held samples p) : p.rate =
    ((unexpired WINDOW_MS (clock (counts samples)) (rateSamples samples)).map Prod.snd).max? := by
  obtain ⟨q, hq⟩ := h.freshRates
  have hkeeps := h.rates
  rw [rate]
  cases hhead : p.rates.head? with
  | none =>
    rw [hkeeps.nonempty.mp hhead]
    rfl
  | some f =>
    rw [hq] at hkeeps hhead
    obtain ⟨hmem, hbest⟩ := hkeeps.best hhead
    symm
    refine List.max?_eq_some_iff.mpr ⟨List.mem_map_of_mem hmem, fun r hr => ?_⟩
    obtain ⟨s, hs, rfl⟩ := List.mem_map.mp hr
    exact hbest s hs

end Filters

theorem cap_bounds (p : Path) : watermarkBytes ≤ p.cap ∧ p.cap ≤ u64Max := by
  have hsat : ∀ a b, saturatingMul a b ≤ u64Max := fun a b => Nat.min_le_right _ _
  refine ⟨Nat.le_max_right _ _, Nat.max_le.mpr ⟨?_, by decide⟩⟩
  exact Nat.le_trans (Nat.div_le_self _ _) (hsat _ _)

/-! ## What the measures account for -/

section Measured

variable {p : Nat × Nat} {c : Nat × Nat} {r : List (Nat × Nat)} {ms : List Measure}

/-- Later counts are larger and come no earlier. -/
def Rising (r : List (Nat × Nat)) : Prop := r.Pairwise fun s t => s.1 ≤ t.1 ∧ s.2 < t.2

theorem records_sublist (high : Option Nat) (cs : List (Nat × Nat)) :
    (records high cs).Sublist cs := by
  induction cs generalizing high with
  | nil => cases high <;> exact List.Sublist.refl _
  | cons c cs ih =>
    cases high with
    | none => exact (ih _).cons_cons c
    | some h =>
      rw [records]
      split
      · exact (ih _).cons_cons c
      · exact (ih _).cons c

theorem high_lt_records (high : Nat) (cs : List (Nat × Nat)) :
    ∀ c ∈ records (some high) cs, high < c.2 := by
  induction cs generalizing high with
  | nil => exact fun c hc => by cases hc
  | cons d cs ih =>
    intro c hc
    rw [records] at hc
    split at hc
    · next hlt =>
      rcases mem_cons.mp hc with rfl | hc
      · exact hlt
      · exact Nat.lt_trans hlt (ih _ c hc)
    · exact ih _ c hc

theorem records_grow (high : Option Nat) (cs : List (Nat × Nat)) :
    (records high cs).Pairwise fun s t => s.2 < t.2 := by
  induction cs generalizing high with
  | nil => cases high <;> exact List.Pairwise.nil
  | cons c cs ih =>
    cases high with
    | none => exact pairwise_cons.mpr ⟨high_lt_records _ _, ih _⟩
    | some h =>
      rw [records]
      split
      · exact pairwise_cons.mpr ⟨high_lt_records _ _, ih _⟩
      · exact ih _

theorem measures_records (since before : Nat) (cs : List (Nat × Nat)) :
    measures (some (since, before)) cs =
      measures (some (since, before)) (records (some before) cs) := by
  induction cs generalizing since before with
  | nil => rfl
  | cons c cs ih =>
    rw [records, measures]
    by_cases hgrew : before < c.2
    · rw [if_pos hgrew, measures]
      by_cases hlater : since < c.1
      · rw [if_pos ⟨hgrew, hlater⟩, if_pos ⟨hgrew, hlater⟩, ih]
      · have hnot : ¬(before < c.2 ∧ since < c.1) := fun h => hlater h.2
        have hle : ¬c.2 ≤ before := Nat.not_le.mpr hgrew
        simp only [if_neg hnot, if_neg hle]
        exact ih _ _
    · have hnot : ¬(before < c.2 ∧ since < c.1) := fun h => hgrew h.1
      rw [if_neg hnot, if_pos (Nat.not_lt.mp hgrew), if_neg hgrew, ih]

theorem measures_later (h : Rising (p :: c :: r)) (hlater : p.1 < c.1) :
    measures (some p) (c :: r) =
      { time := c.1, count := c.2, bytes := c.2 - p.2, span := c.1 - p.1 } ::
        measures (some c) r :=
  if_pos ⟨((pairwise_cons.mp h).1 c mem_cons_self).2, hlater⟩

theorem measures_tie (h : Rising (p :: c :: r)) (htie : p.1 = c.1) :
    measures (some p) (c :: r) = measures (some c) r := by
  have hgrew := ((pairwise_cons.mp h).1 c mem_cons_self).2
  have hnot : ¬(p.2 < c.2 ∧ p.1 < c.1) := fun hm => by omega
  exact (if_neg hnot).trans (if_neg (Nat.not_le.mpr hgrew))

theorem Rising.tail (h : Rising (p :: r)) : Rising r := (pairwise_cons.mp h).2

theorem Rising.head_le (h : Rising (p :: c :: r)) : p.1 ≤ c.1 :=
  ((pairwise_cons.mp h).1 c mem_cons_self).1

theorem measures_still (h : Rising (p :: r)) (hstill : ∀ c ∈ r, c.1 = p.1) :
    measures (some p) r = [] := by
  induction r generalizing p with
  | nil => rfl
  | cons c r ih =>
    have hc := hstill c mem_cons_self
    rw [measures_tie h hc.symm]
    exact ih h.tail fun d hd => (hstill d (mem_cons_of_mem c hd)).trans hc.symm

theorem still_of_measures (h : Rising (p :: r)) (hnone : measures (some p) r = []) :
    ∀ c ∈ r, c.1 = p.1 := by
  induction r generalizing p with
  | nil => exact fun c hc => by cases hc
  | cons c r ih =>
    rcases Nat.lt_or_eq_of_le h.head_le with hlater | htie
    · rw [measures_later h hlater] at hnone
      cases hnone
    · rw [measures_tie h htie] at hnone
      intro d hd
      rcases mem_cons.mp hd with rfl | hd
      · exact htie.symm
      · exact (ih h.tail hnone d hd).trans htie.symm

def Linked : Nat × Nat → List Measure → Prop
  | _, [] => True
  | p, m :: ms =>
    (p.1 < m.time ∧ p.2 < m.count) ∧ (m.bytes = m.count - p.2 ∧ m.span = m.time - p.1) ∧
      Linked (m.time, m.count) ms

/-- The same, of the counts past every one before them. -/
def SpreadFrom (r : List (Nat × Nat)) : Prop :=
  ∀ before a b after, r = before ++ a :: b :: after → a.1 = b.1 → ∀ c ∈ after, c.1 = a.1

theorem SpreadFrom.tail (h : SpreadFrom (p :: r)) : SpreadFrom r :=
  fun before a b after hr => h (p :: before) a b after (congrArg (List.cons p) hr)

theorem linked_of_spread (h : Rising (p :: r)) (hspread : SpreadFrom (p :: r)) :
    Linked p (measures (some p) r) := by
  induction r generalizing p with
  | nil => trivial
  | cons c r ih =>
    rcases Nat.lt_or_eq_of_le h.head_le with hlater | htie
    · rw [measures_later h hlater]
      have hgrew := ((pairwise_cons.mp h).1 c mem_cons_self).2
      exact ⟨⟨hlater, hgrew⟩, ⟨rfl, rfl⟩, ih h.tail hspread.tail⟩
    · have hstill : ∀ d ∈ r, d.1 = c.1 := fun d hd =>
        (hspread [] p c r rfl htie d hd).trans htie
      rw [measures_tie h htie, measures_still h.tail hstill]
      trivial

theorem Linked.sums {before after : List Measure} {m : Measure}
    (h : Linked p (before ++ m :: after)) :
    (p.1 < m.time ∧ p.2 < m.count) ∧
      ((before ++ [m]).map Measure.bytes).sum = m.count - p.2 ∧
      ((before ++ [m]).map Measure.span).sum = m.time - p.1 := by
  induction before generalizing p with
  | nil =>
    obtain ⟨hlt, ⟨hbytes, hspan⟩, -⟩ := h
    exact ⟨hlt, by simpa using hbytes, by simpa using hspan⟩
  | cons d before ih =>
    obtain ⟨hlt, ⟨hbytes, hspan⟩, htail⟩ := h
    obtain ⟨hlt', hbytes', hspan'⟩ := ih htail
    simp only at hlt' hbytes' hspan'
    rw [cons_append, map_cons, map_cons, sum_cons, sum_cons, hbytes',
      hspan']
    omega

theorem first_bytes (h : Rising (p :: r)) {m : Measure} {after : List Measure}
    (hm : measures (some p) r = m :: after) : p.2 < m.count ∧ m.bytes ≤ m.count - p.2 := by
  induction r generalizing p with
  | nil => cases hm
  | cons c r ih =>
    have hgrew := ((pairwise_cons.mp h).1 c mem_cons_self).2
    rcases Nat.lt_or_eq_of_le h.head_le with hlater | htie
    · rw [measures_later h hlater] at hm
      cases hm
      exact ⟨hgrew, Nat.le_refl _⟩
    · rw [measures_tie h htie] at hm
      have hrest := ih h.tail hm
      omega

/-- At every measure the bytes measured since the count are those it has grown by. -/
def AccountsFrom (p : Nat × Nat) (ms : List Measure) : Prop :=
  ∀ before m after, ms = before ++ m :: after →
    ((before ++ [m]).map Measure.bytes).sum = m.count - p.2

theorem spread_of_accounts (h : Rising (p :: r)) (hacc : AccountsFrom p (measures (some p) r)) :
    SpreadFrom (p :: r) := by
  induction r generalizing p with
  | nil =>
    intro before a b after hr
    have hlength := congrArg List.length hr
    simp at hlength
    omega
  | cons c r ih =>
    have hgrew := ((pairwise_cons.mp h).1 c mem_cons_self).2
    rcases Nat.lt_or_eq_of_le h.head_le with hlater | htie
    · -- what was measured first is left out on both sides
      have hrest : AccountsFrom c (measures (some c) r) := by
        intro before m after hm
        have hall := hacc (_ :: before) m after
          ((measures_later h hlater).trans (congrArg _ hm))
        rw [cons_append, map_cons, sum_cons] at hall
        simp only at hall
        omega
      intro before a b after hr hab
      cases before with
      | nil =>
        rw [nil_append, List.cons.injEq, List.cons.injEq] at hr
        obtain ⟨rfl, rfl, -⟩ := hr
        omega
      | cons d before => exact ih h.tail hrest before a b after (List.cons.inj hr).2 hab
    · -- the growth of a tie is lost to the first measure after it, so there is none
      rw [measures_tie h htie] at hacc
      have hnone : measures (some c) r = [] := by
        cases hms : measures (some c) r with
        | nil => rfl
        | cons m after =>
          have hfirst := first_bytes h.tail hms
          have hsum := hacc [] m after hms
          simp at hsum
          omega
      have hstill := still_of_measures h.tail hnone
      have hall : ∀ d ∈ p :: c :: r, d.1 = p.1 := fun d hd => by
        rcases mem_cons.mp hd with rfl | hd
        · rfl
        rcases mem_cons.mp hd with rfl | hd
        · exact htie.symm
        · exact (hstill d hd).trans htie.symm
      intro before a b after hr _ d hd
      have ha : a ∈ p :: c :: r := hr ▸ mem_append_right _ mem_cons_self
      have hd' : d ∈ p :: c :: r := hr ▸ mem_append_right _
        (mem_cons_of_mem _ (mem_cons_of_mem _ hd))
      exact (hall d hd').trans (hall a ha).symm

/-! ## The average -/

theorem saturated_le {bytes span bound : Nat} (hspan : 0 < span)
    (h : saturatingMul bytes 1000 / span ≤ bound) :
    saturatingMul bytes 1000 < (bound + 1) * span :=
  (Nat.div_lt_iff_lt_mul hspan).mp (Nat.lt_succ_of_le h)

theorem mediant {bound : Nat} (hms : ∀ m ∈ ms, 0 < m.span ∧ m.rate ≤ bound) (hne : ms ≠ []) :
    0 < (ms.map Measure.span).sum ∧ saturatingMul (ms.map Measure.bytes).sum 1000 <
      (bound + 1) * (ms.map Measure.span).sum := by
  induction ms with
  | nil => exact absurd rfl hne
  | cons m ms ih =>
    obtain ⟨hm, hrest⟩ := forall_mem_cons.mp hms
    have hfirst := saturated_le hm.1 hm.2
    rw [map_cons, map_cons, sum_cons, sum_cons, Nat.mul_add]
    by_cases hnil : ms = []
    · subst hnil
      simpa using And.intro hm.1 hfirst
    · obtain ⟨hpos, hlt⟩ := ih hrest hnil
      simp only [saturatingMul] at hfirst hlt ⊢
      omega

theorem Linked.suffix {before rest : List (Nat × Nat)} {a : Nat × Nat} (h : Linked p ms)
    (hpoints : p :: ms.map (fun m => (m.time, m.count)) = before ++ a :: rest) :
    ∃ done ms', ms = done ++ ms' ∧ Linked a ms' ∧
      ms'.map (fun m => (m.time, m.count)) = rest := by
  induction before generalizing p ms with
  | nil =>
    obtain ⟨rfl, hrest⟩ := List.cons.inj hpoints
    exact ⟨[], ms, rfl, h, hrest⟩
  | cons d before ih =>
    have htail := (List.cons.inj hpoints).2
    cases ms with
    | nil =>
      have hlength := congrArg List.length htail
      simp at hlength
    | cons m ms =>
      obtain ⟨done, ms', hms, hlinked, hrest⟩ := ih h.2.2 htail
      exact ⟨m :: done, ms', congrArg (List.cons m) hms, hlinked, hrest⟩

theorem Linked.span_pos (h : Linked p ms) : ∀ m ∈ ms, 0 < m.span := by
  induction ms generalizing p with
  | nil => exact fun m hm => by cases hm
  | cons d ms ih =>
    obtain ⟨hlt, ⟨-, hspan⟩, htail⟩ := h
    intro m hm
    rcases mem_cons.mp hm with rfl | hm
    · omega
    · exact ih htail m hm

end Measured

variable {samples : List Sample}

theorem counts_times (h : samples.Pairwise fun s t => s.now ≤ t.now) :
    (counts samples).Pairwise fun s t => s.1 ≤ t.1 := by
  refine pairwise_filterMap.mpr (h.imp fun {s t} hst c hc d hd => ?_)
  cases s with
  | rtt now ms => cases hc
  | delivered now count =>
    cases t with
    | rtt now' ms => cases hd
    | delivered now' count' =>
      cases hc
      cases hd
      exact hst

theorem rising_records {first : Nat × Nat} {rest : List (Nat × Nat)}
    (h : (first :: rest).Pairwise fun s t => s.1 ≤ t.1) :
    Rising (first :: records (some first.2) rest) := by
  have htimes : (records none (first :: rest)).Pairwise fun s t => s.1 ≤ t.1 :=
    h.sublist (records_sublist _ _)
  exact htimes.and (records_grow none (first :: rest))

theorem accounts_iff {cs : List (Nat × Nat)} (h : cs.Pairwise fun s t => s.1 ≤ t.1) :
    Accounts cs ↔ Spread cs := by
  cases cs with
  | nil =>
    refine ⟨fun _ before a b after hr => ?_, fun _ first rest hc => by cases hc⟩
    cases before <;> cases hr
  | cons first rest =>
    have hrising := rising_records h
    have hms : measures none (first :: rest) =
        measures (some first) (records (some first.2) rest) := measures_records _ _ _
    constructor
    · intro hacc
      refine spread_of_accounts hrising fun before m after hm => ?_
      exact hacc first rest rfl before m after (hms.trans hm)
    · intro hspread first' rest' hc before m after hm
      cases hc
      have hlinked := linked_of_spread hrising hspread
      rw [← hms, hm] at hlinked
      exact hlinked.sums.2.1

theorem average_of_spread {p : Path} (hheld : Held samples p)
    (htimes : (counts samples).Pairwise fun s t => s.1 ≤ t.1) (hspread : Spread (counts samples)) :
    AboveAverage (counts samples) p.rate := by
  intro before a mid b after hpoints hwindow
  cases hcounts : counts samples with
  | nil =>
    rw [hcounts] at hpoints
    cases before <;> cases hpoints
  | cons first rest =>
    have hms : measures none (counts samples) =
        measures (some first) (records (some first.2) rest) := by
      rw [hcounts]
      exact measures_records _ _ _
    rw [hcounts] at htimes hspread
    have hlinked := linked_of_spread (rising_records htimes) hspread
    rw [← hms] at hlinked
    have hsplit : first :: (measures none (counts samples)).map (fun m => (m.time, m.count)) =
        before ++ a :: (mid ++ b :: after) := by
      rw [← hpoints, points, hcounts]
      rfl
    obtain ⟨done, ms', hdone, hlinked', hrest⟩ := hlinked.suffix hsplit
    obtain ⟨ms, more, rfl, hmid, hmore⟩ := map_eq_append_iff.mp hrest
    obtain ⟨m, later, rfl, hm, hlater⟩ := map_eq_cons_iff.mp hmore
    obtain ⟨hlt, hbytes, hspan⟩ := hlinked'.sums
    -- every measure of the stretch is one of the window's
    have hin : ∀ d ∈ ms ++ [m], (d.time, d.rate) ∈
        unexpired WINDOW_MS (clock (counts samples)) (rateSamples samples) := by
      intro d hd
      have hmem : (d.time, d.rate) ∈ rateSamples samples := by
        refine List.mem_map.mpr ⟨d, ?_, rfl⟩
        rw [hdone]
        refine mem_append_right _ ?_
        rcases mem_append.mp hd with hd | hd
        · exact mem_append_left _ hd
        · rw [mem_singleton.mp hd]
          exact mem_append_right _ mem_cons_self
      rcases hwindow with hage | ⟨hnil, hnone⟩
      · refine WindowFilter.mem_unexpired hmem (hage (d.time, d.count) ?_)
        rcases mem_append.mp hd with hd | hd
        · exact mem_append_left _ (hmid ▸ List.mem_map_of_mem hd)
        · rw [mem_singleton.mp hd]
          exact mem_append_right _ (by rw [← hm]; exact mem_singleton_self _)
      · have hms0 : ms = [] := map_eq_nil_iff.mp (hmid.trans hnil)
        have hlater0 : later = [] := map_eq_nil_iff.mp (hlater.trans hnone)
        rw [hms0, nil_append, mem_singleton] at hd
        refine mem_append_right _ (mem_toList.mpr ?_)
        rw [rateSamples, hdone, hms0, hlater0, hd, nil_append, map_append,
          map_singleton, List.getLast?_concat]
    have hrate := hheld.rate_eq
    cases hp : p.rate with
    | none =>
      rw [hp] at hrate
      have hempty := map_eq_nil_iff.mp (List.max?_eq_none_iff.mp hrate.symm)
      have hmem := hin m (mem_append_right _ (mem_singleton_self m))
      rw [hempty] at hmem
      cases hmem
    | some r =>
      rw [hp] at hrate
      have hbest := (List.max?_eq_some_iff.mp hrate.symm).2
      have hpos := hlinked'.span_pos
      have hslow : ∀ d ∈ ms ++ [m], 0 < d.span ∧ d.rate ≤ r := by
        intro d hd
        refine ⟨hpos d ?_, hbest d.rate (List.mem_map.mpr ⟨_, hin d hd, rfl⟩)⟩
        rcases mem_append.mp hd with hd | hd
        · exact mem_append_left _ hd
        · rw [mem_singleton.mp hd]
          exact mem_append_right _ mem_cons_self
      have hmediant := mediant hslow (by simp)
      rw [hbytes, hspan] at hmediant
      refine ⟨r, rfl, ?_⟩
      rw [← hm]
      exact Nat.le_of_lt_succ ((Nat.div_lt_iff_lt_mul hmediant.1).mpr hmediant.2)

end Path
end VibeField.Freeway
