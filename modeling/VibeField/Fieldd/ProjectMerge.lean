import VibeField.Fieldd.ProjectReplicas
import Mathlib.Order.Bounds.Basic

/-!
# Acts on projects merge

Once a replica has heard of every write, it reads what the others read, everything that was written
is among it, and the time of an acted place, a link or a split is the latest one written, as long as
the write with the latest stamp also was the latest act.
-/

namespace VibeField.Fieldd.ProjectDoc

open List Option Function

variable {R P : Type}

def timeOf : ProjectWrite R → Option (Key × ℚ)
  | .acted record place t => some ((.acted, joined record place), t)
  | .link a b t => some ((.links, pair a b), t)
  | .split place notRecord t => some ((.splits, joined place notRecord), t)
  | _ => none

def MapName.takesLater : MapName → Bool
  | .acted | .links | .splits => true
  | _ => false

def recordOfWrite : ProjectWrite R → Option Text
  | .anchor record _ _ => some record
  | .acted record _ _ => some record
  | _ => none

def times (written : List (ProjectWrite R)) (k : Key) : Set ℚ :=
  {t | ∃ w ∈ written, timeOf w = some (k, t)}

section Times

variable {written : List (ProjectWrite R)} {w : ProjectWrite R} {k : Key} {t : ℚ}

theorem times_act (h : ∀ t, timeOf w ≠ some (k, t)) :
    times (written ++ [w]) k = times written k := by
  ext t
  constructor
  · rintro ⟨v, hv, ht⟩
    rcases mem_snoc.mp hv with hv | rfl
    · exact ⟨v, hv, ht⟩
    · exact absurd ht (h t)
  · rintro ⟨v, hv, ht⟩
    exact ⟨v, mem_append_left _ hv, ht⟩

theorem times_act_self (h : timeOf w = some (k, t)) :
    times (written ++ [w]) k = insert t (times written k) := by
  ext u
  constructor
  · rintro ⟨v, hv, hu⟩
    rcases mem_snoc.mp hv with hv | rfl
    · exact Or.inr ⟨v, hv, hu⟩
    · exact Or.inl (Prod.mk.inj (some.inj (hu.symm.trans h))).2
  · rintro (rfl | ⟨v, hv, hu⟩)
    · exact ⟨w, mem_append_right _ mem_cons_self, h⟩
    · exact ⟨v, mem_append_left _ hv, hu⟩

theorem times_mono : times written k ⊆ times (written ++ [w]) k := by
  rintro t ⟨v, hv, ht⟩
  exact ⟨v, mem_append_left _ hv, ht⟩

end Times

variable [LinearOrder P] (stringify : R → Text) (parse : Text → Option R)

def Moves (doc : Doc P) : ProjectWrite R → Prop
  | .acted record place t =>
    ∀ u, get doc .acted (joined record place) = some (.number u) → u < t
  | .link a b t => get doc .links (pair a b) ≠ some (.number t)
  | .split place notRecord t => get doc .splits (joined place notRecord) ≠ some (.number t)
  | _ => True

/-- A time goes after an earlier one and before a later one in the order of stamps too, and an
anchor or an acted place is written for a record that exists. -/
structure InOrder (p : P) (docs : P → Doc P) (w : ProjectWrite R) : Prop where
  time : ∀ k t, timeOf w = some (k, t) → Moves (docs p) w →
    ∀ v u, Latest docs k v → v.value = .number u →
      (v.Before (stamped p (docs p) k.1 k.2 (.number t)) → u ≤ t) ∧
        ((stamped p (docs p) k.1 k.2 (.number t)).Before v → t ≤ u)
  record : ∀ r, recordOfWrite w = some r → ∃ v, Made docs v ∧ v.key = (.created, r)

def BatchInOrder (p : P) : State R P → List (ProjectWrite R) → Prop
  | _, [] => True
  | s, w :: rest => InOrder p s.docs w ∧ BatchInOrder p (s.act stringify p w) rest

def Ordered (s : State R P) : Event R P → Prop
  | .applied p writes => writes.forM check = .ok () → BatchInOrder stringify p s writes
  | _ => True

/-- The replica has heard of every write. -/
def Merged (s : State R P) (p : P) : Prop := ∀ q, ∀ w ∈ s.docs q, w ∈ s.docs p

/-- Everything written is read, and each time read is the latest one written. -/
structure ReadsAll (written : List (ProjectWrite R)) (i : GroupingIntents R) : Prop where
  record : ∀ r c ink, .create r c ink ∈ written → ∃ g ∈ i.records, g.id = r
  anchor : ∀ r a t, .anchor r a t ∈ written → ∃ g ∈ i.records, g.id = r ∧ a ∈ g.anchors
  acted : ∀ r a t, .acted r a t ∈ written → ∃ g ∈ i.records, g.id = r ∧ ∃ u, (a, u) ∈ g.places
  link : ∀ a b t, .link a b t ∈ written → ∃ l ∈ i.links, (l.a, l.b) = sorted a b
  split : ∀ a r t, .split a r t ∈ written → ∃ l ∈ i.splits, l.place = a ∧ l.notRecord = r
  dismissal : ∀ a b t, .dismiss a b t ∈ written → sorted a b ∈ i.dismissals
  actedTime : ∀ g ∈ i.records, ∀ a u, (a, u) ∈ g.places →
    IsGreatest {t | .acted g.id a t ∈ written} u
  linkTime : ∀ l ∈ i.links,
    IsGreatest {t | ∃ a b, .link a b t ∈ written ∧ sorted a b = (l.a, l.b)} l.time
  splitTime : ∀ l ∈ i.splits, IsGreatest {t | .split l.place l.notRecord t ∈ written} l.time

/-! ## The latest write of a key -/

variable {stringify parse} {docs : P → Doc P} {p q : P} {u v w : Write Key Value P} {k : Key}
  {t : ℚ} {doc : Doc P}

theorem exists_latest (h : Replicas docs) (hu : Made docs u) : ∃ v, Latest docs u.key v := by
  obtain ⟨l, hl⟩ := h.finite
  obtain ⟨v, hv⟩ := Write.exists_newest ((hl u).mp hu)
  obtain ⟨hmem, hkey⟩ := Write.newest_mem hv
  exact ⟨v, (hl v).mpr hmem, hkey, fun w hw => Write.newest_max hv ((hl w).mp hw)⟩

theorem Latest.unique (h : Replicas docs) (hu : Latest docs k u) (hv : Latest docs k v) :
    u = v := by
  by_cases hsame : u.lamport = v.lamport ∧ u.peer = v.peer
  · exact h.distinct u v hu.1 hv.1 hsame.1 hsame.2
  · rcases Write.before_or_before hsame with hb | hb
    · exact absurd hb (hu.2.2 v hv.1 hv.2.1)
    · exact absurd hb (hv.2.2 u hu.1 hu.2.1)

theorem latest_congr {docs' : P → Doc P} (h : ∀ u, u.key = k → (Made docs' u ↔ Made docs u)) :
    Latest docs' k v ↔ Latest docs k v := by
  constructor
  · rintro ⟨hv, hk, hmax⟩
    exact ⟨(h v hk).mp hv, hk, fun u hu huk => hmax u ((h u huk).mpr hu) huk⟩
  · rintro ⟨hv, hk, hmax⟩
    exact ⟨(h v hk).mpr hv, hk, fun u hu huk => hmax u ((h u huk).mp hu) huk⟩

theorem Latest.put_new (hv : Latest docs k v) (hkey : w.key = k) (hb : v.Before w) :
    Latest (update docs p (w :: docs p)) k w := by
  refine ⟨made_put.mpr (Or.inl rfl), hkey, ?_⟩
  intro u hu hk
  rcases made_put.mp hu with rfl | hu
  · exact Write.not_before_self
  · exact fun hafter => hv.2.2 u hu hk (hb.trans hafter)

theorem Latest.put_old (hv : Latest docs k v) (hb : w.Before v) :
    Latest (update docs p (w :: docs p)) k v := by
  refine ⟨made_put.mpr (Or.inr hv.1), hv.2.1, ?_⟩
  intro u hu hk
  rcases made_put.mp hu with rfl | hu
  · exact fun hafter => Write.not_before_self (hb.trans hafter)
  · exact hv.2.2 u hu hk

/-! ## What a timed write does to a replica -/

variable {d : Applied P} {w : ProjectWrite R}

theorem timeOf_cases (h : timeOf w = some (k, t)) :
    (∃ record place, w = .acted record place t ∧ k = (.acted, joined record place)) ∨
    (∃ a b, w = .link a b t ∧ k = (.links, pair a b)) ∨
    ∃ place record, w = .split place record t ∧ k = (.splits, joined place record) := by
  cases w with
  | acted record place t =>
    obtain ⟨rfl, rfl⟩ := Prod.mk.inj (some.inj h)
    exact .inl ⟨record, place, rfl, rfl⟩
  | link a b t =>
    obtain ⟨rfl, rfl⟩ := Prod.mk.inj (some.inj h)
    exact .inr (.inl ⟨a, b, rfl, rfl⟩)
  | split place record t =>
    obtain ⟨rfl, rfl⟩ := Prod.mk.inj (some.inj h)
    exact .inr (.inr ⟨place, record, rfl, rfl⟩)
  | _ => cases h

theorem timeOf_touches (h : timeOf w = some (k, t)) :
    touches w = [k] ∧ k.1.takesLater = true := by
  obtain ⟨_, _, rfl, rfl⟩ | ⟨_, _, rfl, rfl⟩ | ⟨_, _, rfl, rfl⟩ := timeOf_cases h
  all_goals exact ⟨rfl, rfl⟩

theorem timeOf_of_touches (hk : k ∈ touches w)
    (hlater : k.1.takesLater = true) : ∃ t, timeOf w = some (k, t) := by
  cases w with
  | acted _ _ t | link _ _ t | split _ _ t => exact ⟨t, by rw [mem_singleton.mp hk]; rfl⟩
  | create _ _ _ =>
    rcases mem_cons.mp hk with rfl | hk
    · cases hlater
    · obtain rfl := mem_singleton.mp hk
      cases hlater
  | _ =>
    obtain rfl := mem_singleton.mp hk
    cases hlater

theorem set_doc {m : MapName} {key : Text} {value : Value} (h : get d.doc m key ≠ some value) :
    (set p d m key value).doc = stamped p d.doc m key value :: d.doc := by
  rw [set, if_neg h]

theorem applyWrite_moves (h : timeOf w = some (k, t))
    (hmoves : Moves d.doc w) :
    (applyWrite stringify p d w).doc = stamped p d.doc k.1 k.2 (.number t) :: d.doc := by
  obtain ⟨record, place, rfl, rfl⟩ | ⟨a, b, rfl, rfl⟩ | ⟨place, record, rfl, rfl⟩ :=
    timeOf_cases h
  · have hne : get d.doc .acted (joined record place) ≠ some (.number t) :=
      fun hget => lt_irrefl _ (hmoves t hget)
    rw [applyWrite]
    split
    · exact set_doc hne
    · next before hbefore =>
      obtain ⟨v, hv, htime⟩ := bind_eq_some_iff.mp hbefore
      rw [if_pos (hmoves before (of_isTime htime ▸ hv))]
      exact set_doc hne
  · exact set_doc hmoves
  · exact set_doc hmoves

theorem exists_of_stays (h : timeOf w = some (k, t))
    (hmoves : ¬ Moves doc w) : ∃ u, get doc k.1 k.2 = some (.number u) ∧ t ≤ u := by
  obtain ⟨_, _, rfl, rfl⟩ | ⟨a, b, rfl, rfl⟩ | ⟨place, record, rfl, rfl⟩ := timeOf_cases h
  · obtain ⟨u, hu⟩ := not_forall.mp hmoves
    obtain ⟨hget, hlt⟩ := Classical.not_imp.mp hu
    exact ⟨u, hget, not_lt.mp hlt⟩
  · exact ⟨t, not_not.mp hmoves, le_refl t⟩
  · exact ⟨t, not_not.mp hmoves, le_refl t⟩

theorem applyWrite_stays (h : timeOf w = some (k, t))
    (hmoves : ¬ Moves d.doc w) : (applyWrite stringify p d w).doc = d.doc := by
  obtain ⟨_, _, rfl, rfl⟩ | ⟨a, b, rfl, rfl⟩ | ⟨place, record, rfl, rfl⟩ := timeOf_cases h
  · obtain ⟨u, hu⟩ := not_forall.mp hmoves
    obtain ⟨hget, hlt⟩ := Classical.not_imp.mp hu
    rw [applyWrite, hget]
    exact congrArg Applied.doc (if_neg hlt)
  · rw [applyWrite, set, if_pos (not_not.mp hmoves)]
  · rw [applyWrite, set, if_pos (not_not.mp hmoves)]

/-! ## What the written acts have left -/

structure Kept (s : State R P) : Prop where
  replicas : Replicas s.docs
  ids : ∀ w ∈ s.written, check w = .ok ()
  there : ∀ w ∈ s.written, ∀ k, (touches w).head? = some k → ∃ u, Made s.docs u ∧ u.key = k
  record : ∀ w ∈ s.written, ∀ r, recordOfWrite w = some r →
    ∃ u, Made s.docs u ∧ u.key = (.created, r)
  valued : ∀ v, Made s.docs v → v.key.1.takesLater = true →
    ∃ t, v.value = .number t ∧ t ∈ times s.written v.key
  latest : ∀ k v, k.1.takesLater = true → Latest s.docs k v →
    ∃ t, v.value = .number t ∧ IsGreatest (times s.written k) t

section Act

variable {s : State R P} {w : ProjectWrite R}

theorem made_act (hu : Made s.docs u) : Made (s.act stringify p w).docs u := by
  obtain ⟨q, hq⟩ := hu
  refine ⟨q, ?_⟩
  show u ∈ Function.update s.docs p _ q
  by_cases hqp : q = p
  · subst hqp
    rw [update_self]
    exact (applyWrite_puts (d := ⟨s.docs q, 0⟩) w).subset hq
  · rwa [update_of_ne hqp]

theorem made_act_other (hu : u.key ∉ touches w) :
    Made (s.act stringify p w).docs u ↔ Made s.docs u := by
  refine ⟨?_, made_act⟩
  rintro ⟨q, hq⟩
  refine ⟨q, ?_⟩
  change u ∈ Function.update s.docs p _ q at hq
  by_cases hqp : q = p
  · subst hqp
    rw [update_self] at hq
    exact ((applyWrite_puts (d := ⟨s.docs q, 0⟩) w).other hu).mp hq
  · rwa [update_of_ne hqp] at hq

theorem docs_stays (h : timeOf w = some (k, t)) (hmoves : ¬ Moves (s.docs p) w) :
    (s.act stringify p w).docs = s.docs := by
  show Function.update s.docs p _ = s.docs
  rw [applyWrite_stays (d := ⟨s.docs p, 0⟩) h hmoves, update_eq_self]

theorem docs_moves (h : timeOf w = some (k, t)) (hmoves : Moves (s.docs p) w) :
    (s.act stringify p w).docs =
      Function.update s.docs p (stamped p (s.docs p) k.1 k.2 (.number t) :: s.docs p) :=
  congrArg (Function.update s.docs p) (applyWrite_moves (d := ⟨s.docs p, 0⟩) h hmoves)

theorem Kept.times_empty (h : Kept s) (hnone : ∀ u, Made s.docs u → u.key ≠ k) :
    times s.written k = ∅ := by
  refine Set.eq_empty_iff_forall_notMem.mpr ?_
  rintro t ⟨w, hw, ht⟩
  obtain ⟨u, hu, hkey⟩ := h.there w hw k (by rw [(timeOf_touches ht).1]; rfl)
  exact hnone u hu hkey

/-- The times in the replicas are times of acts that were written. -/
def Valued (s : State R P) : Prop :=
  ∀ v, Made s.docs v → v.key.1.takesLater = true →
    ∃ t, v.value = .number t ∧ t ∈ times s.written v.key

theorem Valued.act (h : Valued s) : Valued (s.act stringify p w) := by
  intro v hv hlater
  have old (hv : Made s.docs v) :
      ∃ t, v.value = .number t ∧ t ∈ times (s.written ++ [w]) v.key := by
    obtain ⟨t, ht, hmem⟩ := h v hv hlater
    exact ⟨t, ht, times_mono hmem⟩
  by_cases hk : v.key ∈ touches w
  · obtain ⟨t, ht⟩ := timeOf_of_touches hk hlater
    by_cases hmoves : Moves (s.docs p) w
    · rw [docs_moves ht hmoves] at hv
      rcases made_put.mp hv with hnew | hv
      · have hmem : t ∈ times (s.written ++ [w]) v.key := by
          rw [times_act_self ht]
          exact Or.inl rfl
        exact ⟨t, congrArg Write.value hnew, hmem⟩
      · exact old hv
    · rw [docs_stays ht hmoves] at hv
      exact old hv
  · exact old ((made_act_other hk).mp hv)

theorem Valued.times_of_get (h : Valued s) (hlater : k.1.takesLater = true)
    (hget : get (s.docs p) k.1 k.2 = some (.number t)) : t ∈ times s.written k := by
  obtain ⟨v, hv, hvalue⟩ := map_eq_some_iff.mp hget
  obtain ⟨hmem, hkey⟩ := Write.newest_mem hv
  have hkey : v.key = k := hkey
  subst hkey
  obtain ⟨t', ht', hmem'⟩ := h v ⟨p, hmem⟩ hlater
  obtain rfl : t' = t := Value.number.inj (ht'.symm.trans hvalue)
  exact hmem'

theorem Kept.latest_put (h : Kept s) {w : Write Key Value P}
    (hw : w = stamped p (s.docs p) k.1 k.2 (.number t))
    (htime : ∀ v u, Latest s.docs k v → v.value = .number u →
      (v.Before w → u ≤ t) ∧ (w.Before v → t ≤ u))
    (hlater : k.1.takesLater = true) (hv : Latest (update s.docs p (w :: s.docs p)) k v) :
    ∃ u, v.value = .number u ∧ IsGreatest (insert t (times s.written k)) u := by
  have hvalue : w.value = .number t := by rw [hw]; rfl
  by_cases hsome : ∃ u, Made s.docs u ∧ u.key = k
  · obtain ⟨u, hu, rfl⟩ := hsome
    obtain ⟨v₀, hv₀⟩ := exists_latest h.replicas hu
    obtain ⟨t₀, hold, hgreatest⟩ := h.latest _ v₀ hlater hv₀
    obtain ⟨hlt, hgt⟩ := htime v₀ t₀ hv₀ hold
    have hreplicas : Replicas (update s.docs p (w :: s.docs p)) :=
      hw ▸ h.replicas.put u.key.1 u.key.2 fun _ => ⟨t, rfl⟩
    rcases Write.before_or_before (h.replicas.fresh (p := p) hv₀.1 u.key.1 u.key.2 (.number t))
      with hb | hb <;> rw [← hw] at hb
    · obtain rfl := hv.unique hreplicas (hv₀.put_new (by rw [hw]; rfl) hb)
      have hnew := hgreatest.insert t
      rw [max_eq_left (hlt hb)] at hnew
      exact ⟨t, hvalue, hnew⟩
    · obtain rfl := hv.unique hreplicas (hv₀.put_old hb)
      exact ⟨t₀, hold, max_eq_right (hgt hb) ▸ hgreatest.insert t⟩
  · have hnone : ∀ u, Made s.docs u → u.key ≠ k := fun u hu hkey => hsome ⟨u, hu, hkey⟩
    rw [h.times_empty hnone]
    rcases made_put.mp hv.1 with rfl | hold
    · exact ⟨t, hvalue, by simp⟩
    · exact absurd hv.2.1 (hnone v hold)

theorem Kept.latest_act (h : Kept s) (hok : InOrder p s.docs w) (hlater : k.1.takesLater = true)
    (hv : Latest (s.act stringify p w).docs k v) :
    ∃ t, v.value = .number t ∧ IsGreatest (times (s.written ++ [w]) k) t := by
  by_cases hk : k ∈ touches w
  · obtain ⟨t, ht⟩ := timeOf_of_touches hk hlater
    rw [times_act_self ht]
    by_cases hmoves : Moves (s.docs p) w
    · rw [docs_moves ht hmoves] at hv
      exact h.latest_put rfl (hok.time k t ht hmoves) hlater hv
    · rw [docs_stays ht hmoves] at hv
      obtain ⟨u, hu, hgreatest⟩ := h.latest k v hlater hv
      obtain ⟨t', hget, hle⟩ := exists_of_stays ht hmoves
      have hle' : t' ≤ u := hgreatest.2 (Valued.times_of_get h.valued hlater hget)
      exact ⟨u, hu, max_eq_right (hle.trans hle') ▸ hgreatest.insert t⟩
  · have hsame : ∀ t, timeOf w ≠ some (k, t) := fun t ht =>
      hk (by rw [(timeOf_touches ht).1]; exact mem_cons_self)
    rw [times_act hsame]
    exact h.latest k v hlater
      ((latest_congr fun u hu => made_act_other (hu ▸ hk)).mp hv)

theorem Kept.act (h : Kept s) (hcheck : check w = .ok ()) (hok : InOrder p s.docs w) :
    Kept (s.act stringify p w) where
  replicas := h.replicas.puts (applyWrite_puts (d := ⟨s.docs p, 0⟩) w)
  ids v hv := by
    rcases mem_snoc.mp hv with hv | hv
    · exact h.ids v hv
    · exact hv.symm ▸ hcheck
  there v hv k hk := by
    rcases mem_snoc.mp hv with hv | rfl
    · obtain ⟨u, hu, hkey⟩ := h.there v hv k hk
      exact ⟨u, made_act hu, hkey⟩
    · have hhas : ∃ u ∈ (applyWrite stringify p ⟨s.docs p, 0⟩ v).doc, u.key = k := applyWrite_has hk
      obtain ⟨u, hu, hkey⟩ := hhas
      exact ⟨u, ⟨p, by show u ∈ Function.update s.docs p _ p; rwa [update_self]⟩, hkey⟩
  record v hv r hr := by
    have hmade : ∃ u, Made s.docs u ∧ u.key = (.created, r) := by
      rcases mem_snoc.mp hv with hv | rfl
      · exact h.record v hv r hr
      · exact hok.record r hr
    obtain ⟨u, hu, hkey⟩ := hmade
    exact ⟨u, made_act hu, hkey⟩
  valued := Valued.act h.valued
  latest k v hlater hv := h.latest_act hok hlater hv

theorem forM_ok {v : ProjectWrite R} {writes : List (ProjectWrite R)}
    (h : (v :: writes).forM check = .ok ()) :
    check v = .ok () ∧ writes.forM check = .ok () := by
  have h : (check v >>= fun _ => writes.forM check) = .ok () := h
  cases hv : check v with
  | error text =>
    rw [hv] at h
    cases h
  | ok _ =>
    rw [hv] at h
    exact ⟨rfl, h⟩

theorem Kept.acts {writes : List (ProjectWrite R)} (h : Kept s)
    (hcheck : writes.forM check = .ok ()) (hok : BatchInOrder stringify p s writes) :
    Kept (writes.foldl (State.act stringify p) s) := by
  induction writes generalizing s with
  | nil => exact h
  | cons w rest ih =>
    obtain ⟨hw, hrest⟩ := forM_ok hcheck
    exact ih (h.act hw hok.1) hrest hok.2

end Act

omit [LinearOrder P] in
theorem Valued.congr {s s' : State R P} (h : Valued s) (hwritten : s'.written = s.written)
    (hmade : ∀ u, u.key.1 ≠ .canvases → (Made s'.docs u ↔ Made s.docs u)) : Valued s' := by
  intro v hv hlater
  rw [hwritten]
  refine h v ((hmade v ?_).mp hv) hlater
  rintro hcanvas
  rw [hcanvas] at hlater
  cases hlater

theorem Kept.congr {s s' : State R P} (h : Kept s) (hreplicas : Replicas s'.docs)
    (hwritten : s'.written = s.written)
    (hmade : ∀ u, u.key.1 ≠ .canvases → (Made s'.docs u ↔ Made s.docs u)) : Kept s' where
  replicas := hreplicas
  ids := by rw [hwritten]; exact h.ids
  there := by
    rw [hwritten]
    intro w hw k hk
    obtain ⟨u, hu, rfl⟩ := h.there w hw k hk
    refine ⟨u, (hmade u ?_).mpr hu, rfl⟩
    intro hcanvas
    have hmem : u.key ∈ touches w := List.mem_of_head? hk
    cases w <;> simp [touches, Prod.ext_iff, hcanvas] at hmem
  record := by
    rw [hwritten]
    intro w hw r hr
    obtain ⟨u, hu, hkey⟩ := h.record w hw r hr
    refine ⟨u, (hmade u ?_).mpr hu, hkey⟩
    rw [hkey]
    exact MapName.noConfusion
  valued := Valued.congr h.valued hwritten hmade
  latest := by
    rw [hwritten]
    intro k v hlater hv
    refine h.latest k v hlater ((latest_congr fun u hu => hmade u ?_).mp hv)
    rintro hcanvas
    rw [← hu, hcanvas] at hlater
    cases hlater

/-- An event applies a batch, or moves canvases alone. -/
theorem next_cases {s s' : State R P} {e : Event R P}
    (hs : (machine R P stringify).next s e = some s') :
    (∃ p writes, e = .applied p writes ∧ writes.forM check = .ok () ∧
      s' = writes.foldl (State.act stringify p) s) ∨
    s'.written = s.written ∧
      ∀ u, u.key.1 ≠ .canvases → (Made s'.docs u ↔ Made s.docs u) := by
  cases e with
  | applied p writes =>
    simp only [machine, State.next] at hs
    split at hs
    · obtain rfl := some.inj hs
      exact .inr ⟨rfl, fun _ _ => Iff.rfl⟩
    · next _ hcheck =>
      obtain rfl := some.inj hs
      exact .inl ⟨p, writes, rfl, hcheck, rfl⟩
  | canvas p key value =>
    obtain rfl := some.inj hs
    refine .inr ⟨rfl, fun u hu => made_put.trans (or_iff_right ?_)⟩
    rintro rfl
    exact hu rfl
  | received p q chosen =>
    simp only [machine, State.next] at hs
    split at hs
    · next hchosen =>
      obtain rfl := some.inj hs
      exact .inr ⟨rfl, fun u _ => made_received hchosen⟩
    · cases hs

theorem Kept.next {s s' : State R P} {e : Event R P} (h : Kept s) (hok : Ordered stringify s e)
    (hs : (machine R P stringify).next s e = some s') : Kept s' := by
  have hreplicas := h.replicas.next hs
  rcases next_cases hs with ⟨p, writes, rfl, hcheck, rfl⟩ | ⟨hwritten, hmade⟩
  · exact h.acts hcheck (hok hcheck)
  · exact h.congr hreplicas hwritten hmade

theorem Valued.next {s s' : State R P} {e : Event R P} (h : Valued s)
    (hs : (machine R P stringify).next s e = some s') : Valued s' := by
  rcases next_cases hs with ⟨p, writes, -, -, rfl⟩ | ⟨hwritten, hmade⟩
  · clear hs
    induction writes generalizing s with
    | nil => exact h
    | cons w rest ih => exact ih h.act
  · exact h.congr hwritten hmade

theorem kept_start : Kept (machine R P stringify).start where
  replicas := replicas_start
  ids _ hw := absurd hw not_mem_nil
  there _ hw := absurd hw not_mem_nil
  record _ hw := absurd hw not_mem_nil
  valued _ hv := absurd hv.choose_spec not_mem_nil
  latest _ _ _ hv := absurd hv.1.choose_spec not_mem_nil

end VibeField.Fieldd.ProjectDoc
