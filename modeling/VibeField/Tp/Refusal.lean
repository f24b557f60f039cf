import VibeField.Tp.Touch

/-!
# Refused control attaches

A control attach is refused at six points, and one of them comes after the
activation it replaces was invalidated.  It is atomic on refusal everywhere but
there: where the replacement's id is taken by another key, the replaced
activation has left the table and the effects of its invalidation are dropped.
-/

namespace VibeField.Tp

def Effect.isRefusal : Effect → Bool
  | .send _ (.attachRefused _) => true
  | _ => false

def refused (es : List Effect) : Bool := es.any Effect.isRefusal

@[simp]
theorem refused_nil : refused [] = false := rfl

@[simp]
theorem refused_append (es fs : List Effect) : refused (es ++ fs) = (refused es || refused fs) :=
  List.any_append

@[simp]
theorem refused_cons (e : Effect) (es : List Effect) :
    refused (e :: es) = (e.isRefusal || refused es) := rfl

@[simp]
theorem isRefusal_statusSent (a : Activation) : a.statusSent.isRefusal = false := rfl

@[simp]
theorem isRefusal_attachesView (a : Activation) (readWrite : Bool) :
    (a.attachesView readWrite).isRefusal = false := rfl

@[simp]
theorem isRefusal_detachesView (a : Activation) (v : ViewId) :
    (a.detachesView v).isRefusal = false := rfl

@[simp]
theorem isRefusal_attached (a : Activation) (leg : LegRef) :
    (Effect.send leg a.controlLegAttached).isRefusal = false := rfl

@[simp]
theorem isRefusal_stopPump (x : ActivationId) : (Effect.stopPump x).isRefusal = false := rfl

theorem refused_eq_false {es : List Effect} (h : ∀ e ∈ es, e.isRefusal = false) :
    refused es = false :=
  List.any_eq_false.mpr fun e he => by rw [h e he]; exact Bool.false_ne_true

namespace ActivationTable

variable {t : ActivationTable} {m : Moment} {i : AttachControlInput} {x : ActivationId}
  {a : Activation}

/-! ## Only a refusal refuses -/

@[simp]
theorem refused_seatAnnouncements (t : ActivationTable) (s : SessionId) :
    refused (t.seatAnnouncements s) = false := by
  rw [seatAnnouncements]
  split
  · rfl
  · refine refused_eq_false fun e he => ?_
    obtain ⟨a, -, rfl⟩ := List.mem_map.mp he
    rfl

@[simp]
theorem refused_seatStateTo (t : ActivationTable) (s : SessionId) (leg : LegRef) :
    refused (t.seatStateTo s leg) = false := by
  rw [seatStateTo]
  split
  · cases t.seatState s <;> rfl
  · rfl

@[simp]
theorem refused_release (t : ActivationTable) (s : SessionId) (y : ActivationId) :
    refused (t.releaseGeometryIfHeld s y).2 = false := by
  rw [releaseGeometryIfHeld]
  split
  · exact refused_seatAnnouncements _ _
  · rfl

theorem refused_revocation (a : Activation) (m : Moment) (r : Reason) :
    refused (a.revocationEffects m r) = false := by
  cases hc : m.outClosed a.control.connectionId <;> cases hv : a.view <;>
    cases hp : a.pumpRunning <;> simp [Activation.revocationEffects, hc, hv, hp]

theorem refused_invalidate (t : ActivationTable) (m : Moment) (y : ActivationId) (r : Reason) :
    refused (t.invalidate m y r).2 = false := by
  rw [invalidate]
  split
  · rfl
  · simp [refused_revocation]

/-! ## The ways a control attach ends -/

variable {existing : ActivationId}

theorem attachControl_of_replaces (hr : i.replaces t existing = true) :
    t.attachControl m i = (t.invalidate m existing .replaced).1.openControl m i
      (t.invalidate m existing .replaced).2 := by
  obtain ⟨hclient, hknown, hkey, hne, hreplaces⟩ := replaces_iff.mp hr
  simp only [attachControl, hclient, hknown, hkey, hreplaces, ne_eq, not_true, if_false,
    Bool.not_true, Bool.false_eq_true, hne, if_true]

theorem reattachControl_cases (t : ActivationTable) (m : Moment) (i : AttachControlInput)
    (a : Activation) :
    (∃ code retryable, t.reattachControl m i a = (t, [i.refused code retryable])) ∨
    refused (t.reattachControl m i a).2 = false := by
  rw [reattachControl]
  split
  · exact .inl ⟨_, _, rfl⟩
  · refine .inr ?_
    simp only
    split <;> split <;> split <;> simp

theorem openControl_cases (t : ActivationTable) (m : Moment) (i : AttachControlInput)
    (before : List Effect) (hbefore : refused before = false) :
    ((t.byId.len ≥ t.maxActivations ∨ (t.get i.activationId).isSome = true) ∧
      (t.openControl m i before).1 = t) ∨
    (refused (t.openControl m i before).2 = false ∧ before ⊆ (t.openControl m i before).2) := by
  rw [openControl]
  split
  · next hfull => exact .inl ⟨.inl hfull, rfl⟩
  · split
    · next htaken => exact .inl ⟨.inr htaken, rfl⟩
    · refine .inr ⟨?_, fun e he => List.mem_append_left _ (List.mem_append_left _ he)⟩
      simp only
      split <;> simp [hbefore]

/-! ## Atomicity -/

/-- A refused attach leaves the table as it was, and no activation leaves the
table in an attach without everything its invalidation asks of the door. -/
structure AtomicOnRefusal (t : ActivationTable) (m : Moment) (i : AttachControlInput) : Prop where
  unchanged : refused (t.attachControl m i).2 = true → (t.attachControl m i).1 = t
  told : ∀ x a, t.get x = some a → (t.attachControl m i).1.get x = none →
    (t.invalidate m x .replaced).2 ⊆ (t.attachControl m i).2

/-- The attach replaces the activation of its key under an id that another key
has taken. -/
def LosesReplacement (t : ActivationTable) (i : AttachControlInput) : Prop :=
  ∃ existing, i.replaces t existing = true ∧ (t.get i.activationId).isSome = true

theorem accepts_replacement (h : t.WellIndexed)
    (hr : i.replaces t existing = true) (hfree : ¬ (t.get i.activationId).isSome = true) :
    refused (t.attachControl m i).2 = false ∧
      (t.invalidate m existing .replaced).2 ⊆ (t.attachControl m i).2 := by
  have hne := (replaces_iff.mp hr).ne
  obtain ⟨a, ha, -⟩ := h.keyed (replaces_iff.mp hr).key
  rw [attachControl_of_replaces hr]
  rcases openControl_cases (t.invalidate m existing .replaced).1 m i
    (t.invalidate m existing .replaced).2 (refused_invalidate t m existing .replaced) with
    ⟨hfull | htaken, -⟩ | haccepted
  · exact absurd hfull (room_after_invalidate h m .replaced ha)
  · rw [get_invalidate, if_neg (Ne.symm hne)] at htaken
    exact absurd htaken hfree
  · exact haccepted

theorem loses_replacement (h : t.WellIndexed)
    (hr : i.replaces t existing = true) (htaken : (t.get i.activationId).isSome = true) :
    refused (t.attachControl m i).2 = true ∧ (t.attachControl m i).1.get existing = none := by
  have hne := (replaces_iff.mp hr).ne
  obtain ⟨a, ha, -⟩ := h.keyed (replaces_iff.mp hr).key
  have hstill : ((t.invalidate m existing .replaced).1.get i.activationId).isSome = true := by
    rw [get_invalidate, if_neg (Ne.symm hne)]
    exact htaken
  rw [attachControl_of_replaces hr, openControl,
    if_neg (room_after_invalidate h m .replaced ha), if_pos hstill]
  exact ⟨rfl, by rw [get_invalidate, if_pos rfl]⟩

theorem unchanged_of_refused (h : t.WellIndexed) (hkeep : ¬ t.LosesReplacement i)
    (hrefused : refused (t.attachControl m i).2 = true) : (t.attachControl m i).1 = t := by
  have hend := attachControl_end t h m i
  generalize hr : t.attachControl m i = r at hend hrefused
  cases hend with
  | refused code retryable => rfl
  | own a ha _ _ _ =>
    rcases reattachControl_cases t m i a with ⟨code, retryable, hre⟩ | hre
    · rw [hre]
    · rw [hre] at hrefused
      cases hrefused
  | free _ _ _ =>
    rcases openControl_cases t m i [] rfl with ⟨-, hsame⟩ | ⟨hre, -⟩
    · exact hsame
    · rw [hre] at hrefused
      cases hrefused
  | replaced existing hrep =>
    have hfree : ¬ (t.get i.activationId).isSome = true := fun htaken =>
      hkeep ⟨existing, hrep, htaken⟩
    rw [← hr, (accepts_replacement h hrep hfree).1] at hrefused
    cases hrefused

theorem told_of_removed (h : t.WellIndexed) (hkeep : ¬ t.LosesReplacement i)
    (ha : t.get x = some a) (hnone : (t.attachControl m i).1.get x = none) :
    (t.invalidate m x .replaced).2 ⊆ (t.attachControl m i).2 := by
  have htouch := touch_apply h m (.attachControl i) x
  rw [ha, show (t.apply m (.attachControl i)).1.get x = none from hnone] at htouch
  generalize driven x (t.apply m (.attachControl i)).2 = es at htouch
  cases htouch with
  | removed _ _ hremoves =>
    have hr : i.replaces t x = true := by rw [← h.ids ha]; exact hremoves
    exact (accepts_replacement h hr fun htaken => hkeep ⟨x, hr, htaken⟩).2
  | lost _ _ hreplaces htaken => exact absurd ⟨x, hreplaces, htaken⟩ hkeep

/-- A control attach is atomic on refusal exactly when it does not replace an
activation under a taken id. -/
theorem atomicOnRefusal_iff {cellBootId : String} {t : ActivationTable}
    (h : (machine cellBootId).Reachable t) (m : Moment) (i : AttachControlInput) :
    t.AtomicOnRefusal m i ↔ ¬ t.LosesReplacement i := by
  have hwell := WellIndexed.reachable h
  constructor
  · rintro hatomic ⟨existing, hr, htaken⟩
    obtain ⟨hrefused, hgone⟩ := loses_replacement (m := m) hwell hr htaken
    obtain ⟨a, ha, -⟩ := hwell.keyed (replaces_iff.mp hr).key
    rw [hatomic.unchanged hrefused, ha] at hgone
    cases hgone
  · intro hkeep
    exact
      { unchanged := unchanged_of_refused hwell hkeep
        told := fun x a ha hnone => told_of_removed hwell hkeep ha hnone }

/-- A replacement under a fresh id, in the table one attach reached. -/
theorem atomicOnRefusal_fresh_id :
    ((new "boot").attachControl Sample.moment (Sample.attach 1 "s1" "a" none)).1.AtomicOnRefusal
      Sample.moment (Sample.attach 1 "s1" "b" (some "a")) :=
  have hreach : (machine "boot").Reachable
      ((new "boot").attachControl Sample.moment (Sample.attach 1 "s1" "a" none)).1 :=
    Machine.Reachable.next (e := (Sample.moment, .attachControl (Sample.attach 1 "s1" "a" none)))
      .start rfl
  (atomicOnRefusal_iff hreach _ _).mpr fun ⟨_, _, htaken⟩ => absurd htaken (by decide)

/-- Two activations of one client, and an attach that names the first as replaced
under the id of the second: the attach is refused and the first is gone. -/
theorem refused_replacement_removes :
    ∃ t, (machine "boot").Reachable t ∧
      ∃ m i, refused (t.attachControl m i).2 = true ∧ (t.get "a").isSome = true ∧
        (t.attachControl m i).1.get "a" = none ∧ ¬ t.AtomicOnRefusal m i := by
  obtain ⟨t, ht, hp⟩ := Machine.exists_of_run (M := machine "boot")
    (fun t =>
      let r := t.attachControl Sample.moment (Sample.attach 1 "s1" "b" (some "a"))
      refused r.2 && (t.get "a").isSome && (r.1.get "a").isNone)
    [(Sample.moment, .attachControl (Sample.attach 1 "s1" "a" none)),
      (Sample.moment, .attachControl (Sample.attach 1 "s2" "b" none))] (by decide)
  simp only [Bool.and_eq_true, Option.isNone_iff_eq_none] at hp
  obtain ⟨⟨hrefused, hsome⟩, hgone⟩ := hp
  refine ⟨t, ht, _, _, hrefused, hsome, hgone, fun hatomic => ?_⟩
  rw [hatomic.unchanged hrefused] at hgone
  rw [hgone] at hsome
  cases hsome

end ActivationTable
end VibeField.Tp
