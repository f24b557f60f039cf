import VibeField.Fieldd.ProjectRead

/-!
# The replicas of the project records

What holds of the replicas whoever writes and whoever imports: no two writes to a map share a
stamp, a desktop knows its own writes, and the maps of times hold times.
-/

namespace VibeField.Fieldd.ProjectDoc

open List Option Function

variable {R P : Type}

/-- Some desktop has heard of the write. -/
def Made (docs : P → Doc P) (w : Write Key Value P) : Prop := ∃ q, w ∈ docs q

/-- The write of a key with the latest stamp on any desktop. -/
def Latest [LinearOrder P] (docs : P → Doc P) (k : Key) (v : Write Key Value P) : Prop :=
  Made docs v ∧ v.key = k ∧ ∀ u, Made docs u → u.key = k → ¬ v.Before u

def MapName.holdsTimes : MapName → Bool
  | .created | .anchors | .acted | .links | .splits | .dismissals => true
  | _ => false

structure Replicas (docs : P → Doc P) : Prop where
  finite : ∃ l : Doc P, ∀ w, Made docs w ↔ w ∈ l
  own : ∀ w, Made docs w → w ∈ docs w.peer
  distinct : ∀ a b, Made docs a → Made docs b → a.lamport = b.lamport → a.peer = b.peer → a = b
  times : ∀ w, Made docs w → w.key.1.holdsTimes = true → ∃ t, w.value = .number t

variable {docs : P → Doc P} {p q : P} {u v w : Write Key Value P} {k : Key}
  {chosen doc doc' : Doc P}

theorem Replicas.distinct_doc (h : Replicas docs) (p : P) : Write.Distinct (docs p) :=
  fun a ha b hb => h.distinct a b ⟨p, ha⟩ ⟨p, hb⟩

theorem Replicas.fresh (h : Replicas docs) (hu : Made docs u) (m : MapName) (key : Text)
    (value : Value) :
    ¬ (u.lamport = (stamped p (docs p) m key value).lamport ∧
      u.peer = (stamped p (docs p) m key value).peer) := by
  rintro ⟨hlamport, hpeer⟩
  have hpeer : u.peer = p := hpeer
  have hlt := Write.lt_nextLamport (hpeer ▸ h.own u hu)
  exact Nat.lt_irrefl _ (hlamport ▸ hlt)

/-! ## Putting values -/

/-- A replica after a desktop put values under keys that meet `Q`. -/
inductive Puts (p : P) (Q : Key → Prop) (doc : Doc P) : Doc P → Prop
  | refl : Puts p Q doc doc
  | put {doc' : Doc P} (m : MapName) (key : Text) {value : Value} (hQ : Q (m, key))
      (hvalue : m.holdsTimes = true → ∃ t, value = .number t) :
      Puts p Q doc doc' → Puts p Q doc (stamped p doc' m key value :: doc')

variable {Q : Key → Prop}

theorem Puts.subset (h : Puts p Q doc doc') (hw : w ∈ doc) : w ∈ doc' := by
  induction h with
  | refl => exact hw
  | put _ _ _ _ _ ih => exact mem_cons_of_mem _ ih

theorem Puts.other (h : Puts p Q doc doc') (hk : ¬ Q w.key) : w ∈ doc' ↔ w ∈ doc := by
  induction h with
  | refl => rfl
  | put m key hQ _ _ ih =>
    rw [mem_cons, ih]
    refine ⟨fun hw => hw.resolve_left ?_, Or.inr⟩
    rintro rfl
    exact hk hQ

theorem Puts.trans {doc'' : Doc P} (h : Puts p Q doc doc') (h' : Puts p Q doc' doc'') :
    Puts p Q doc doc'' := by
  induction h' with
  | refl => exact h
  | put m key hQ hvalue _ ih => exact .put m key hQ hvalue ih

/-! ## One write, one import -/

variable [LinearOrder P]

theorem made_put : Made (Function.update docs p (w :: docs p)) u ↔ u = w ∨ Made docs u := by
  constructor
  · rintro ⟨q, hq⟩
    by_cases hqp : q = p
    · subst hqp
      rw [update_self] at hq
      rcases mem_cons.mp hq with rfl | hq
      · exact Or.inl rfl
      · exact Or.inr ⟨q, hq⟩
    · rw [update_of_ne hqp] at hq
      exact Or.inr ⟨q, hq⟩
  · rintro (rfl | ⟨q, hq⟩)
    · exact ⟨p, by rw [update_self]; exact mem_cons_self⟩
    · refine ⟨q, ?_⟩
      by_cases hqp : q = p
      · subst hqp
        rw [update_self]
        exact mem_cons_of_mem _ hq
      · rw [update_of_ne hqp]
        exact hq

theorem made_received (hchosen : ∀ w ∈ chosen, w ∈ docs q) :
    Made (Function.update docs p (chosen ++ docs p)) u ↔ Made docs u := by
  constructor
  · rintro ⟨q', hq⟩
    by_cases hqp : q' = p
    · subst hqp
      rw [update_self] at hq
      rcases mem_append.mp hq with hq | hq
      · exact ⟨q, hchosen _ hq⟩
      · exact ⟨q', hq⟩
    · rw [update_of_ne hqp] at hq
      exact ⟨q', hq⟩
  · rintro ⟨q', hq⟩
    refine ⟨q', ?_⟩
    by_cases hqp : q' = p
    · subst hqp
      rw [update_self]
      exact mem_append_right _ hq
    · rw [update_of_ne hqp]
      exact hq

theorem Replicas.put (h : Replicas docs) (m : MapName) (key : Text) {value : Value}
    (hvalue : m.holdsTimes = true → ∃ t, value = .number t) :
    Replicas (Function.update docs p (stamped p (docs p) m key value :: docs p)) where
  finite := by
    obtain ⟨l, hl⟩ := h.finite
    refine ⟨stamped p (docs p) m key value :: l, fun w => ?_⟩
    rw [made_put, mem_cons, hl]
  own := by
    intro w hw
    rcases made_put.mp hw with rfl | hw
    · show _ ∈ Function.update docs p _ p
      rw [update_self]
      exact mem_cons_self
    · have hown := h.own w hw
      by_cases hp : w.peer = p
      · rw [hp, update_self]
        exact mem_cons_of_mem _ (hp ▸ hown)
      · rw [update_of_ne hp]
        exact hown
  distinct := by
    intro a b ha hb hlamport hpeer
    rcases made_put.mp ha with rfl | ha
    · rcases made_put.mp hb with rfl | hb
      · rfl
      · exact absurd ⟨hlamport.symm, hpeer.symm⟩ (h.fresh hb m key value)
    · rcases made_put.mp hb with rfl | hb
      · exact absurd ⟨hlamport, hpeer⟩ (h.fresh ha m key value)
      · exact h.distinct a b ha hb hlamport hpeer
  times := by
    intro w hw
    rcases made_put.mp hw with rfl | hw
    · exact hvalue
    · exact h.times w hw

theorem Replicas.received (h : Replicas docs) (hchosen : ∀ w ∈ chosen, w ∈ docs q) :
    Replicas (Function.update docs p (chosen ++ docs p)) where
  finite := by
    obtain ⟨l, hl⟩ := h.finite
    exact ⟨l, fun w => (made_received hchosen).trans (hl w)⟩
  own := by
    intro w hw
    have hown := h.own w ((made_received hchosen).mp hw)
    by_cases hp : w.peer = p
    · rw [hp, update_self]
      exact mem_append_right _ (hp ▸ hown)
    · rw [update_of_ne hp]
      exact hown
  distinct a b ha hb :=
    h.distinct a b ((made_received hchosen).mp ha) ((made_received hchosen).mp hb)
  times w hw := h.times w ((made_received hchosen).mp hw)

/-! ## What a project write puts -/

theorem Replicas.puts (h : Replicas docs) (hputs : Puts p Q (docs p) doc') :
    Replicas (Function.update docs p doc') := by
  induction hputs with
  | refl => rwa [update_eq_self]
  | put m key _ hvalue _ ih =>
    have hput := ih.put (p := p) m key hvalue
    rwa [update_self, update_idem] at hput

def touches : ProjectWrite R → List Key
  | .create record _ _ => [(.created, record), (.inks, record)]
  | .anchor record anchor _ => [(.anchors, joined record anchor)]
  | .acted record place _ => [(.acted, joined record place)]
  | .name record _ => [(.names, record)]
  | .pinned record _ => [(.pinned, record)]
  | .hidden record _ => [(.hidden, record)]
  | .recipe record _ => [(.recipes, record)]
  | .link a b _ => [(.links, pair a b)]
  | .split place notRecord _ => [(.splits, joined place notRecord)]
  | .dismiss a b _ => [(.dismissals, pair a b)]

variable {stringify : R → Text} {d : Applied P} {m : MapName} {key : Text} {value : Value}

theorem set_puts (hQ : Q (m, key)) (hvalue : m.holdsTimes = true → ∃ t, value = .number t) :
    Puts p Q d.doc (set p d m key value).doc := by
  unfold set
  split
  · exact .refl
  · exact .put m key hQ hvalue .refl

theorem set_has : ∃ u ∈ (set p d m key value).doc, u.key = (m, key) := by
  unfold set
  split
  · next hget =>
    obtain ⟨u, hu, -⟩ := map_eq_some_iff.mp hget
    exact ⟨u, Write.newest_mem hu⟩
  · exact ⟨_, mem_cons_self, rfl⟩

theorem once_puts {t : ℚ} (hQ : Q (m, key)) : Puts p Q d.doc (once p d m key t).doc := by
  unfold once
  split
  · exact set_puts hQ fun _ => ⟨t, rfl⟩
  · exact .refl

theorem has_of_get (h : get d.doc m key = some value) : ∃ u ∈ d.doc, u.key = (m, key) := by
  obtain ⟨u, hu, -⟩ := map_eq_some_iff.mp h
  exact ⟨u, Write.newest_mem hu⟩

theorem once_has {t : ℚ} : ∃ u ∈ (once p d m key t).doc, u.key = (m, key) := by
  unfold once
  split
  · exact set_has
  · next hget =>
    obtain ⟨v, hv⟩ := ne_none_iff_exists'.mp hget
    exact has_of_get hv

theorem applyWrite_puts (w : ProjectWrite R) :
    Puts p (fun k => k ∈ touches w) d.doc (applyWrite stringify p d w).doc := by
  cases w with
  | create record createdAt ink =>
    rw [applyWrite]
    split
    · exact .refl
    · have hcreated : Puts p (fun k => k ∈ touches (R := R) (.create record createdAt ink)) d.doc
          (set p d .created record (.number createdAt)).doc :=
        set_puts mem_cons_self fun _ => ⟨createdAt, rfl⟩
      cases ink with
      | none => exact hcreated
      | some ink =>
        exact hcreated.trans
          (set_puts (mem_cons_of_mem _ mem_cons_self) fun h => absurd h (by decide))
  | anchor record anchor t => exact once_puts mem_cons_self
  | acted record place t =>
    rw [applyWrite]
    split
    · exact set_puts mem_cons_self fun _ => ⟨t, rfl⟩
    · split
      · exact set_puts mem_cons_self fun _ => ⟨t, rfl⟩
      · exact .refl
  | name record name => exact set_puts mem_cons_self fun h => absurd h (by decide)
  | pinned record b => exact set_puts mem_cons_self fun h => absurd h (by decide)
  | hidden record b => exact set_puts mem_cons_self fun h => absurd h (by decide)
  | recipe record r => exact set_puts mem_cons_self fun h => absurd h (by decide)
  | link a b t => exact set_puts mem_cons_self fun _ => ⟨t, rfl⟩
  | split place notRecord t => exact set_puts mem_cons_self fun _ => ⟨t, rfl⟩
  | dismiss a b t => exact once_puts mem_cons_self

theorem applyWrite_has {w : ProjectWrite R} (hk : (touches w).head? = some k) :
    ∃ u ∈ (applyWrite stringify p d w).doc, u.key = k := by
  cases w with
  | create record createdAt ink =>
    obtain rfl := some.inj hk
    rw [applyWrite]
    split
    · next hget =>
      obtain ⟨v, hv⟩ := ne_none_iff_exists'.mp hget
      exact has_of_get hv
    · have hhas : ∃ u ∈ (set p d .created record (.number createdAt)).doc,
          u.key = (.created, record) := set_has
      obtain ⟨u, hu, hkey⟩ := hhas
      cases ink with
      | none => exact ⟨u, hu, hkey⟩
      | some ink =>
        exact ⟨u, (set_puts (Q := fun _ => True) trivial fun h => absurd h (by decide)).subset hu,
          hkey⟩
  | anchor record anchor t =>
    obtain rfl := some.inj hk
    exact once_has
  | acted record place t =>
    obtain rfl := some.inj hk
    rw [applyWrite]
    split
    · exact set_has
    · next before hbefore =>
      split
      · exact set_has
      · obtain ⟨v, hv, -⟩ := bind_eq_some_iff.mp hbefore
        exact has_of_get hv
  | name record name =>
    obtain rfl := some.inj hk
    exact set_has
  | pinned record b =>
    obtain rfl := some.inj hk
    exact set_has
  | hidden record b =>
    obtain rfl := some.inj hk
    exact set_has
  | recipe record r =>
    obtain rfl := some.inj hk
    exact set_has
  | link a b t =>
    obtain rfl := some.inj hk
    exact set_has
  | split place notRecord t =>
    obtain rfl := some.inj hk
    exact set_has
  | dismiss a b t =>
    obtain rfl := some.inj hk
    exact once_has

/-! ## Runs -/

section Doc

variable {e : Applied P} (h : d.doc = e.doc)

include h

end Doc

theorem Replicas.acts {s : State R P} (h : Replicas s.docs) (writes : List (ProjectWrite R)) :
    Replicas (writes.foldl (State.act stringify p) s).docs := by
  induction writes generalizing s with
  | nil => exact h
  | cons w rest ih =>
    have hone : Replicas (s.act stringify p w).docs :=
      h.puts (applyWrite_puts (d := ⟨s.docs p, 0⟩) w)
    exact ih hone

theorem Replicas.next {s s' : State R P} {e : Event R P} (h : Replicas s.docs)
    (hs : (machine R P stringify).next s e = some s') : Replicas s'.docs := by
  cases e with
  | applied p writes =>
    simp only [machine, State.next] at hs
    split at hs
    · obtain rfl := some.inj hs
      exact h
    · obtain rfl := some.inj hs
      exact h.acts writes
  | canvas p key value =>
    obtain rfl := some.inj hs
    exact h.put .canvases key fun h => absurd h (by decide)
  | received p q chosen =>
    simp only [machine, State.next] at hs
    split at hs
    · next hchosen =>
      obtain rfl := some.inj hs
      exact h.received hchosen
    · cases hs

theorem replicas_start : Replicas (machine R P stringify).start.docs where
  finite := ⟨[], fun _ => ⟨fun h => h.choose_spec, fun h => absurd h not_mem_nil⟩⟩
  own _ h := absurd h.choose_spec not_mem_nil
  distinct _ _ h := absurd h.choose_spec not_mem_nil
  times _ h := absurd h.choose_spec not_mem_nil

theorem replicas_reachable {s : State R P} (h : (machine R P stringify).Reachable s) :
    Replicas s.docs :=
  h.invariant (P := fun s : State R P => Replicas s.docs) replicas_start
    fun _ _ _ hr hs => hr.next hs

end VibeField.Fieldd.ProjectDoc
