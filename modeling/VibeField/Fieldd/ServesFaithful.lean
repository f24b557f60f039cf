import VibeField.Fieldd.Serves

/-!
# An active serve is the serve that was asked for

What holds of each id by itself, and of a pass in the midst of its walk.  Every request and every
turn of a pass changes what is known and what stands under one id only.
-/

namespace VibeField.Fieldd.Serves

open List Option Dict

variable {s s' : State} {id x : Name} {spec spec' : ServeSpec} {st : ServeState} {v : Standing}
  {p : Placing} {contract : Contract}

/-! ## One id -/

/-- The serve is desired, or a pass has it still before it. -/
def Wanted (s : State) (id : Name) (spec : ServeSpec) : Prop :=
  s.desired.lookup id = some spec ∨ spec ∈ s.work.ahead ∧ serveKey spec = id

structure Recorded (v : Standing) (spec : ServeSpec) : Prop where
  stands : Stands v spec
  replaced : v.ours = false → floorDoor spec = true ∧ sameFloorDoorServe v.listed spec = true

/-- The serve was added by this client with that very spec. -/
def Standing.Of (v : Standing) (spec : ServeSpec) : Prop := v.spec = spec ∧ v.ours = true

theorem Standing.Of.recorded (h : v.Of spec) : Recorded v spec where
  stands := .inl h.1
  replaced hno := by
    rw [h.2] at hno
    cases hno

structure Good (s : State) (id : Name) : Prop where
  stood : ∀ v, s.node.lookup id = some v → serveKey v.spec = id
  recorded : artifact id = false → ∀ st v, s.states.lookup id = some st → st.status = .active →
    s.node.lookup id = some v → Recorded v st.spec
  tracked : ∀ v, s.node.lookup id = some v → v.ours = true → (s.states.lookup id).isSome
  asked : artifact id = false → ∀ spec, Wanted s id spec → floorDoor spec = false →
    id ∈ s.placed → ∀ v, s.node.lookup id = some v → v.Of spec

theorem Good.none (h : s.node.lookup id = none) : Good s id := by
  refine ⟨fun v hv => ?_, fun _ st v _ _ hv => ?_, fun v hv _ => ?_, fun _ _ _ _ _ v hv => ?_⟩ <;>
    · rw [h] at hv
      cases hv

theorem Good.congr (h : Good s id) (hstates : s'.states.lookup id = s.states.lookup id)
    (hnode : s'.node.lookup id = s.node.lookup id) (hplaced : id ∈ s'.placed → id ∈ s.placed)
    (hwanted : ∀ spec, Wanted s' id spec → Wanted s id spec) : Good s' id where
  stood := by
    rw [hnode]
    exact h.stood
  recorded := by
    rw [hstates, hnode]
    exact h.recorded
  tracked := by
    rw [hstates, hnode]
    exact h.tracked
  asked ha spec hw hdoor hp := by
    rw [hnode]
    exact h.asked ha spec (hwanted spec hw) hdoor (hplaced hp)

/-! ## The walk of a pass -/

/-- The list that a pass read fits the node still, in its life and in the next. -/
structure Told (s : State) (boot : Nat) (live : Dict Name ListedServe) : Prop where
  past : boot ≤ s.boots
  listed : boot = s.boots → ∀ id l v, live.lookup id = some l → s.node.lookup id = some v →
    v.listed = l
  fresh : boot ≠ s.boots → ∀ id, s.node.lookup id = none

structure Walked (s : State) (p : Placing) (ahead : List ServeSpec) : Prop where
  past : p.boot ≤ s.boots
  nodup : ((p.walked ++ ahead).map serveKey).Nodup
  listed : p.boot = s.boots → ∀ spec ∈ p.rest, artifact (serveKey spec) = false →
    ∀ l, p.live.lookup (serveKey spec) = some l →
      ∃ v, s.node.lookup (serveKey spec) = some v ∧ v.listed = l
  fresh : p.boot ≠ s.boots → ∀ spec ∈ ahead, s.node.lookup (serveKey spec) = none
  walked : p.boot = s.boots → ∀ spec ∈ p.walked, artifact (serveKey spec) = false → ∀ st,
    s.states.lookup (serveKey spec) = some st → st.status = .active →
      st.spec = spec ∧ (s.node.lookup (serveKey spec)).isSome

def Working (s : State) : Work → Prop
  | .listing => True
  | .strays boot live _ | .removing boot live _ _ => Told s boot live
  | .placing p => Walked s p p.rest
  | .replacing p spec | .adding p spec => Walked s p (spec :: p.rest)

variable {a : Answer} {ahead : List ServeSpec} {boot : Nat} {live : Dict Name ListedServe}
  {w : Work}

theorem Working.congr (h : Working s w) (hnode : s'.node = s.node) (hstates : s'.states = s.states)
    (hboots : s'.boots = s.boots) : Working s' w := by
  cases w with
  | listing => trivial
  | strays boot live left | removing boot live x left =>
    refine ⟨?_, ?_, ?_⟩ <;> rw [hboots]
    · exact h.past
    · rw [hnode]
      exact h.listed
    · rw [hnode]
      exact h.fresh
  | placing p | replacing p spec | adding p spec =>
    refine ⟨?_, h.nodup, ?_, ?_, ?_⟩ <;> rw [hboots]
    · exact h.past
    · rw [hnode]
      exact h.listed
    · rw [hnode]
      exact h.fresh
    · rw [hnode, hstates]
      exact h.walked

structure Inv (s : State) : Prop where
  good : ∀ id, Good s id
  keyed : ∀ id spec, s.desired.lookup id = some spec → serveKey spec = id
  agree : ∀ spec ∈ s.work.ahead, ∀ spec', s.desired.lookup (serveKey spec) = some spec' →
    artifact (serveKey spec) = false → floorDoor spec' = false → spec = spec'
  idle : s.work = .listing ∨ ∃ queue, s.queue = .reconcile :: queue
  working : Working s s.work

/-- Nothing changes but under `x`. -/
structure Off (s s' : State) (x : Name) : Prop where
  boots : s'.boots = s.boots
  states : ∀ id, id ≠ x → s'.states.lookup id = s.states.lookup id
  node : ∀ id, id ≠ x → s'.node.lookup id = s.node.lookup id
  placed : ∀ id, id ≠ x → (id ∈ s'.placed ↔ id ∈ s.placed)

theorem Off.good (h : Off s s' x) (hne : id ≠ x) (hgood : Good s id)
    (hwanted : ∀ spec, Wanted s' id spec → Wanted s id spec) : Good s' id :=
  hgood.congr (h.states id hne) (h.node id hne) (h.placed id hne).mp hwanted

theorem Off.drop (s : State) (x : Name) (done : Bool) : Off s (s.drop x done) x := by
  rw [State.drop]
  split
  · refine ⟨rfl, fun _ _ => rfl, fun id hne => ?_, fun _ _ => Iff.rfl⟩
    show (s.node.erase x).lookup id = _
    rw [lookup_erase, if_neg hne]
  · exact ⟨rfl, fun _ _ => rfl, fun _ _ => rfl, fun _ _ => Iff.rfl⟩

theorem Off.forget (s : State) (x : Name) : Off s (s.forget x) x where
  boots := rfl
  states id hne := by
    show (s.states.erase x).lookup id = _
    rw [lookup_erase, if_neg hne]
  node _ _ := rfl
  placed id hne := by
    show id ∈ s.placed.filter _ ↔ _
    rw [mem_filter, decide_eq_true_eq]
    exact and_iff_left hne

theorem Off.trans {s'' : State} (h : Off s s' x) (h' : Off s' s'' x) : Off s s'' x where
  boots := h'.boots.trans h.boots
  states id hne := (h'.states id hne).trans (h.states id hne)
  node id hne := (h'.node id hne).trans (h.node id hne)
  placed id hne := (h'.placed id hne).trans (h.placed id hne)

theorem Off.setState (s : State) (st : ServeState) : Off s (s.setState st) (serveKey st.spec) where
  boots := rfl
  states id hne := by
    show (s.states.insert _ _).lookup id = _
    rw [lookup_insert, if_neg hne]
  node _ _ := rfl
  placed _ _ := Iff.rfl

theorem Off.place (s : State) (x : Name) : Off s (s.place x) x where
  boots := rfl
  states _ _ := rfl
  node _ _ := rfl
  placed id hne := by
    show id ∈ s.placed.insert x ↔ _
    rw [mem_insert_iff]
    exact or_iff_right hne

theorem Off.take (s : State) (spec : ServeSpec) (listenPort : Nat) (url : String) (done : Bool) :
    Off s (s.take spec listenPort url done) (serveKey spec) := by
  rw [State.take]
  split
  · refine ⟨rfl, fun _ _ => rfl, fun id hne => ?_, fun _ _ => Iff.rfl⟩
    show (s.node.insert _ _).lookup id = _
    rw [lookup_insert, if_neg hne]
  · exact ⟨rfl, fun _ _ => rfl, fun _ _ => rfl, fun _ _ => Iff.rfl⟩

theorem Off.work (s : State) (w : Work) (x : Name) : Off s { s with work := w } x :=
  ⟨rfl, fun _ _ => rfl, fun _ _ => rfl, fun _ _ => Iff.rfl⟩

theorem Walked.key_ne (h : Walked s p (spec :: ahead)) (hmem : spec' ∈ p.walked ∨ spec' ∈ ahead) :
    serveKey spec' ≠ serveKey spec := by
  have hn := h.nodup
  rw [map_append, map_cons, nodup_append] at hn
  intro he
  rcases hmem with hmem | hmem
  · exact hn.2.2 _ (List.mem_map_of_mem hmem) _ mem_cons_self he
  · exact (nodup_cons.mp hn.2.1).1 (he ▸ List.mem_map_of_mem hmem)

/-! ## What a turn of a pass keeps -/

theorem Inv.walkOn (h : Inv s) (hahead : s.work.ahead = spec :: p.rest)
    (hwalked : Walked s p (spec :: p.rest)) (hoff : Off s s' (serveKey spec))
    (hdesired : s'.desired = s.desired) (hqueue : s'.queue = s.queue)
    (hwork : s'.work = .placing { p with walked := p.walked ++ [spec] })
    (hgood : (∀ spec', Wanted s' (serveKey spec) spec' → s.desired.lookup (serveKey spec) =
      some spec') → Good s' (serveKey spec))
    (hdone : p.boot = s.boots → artifact (serveKey spec) = false → ∀ st,
      s'.states.lookup (serveKey spec) = some st → st.status = .active →
        st.spec = spec ∧ (s'.node.lookup (serveKey spec)).isSome) : Inv s' := by
  have hahead' : s'.work.ahead = p.rest := by rw [hwork]; rfl
  have hmem : ∀ spec', spec' ∈ s'.work.ahead → spec' ∈ s.work.ahead := by
    intro spec' hin
    rw [hahead'] at hin
    rw [hahead]
    exact mem_cons_of_mem _ hin
  refine ⟨fun id => ?_, ?_, fun a ha spec' hd => ?_, .inr ?_, ?_⟩
  · by_cases hid : id = serveKey spec
    · subst hid
      refine hgood fun spec' hw => ?_
      rcases hw with hw | ⟨hin, hkey⟩
      · rwa [hdesired] at hw
      · rw [hahead'] at hin
        exact absurd hkey (hwalked.key_ne (.inr hin))
    · refine hoff.good hid (h.good id) fun spec' hw => ?_
      rcases hw with hw | ⟨hin, hkey⟩
      · exact .inl (hdesired ▸ hw)
      · exact .inr ⟨hmem _ hin, hkey⟩
  · rw [hdesired]
    exact h.keyed
  · rw [hdesired] at hd
    exact h.agree a (hmem a ha) spec' hd
  · rw [hqueue]
    refine h.idle.resolve_left fun hlisting => ?_
    rw [hlisting] at hahead
    cases hahead
  · rw [hwork]
    refine ⟨?_, ?_, fun hboot a ha hart l hl => ?_, fun hboot a ha => ?_,
      fun hboot a ha hart st hst hactive => ?_⟩
    · rw [hoff.boots]
      exact hwalked.past
    · show ((p.walked ++ [spec] ++ p.rest).map serveKey).Nodup
      rw [append_assoc]
      exact hwalked.nodup
    · rw [hoff.boots] at hboot
      rw [hoff.node _ (hwalked.key_ne (.inr ha))]
      exact hwalked.listed hboot a ha hart l hl
    · rw [hoff.boots] at hboot
      rw [hoff.node _ (hwalked.key_ne (.inr ha))]
      exact hwalked.fresh hboot a (mem_cons_of_mem _ ha)
    · rw [hoff.boots] at hboot
      rcases mem_snoc.mp ha with ha | ha
      · rw [hoff.states _ (hwalked.key_ne (.inl ha))] at hst
        rw [hoff.node _ (hwalked.key_ne (.inl ha))]
        exact hwalked.walked hboot a ha hart st hst hactive
      · cases ha
        exact hdone hboot hart st hst hactive

theorem Inv.turn (h : Inv s) (hahead : s.work.ahead = ahead) (hoff : Off s s' x)
    (hdesired : s'.desired = s.desired) (hqueue : s'.queue = s.queue) (hwork : s'.work = w)
    (hsame : w.ahead = ahead) (hx : Good s' x) (hne : ahead ≠ []) (hworking : Working s' w) :
    Inv s' := by
  have hwanted : ∀ id spec, Wanted s' id spec → Wanted s id spec := by
    rintro id spec (hw | ⟨hin, hkey⟩)
    · exact .inl (hdesired ▸ hw)
    · rw [hwork, hsame, ← hahead] at hin
      exact .inr ⟨hin, hkey⟩
  refine ⟨fun id => ?_, ?_, fun a ha spec' hd => ?_, .inr ?_, ?_⟩
  · by_cases hid : id = x
    · subst hid
      exact hx
    · exact hoff.good hid (h.good id) (hwanted id)
  · rw [hdesired]
    exact h.keyed
  · rw [hdesired] at hd
    rw [hwork, hsame, ← hahead] at ha
    exact h.agree a ha spec' hd
  · rw [hqueue]
    refine h.idle.resolve_left fun hlisting => hne ?_
    rw [← hahead, hlisting]
    rfl
  · rw [hwork]
    exact hworking

/-! ## A pass comes to a serve -/

theorem Good.failed (h : Good s x) (hst : s'.states.lookup x = some st) (hno : st.status ≠ .active)
    (hnode : s'.node.lookup x = s.node.lookup x) (hplaced : x ∈ s'.placed → x ∈ s.placed)
    (hwanted : ∀ spec, Wanted s' x spec → Wanted s x spec) : Good s' x where
  stood := by
    rw [hnode]
    exact h.stood
  recorded _ st' v hst' hactive _ := by
    rw [hst] at hst'
    cases hst'
    exact absurd hactive hno
  tracked _ _ _ := by
    rw [hst]
    rfl
  asked ha spec hw hdoor hp := by
    rw [hnode]
    exact h.asked ha spec (hwanted spec hw) hdoor (hplaced hp)

theorem lookup_setState (s : State) (st : ServeState) :
    (s.setState st).states.lookup (serveKey st.spec) = some st := by
  show (s.states.insert _ _).lookup _ = _
  rw [lookup_insert, if_pos rfl]

theorem lookup_drop (s : State) (x : Name) (done : Bool) :
    (s.drop x done).node.lookup x = if done then none else s.node.lookup x := by
  cases done with
  | false => rfl
  | true =>
    show (s.node.erase x).lookup x = _
    rw [lookup_erase, if_pos rfl]
    rfl

theorem Walked.work (h : Walked s p ahead) :
    Walked { s with work := w } p ahead := { h with }

theorem Inv.fail (h : Inv s) (hahead : s.work.ahead = spec :: p.rest)
    (hwalked : Walked s p (spec :: p.rest)) (message : String) :
    Inv ((s.setState (.failed spec message)).walk p spec) := by
  refine h.walkOn (p := p) hahead hwalked ((Off.setState s (.failed spec message)).trans
    (Off.work _ _ _)) rfl rfl rfl (fun hwanted => ?_) fun _ _ st hst hactive => ?_
  · exact (h.good (serveKey spec)).failed (lookup_setState s (.failed spec message)) (by rintro ⟨⟩)
      rfl id fun spec' hw => .inl (hwanted spec' hw)
  · cases (lookup_setState s (.failed spec message)).symm.trans hst
    cases hactive

theorem Inv.add (h : Inv s) (hahead : s.work.ahead = spec :: p.rest)
    (hwalked : Walked s p (spec :: p.rest)) : Inv (s.add contract p spec) := by
  unfold State.add contractValidSpec
  cases contract spec with
  | none =>
    refine h.turn hahead (Off.work s _ (serveKey spec)) rfl rfl rfl rfl ?_ (cons_ne_nil _ _)
      hwalked.work
    refine (h.good _).congr rfl rfl id fun spec' hw => hw.imp id fun ⟨hin, hkey⟩ => ⟨?_, hkey⟩
    rw [hahead]
    exact hin
  | some why => exact h.fail hahead hwalked _

theorem Inv.adopt (h : Inv s) (hahead : s.work.ahead = spec :: p.rest)
    (hwalked : Walked s p (spec :: p.rest)) {url : Option String}
    (hoff : Off s s' (serveKey spec)) (hdesired : s'.desired = s.desired)
    (hqueue : s'.queue = s.queue) (hnode : s'.node = s.node)
    (hwork : s'.work = .placing { p with walked := p.walked ++ [spec] })
    (hstates : s'.states.lookup (serveKey spec) = some (.active spec url))
    (hrecorded : artifact (serveKey spec) = false → ∀ v,
      s.node.lookup (serveKey spec) = some v → Recorded v spec)
    (hasked : artifact (serveKey spec) = false → ∀ spec',
      s.desired.lookup (serveKey spec) = some spec' → floorDoor spec' = false →
        serveKey spec ∈ s'.placed → ∀ v, s.node.lookup (serveKey spec) = some v → v.Of spec')
    (hstands : p.boot = s.boots → artifact (serveKey spec) = false →
      (s.node.lookup (serveKey spec)).isSome) : Inv s' := by
  refine h.walkOn hahead hwalked hoff hdesired hqueue hwork (fun hwanted => ?_)
    fun hboot ha st hst _ => ?_
  · refine ⟨?_, fun ha st v hst _ hv => ?_, fun v _ _ => ?_, fun ha spec' hw hdoor hp => ?_⟩
    · rw [hnode]
      exact (h.good _).stood
    · cases hstates.symm.trans hst
      rw [hnode] at hv
      exact hrecorded ha v hv
    · rw [hstates]
      rfl
    · rw [hnode]
      exact hasked ha spec' (hwanted spec' hw) hdoor hp
  · cases hstates.symm.trans hst
    refine ⟨rfl, ?_⟩
    rw [hnode]
    exact hstands hboot ha

theorem Inv.visit (h : Inv s) {rest : List ServeSpec} (hwork : s.work = .placing p)
    (hrest : p.rest = spec :: rest) : Inv (s.visit contract { p with rest } spec) := by
  have hahead : s.work.ahead = spec :: rest := by
    rw [hwork]
    exact hrest
  have hw : Walked s p (spec :: rest) := by
    have hworking := h.working
    rw [hwork] at hworking
    rw [← hrest]
    exact hworking
  have hwalked : Walked s { p with rest } (spec :: rest) :=
    ⟨hw.past, hw.nodup, fun hboot a ha => hw.listed hboot a (by
      rw [hrest]
      exact mem_cons_of_mem _ ha), hw.fresh, hw.walked⟩
  have hlisted : ∀ {l}, p.live.lookup (serveKey spec) = some l → p.boot = s.boots →
      artifact (serveKey spec) = false →
        ∃ v, s.node.lookup (serveKey spec) = some v ∧ v.listed = l := fun hl hboot ha =>
    hw.listed hboot spec (hrest ▸ mem_cons_self) ha _ hl
  have hstands : ∀ {l}, p.live.lookup (serveKey spec) = some l → p.boot = s.boots →
      artifact (serveKey spec) = false → (s.node.lookup (serveKey spec)).isSome := by
    intro l hl hboot ha
    obtain ⟨v, hv, -⟩ := hlisted hl hboot ha
    rw [hv]
    rfl
  unfold State.visit
  split
  · exact h.add hahead hwalked
  · rename_i existing hl
    split
    · -- a freeway door that the node lists as it is declared
      rename_i hdoor
      rw [Bool.and_eq_true] at hdoor
      refine h.adopt hahead hwalked
        (((Off.place s (serveKey spec)).trans (Off.setState _ _)).trans (Off.work _ _ _))
        rfl rfl rfl rfl (lookup_setState (s.place (serveKey spec)) (.active spec existing.url))
        (fun ha v hv => ?_) (fun ha spec' hd hno => ?_) (hstands hl)
      · by_cases hboot : p.boot = s.boots
        · obtain ⟨v', hv', he⟩ := hlisted hl hboot ha
          cases hv'.symm.trans hv
          rw [← he] at hdoor
          exact ⟨.inr hdoor, fun _ => hdoor⟩
        · rw [hw.fresh hboot spec mem_cons_self] at hv
          cases hv
      · have he := h.agree spec (hahead ▸ mem_cons_self) spec' hd ha hno
        rw [← he, hdoor.1] at hno
        cases hno
    · split
      · -- what this client placed
        rename_i _ hours
        rw [Bool.and_eq_true, Bool.not_eq_true', Bool.or_eq_true, contains_iff_mem] at hours
        refine h.adopt hahead hwalked
          ((Off.setState s (.active spec existing.url)).trans (Off.work _ _ _)) rfl rfl rfl rfl
          (lookup_setState s (.active spec existing.url))
          (fun ha v hv => ?_) (fun ha spec' hd hno hp => ?_) (hstands hl)
        · have hp : serveKey spec ∈ s.placed := hours.2.resolve_right fun hart => by
            rw [ha] at hart
            cases hart
          exact ((h.good _).asked ha spec (.inr ⟨hahead ▸ mem_cons_self, rfl⟩) hours.1 hp v
            hv).recorded
        · exact (h.good _).asked ha spec' (.inl hd) hno hp
      · refine h.turn hahead (Off.work s _ (serveKey spec)) rfl rfl rfl rfl ?_
          (cons_ne_nil _ _) hwalked.work
        refine (h.good _).congr rfl rfl id fun spec' hw => hw.imp id fun ⟨hin, hkey⟩ => ⟨?_, hkey⟩
        rw [hahead]
        exact hin

/-! ## A request is answered -/

theorem Walked.off (h : Walked s p (spec :: ahead)) (hoff : Off s s' (serveKey spec))
    (hrest : ∀ a ∈ p.rest, a ∈ ahead)
    (hfresh : s.node.lookup (serveKey spec) = none → s'.node.lookup (serveKey spec) = none) :
    Walked s' p (spec :: ahead) where
  past := by
    rw [hoff.boots]
    exact h.past
  nodup := h.nodup
  listed hboot a ha hart l hl := by
    rw [hoff.boots] at hboot
    rw [hoff.node _ (h.key_ne (.inr (hrest a ha)))]
    exact h.listed hboot a ha hart l hl
  fresh hboot a ha := by
    rw [hoff.boots] at hboot
    rcases mem_cons.mp ha with rfl | ha
    · exact hfresh (h.fresh hboot a mem_cons_self)
    · rw [hoff.node _ (h.key_ne (.inr ha))]
      exact h.fresh hboot a (mem_cons_of_mem _ ha)
  walked hboot a ha hart st hst hactive := by
    rw [hoff.boots] at hboot
    rw [hoff.states _ (h.key_ne (.inl ha))] at hst
    rw [hoff.node _ (h.key_ne (.inl ha))]
    exact h.walked hboot a ha hart st hst hactive

theorem fresh_drop {done : Bool} (h : s.node.lookup x = none) :
    (s.drop x done).node.lookup x = none := by
  rw [lookup_drop, h]
  exact ite_self _

theorem Good.drop (h : Good s x) (done : Bool) : Good (s.drop x done) x := by
  cases done with
  | true => exact .none (lookup_drop s x true)
  | false => exact h

theorem Inv.dropped (h : Inv s) (hwork : s.work = .replacing p spec) (done : Bool) :
    Inv (s.drop (serveKey spec) done) ∧
      Walked (s.drop (serveKey spec) done) p (spec :: p.rest) := by
  have hwalked : Walked s p (spec :: p.rest) := by
    have hworking := h.working
    rwa [hwork] at hworking
  have hoff := Off.drop s (serveKey spec) done
  have hw' := hwalked.off hoff (fun _ ha => ha) fresh_drop
  have hrest : (s.drop (serveKey spec) done).desired = s.desired ∧
      (s.drop (serveKey spec) done).queue = s.queue ∧
      (s.drop (serveKey spec) done).work = s.work := by
    cases done <;> exact ⟨rfl, rfl, rfl⟩
  refine ⟨?_, hw'⟩
  refine h.turn (w := .replacing p spec) (by rw [hwork]) hoff hrest.1 hrest.2.1
    (hrest.2.2.trans hwork) rfl ((h.good _).drop done) (cons_ne_nil _ _) hw'

theorem ahead_drop (s : State) (x : Name) (done : Bool) : (s.drop x done).work = s.work := by
  cases done <;> rfl

theorem lookup_take (s : State) (spec : ServeSpec) (listenPort : Nat) (url : String) :
    (s.take spec listenPort url true).node.lookup (serveKey spec) = some
      { spec, listenPort := spec.listenPort.getD listenPort, url, ours := true } := by
  show (s.node.insert _ _).lookup _ = _
  rw [lookup_insert, if_pos rfl]

theorem Inv.added (h : Inv s) (hwork : s.work = .adding p spec) (listenPort : Nat) (url : String) :
    Inv ((((s.take spec listenPort url true).place (serveKey spec)).setState
      (.active spec (some url))).walk p spec) := by
  have hwalked : Walked s p (spec :: p.rest) := by
    have hworking := h.working
    rwa [hwork] at hworking
  have hahead : s.work.ahead = spec :: p.rest := by
    rw [hwork]
    rfl
  have hnode := lookup_take s spec listenPort url
  have hstate := lookup_setState ((s.take spec listenPort url true).place (serveKey spec))
    (.active spec (some url))
  refine h.walkOn hahead hwalked ((((Off.take s spec listenPort url true).trans
    (Off.place _ _)).trans (Off.setState _ (.active spec (some url)))).trans (Off.work _ _ _))
    rfl rfl rfl (fun hwanted => ?_) fun _ _ st hst _ => ?_
  · refine ⟨fun v hv => ?_, fun _ st v hst _ hv => ?_, fun v _ _ => ?_,
      fun ha spec' hw hdoor _ v hv => ?_⟩
    · cases hnode.symm.trans hv
      rfl
    · cases hnode.symm.trans hv
      cases hstate.symm.trans hst
      exact Standing.Of.recorded ⟨rfl, rfl⟩
    · exact isSome_iff_exists.mpr ⟨_, hstate⟩
    · cases hnode.symm.trans hv
      exact ⟨h.agree spec (hahead ▸ mem_cons_self) spec' (hwanted spec' hw) ha hdoor, rfl⟩
  · cases hstate.symm.trans hst
    exact ⟨rfl, isSome_iff_exists.mpr ⟨_, hnode⟩⟩

theorem Inv.notAdded (h : Inv s) (hwork : s.work = .adding p spec) (message : String)
    (done : Bool) :
    Inv (((s.take spec 0 "" done).setState (.failed spec message)).walk p spec) := by
  have hwalked : Walked s p (spec :: p.rest) := by
    have hworking := h.working
    rwa [hwork] at hworking
  have hahead : s.work.ahead = spec :: p.rest := by
    rw [hwork]
    rfl
  cases done with
  | false => exact h.fail hahead hwalked message
  | true =>
    have hnode := lookup_take s spec 0 ""
    have hstate := lookup_setState (s.take spec 0 "" true) (.failed spec message)
    refine h.walkOn hahead hwalked (((Off.take s spec 0 "" true).trans
      (Off.setState _ (.failed spec message))).trans (Off.work _ _ _)) rfl rfl rfl
      (fun hwanted => ?_) fun _ _ st hst hactive => ?_
    · refine ⟨fun v hv => ?_, fun _ st v hst hactive _ => ?_, fun v _ _ => ?_,
        fun ha spec' hw hdoor _ v hv => ?_⟩
      · cases hnode.symm.trans hv
        rfl
      · cases hstate.symm.trans hst
        cases hactive
      · exact isSome_iff_exists.mpr ⟨_, hstate⟩
      · cases hnode.symm.trans hv
        exact ⟨h.agree spec (hahead ▸ mem_cons_self) spec' (hwanted spec' hw) ha hdoor, rfl⟩
    · cases hstate.symm.trans hst
      cases hactive

/-! ## The rest of a pass, and the removals between the passes -/

theorem Wanted.quiet (hw : Wanted s' id spec) (hahead : s'.work.ahead = []) (hdesired : ∀ id spec,
    s'.desired.lookup id = some spec → s.desired.lookup id = some spec) : Wanted s id spec := by
  rcases hw with hw | ⟨hin, -⟩
  · exact .inl (hdesired id spec hw)
  · rw [hahead] at hin
    cases hin

theorem Inv.quiet (h : Inv s) (hoff : Off s s' x) (hx : Good s' x)
    (hdesired : ∀ id spec, s'.desired.lookup id = some spec → s.desired.lookup id = some spec)
    (hahead : s'.work.ahead = [])
    (hidle : s'.work = .listing ∨ ∃ queue, s'.queue = .reconcile :: queue)
    (hworking : Working s' s'.work) : Inv s' where
  good id := by
    by_cases hid : id = x
    · subst hid
      exact hx
    · exact hoff.good hid (h.good id) fun _ hw => hw.quiet hahead hdesired
  keyed id spec hd := h.keyed id spec (hdesired id spec hd)
  agree a ha := by
    rw [hahead] at ha
    cases ha
  idle := hidle
  working := hworking

theorem Told.off {live live' : Dict Name ListedServe} (h : Told s boot live) (hoff : Off s s' x)
    (hlive : ∀ id l, live'.lookup id = some l → live.lookup id = some l)
    (hx : s'.node.lookup x = none ∨ s'.node.lookup x = s.node.lookup x) : Told s' boot live' where
  past := by
    rw [hoff.boots]
    exact h.past
  listed hboot id l v hl hv := by
    rw [hoff.boots] at hboot
    refine h.listed hboot id l v (hlive id l hl) ?_
    by_cases hid : id = x
    · subst hid
      rcases hx with hx | hx
      · rw [hx] at hv
        cases hv
      · rwa [hx] at hv
    · rwa [hoff.node id hid] at hv
  fresh hboot id := by
    rw [hoff.boots] at hboot
    by_cases hid : id = x
    · subst hid
      rcases hx with hx | hx
      · exact hx
      · rw [hx]
        exact h.fresh hboot id
    · rw [hoff.node id hid]
      exact h.fresh hboot id

theorem told_listed (h : ∀ id v, s.node.lookup id = some v → serveKey v.spec = id) :
    Told s s.boots s.listed where
  past := Nat.le_refl _
  listed _ id l v hl hv := by
    obtain ⟨hkey, hmem⟩ := lookup_ofList hl
    obtain ⟨v', hv', rfl⟩ := List.mem_map.mp hmem
    obtain ⟨id', hid'⟩ := mem_values.mp hv'
    have hkey' : serveKey v'.spec = id := hkey
    rw [h id' v' hid'] at hkey'
    subst hkey'
    exact congrArg Standing.listed (some.inj (hv.symm.trans hid'))
  fresh hboot := absurd rfl hboot

theorem Inv.list (h : Inv s) (hqueue : ∃ queue, s.queue = .reconcile :: queue) :
    Inv { s with work := .strays s.boots s.listed s.listed.keys } :=
  h.quiet (Off.work s _ []) ((h.good []).congr rfl rfl id fun _ hw =>
    hw.quiet rfl fun _ _ hd => hd) (fun _ _ hd => hd) rfl (.inr hqueue) (by
      obtain ⟨hpast, hlisted, hfresh⟩ := told_listed fun id => (h.good id).stood
      exact ⟨hpast, hlisted, hfresh⟩)

theorem Inv.finished (h : Inv s) : Inv s.finished :=
  h.quiet (x := []) ⟨rfl, fun _ _ => rfl, fun _ _ => rfl, fun _ _ => Iff.rfl⟩
    ((h.good []).congr rfl rfl id fun _ hw => hw.quiet rfl fun _ _ hd => hd)
    (fun _ _ hd => hd) rfl (.inl rfl) trivial

theorem lookup_unavailable (specs : List ServeSpec) (states : Dict Name ServeState) :
    (∀ id, (states.lookup id).isSome →
      ((specs.foldl (fun states spec =>
        match (states.lookup (serveKey spec)).map ServeState.status with
        | some .active => states
        | _ => states.insert (serveKey spec) (.pending spec)) states).lookup id).isSome) ∧
    ∀ id st, (specs.foldl (fun states spec =>
        match (states.lookup (serveKey spec)).map ServeState.status with
        | some .active => states
        | _ => states.insert (serveKey spec) (.pending spec)) states).lookup id = some st →
      st.status = .active → states.lookup id = some st := by
  induction specs generalizing states with
  | nil => exact ⟨fun _ h => h, fun _ _ h _ => h⟩
  | cons spec specs ih =>
    rw [foldl_cons]
    split
    · exact ih _
    · refine ⟨fun id hsome => (ih _).1 id ?_, fun id st hst hactive => ?_⟩
      · rw [lookup_insert]
        split
        · rfl
        · exact hsome
      · have hst' := (ih _).2 id st hst hactive
        rw [lookup_insert] at hst'
        split at hst'
        · cases hst'
          cases hactive
        · exact hst'

theorem Inv.unavailable (h : Inv s) : Inv s.unavailable.finished where
  good id := by
    have hlookup := lookup_unavailable s.desired.values s.states
    refine ⟨(h.good id).stood, fun ha st v hst hactive hv => ?_, fun v hv hours => ?_,
      fun ha spec hw hdoor hp v hv => ?_⟩
    · exact (h.good id).recorded ha st v (hlookup.2 id st hst hactive) hactive hv
    · exact hlookup.1 id ((h.good id).tracked v hv hours)
    · exact (h.good id).asked ha spec (hw.quiet rfl fun _ _ hd => hd) hdoor hp v hv
  keyed := h.keyed
  agree _ ha := by cases ha
  idle := .inl rfl
  working := trivial

theorem Off.finished (s : State) (x : Name) : Off s s.finished x :=
  ⟨rfl, fun _ _ => rfl, fun _ _ => rfl, fun _ _ => Iff.rfl⟩

theorem Off.removed (s : State) (x : Name) : Off s (s.removed x) x :=
  ⟨rfl, (Off.forget s x).states, fun _ _ => rfl, (Off.forget s x).placed⟩

theorem lookup_removed (h : (s.removed x).desired.lookup id = some spec) :
    s.desired.lookup id = some spec := by
  have h' : (s.desired.erase x).lookup id = some spec := h
  rw [lookup_erase] at h'
  split at h'
  · cases h'
  · exact h'

theorem Inv.removeServe (h : Inv s) (hs : s.removeServe x a = some s') : Inv s' := by
  unfold State.removeServe at hs
  split at hs
  · cases hs
    exact h.quiet (((Off.drop s x true).trans (Off.removed _ x)).trans (Off.finished _ x))
      (.none (lookup_drop s x true)) (fun _ _ hd => lookup_removed (s := s.drop x true) hd) rfl
      (.inl rfl) trivial
  · split at hs
    · rename_i hnone
      cases hs
      exact h.quiet ((Off.removed s x).trans (Off.finished _ x)) (.none hnone)
        (fun _ _ hd => lookup_removed hd) rfl (.inl rfl) trivial
    · cases hs
  · rename_i kind message done _
    cases hs
    have hdesired : (s.drop x done).desired = s.desired := by cases done <;> rfl
    refine h.quiet ((Off.drop s x done).trans (Off.finished _ x)) ?_ (fun _ _ hd => ?_) rfl
      (.inl rfl) trivial
    · exact ((h.good x).drop done).congr rfl rfl id fun _ hw => .inl (hw.resolve_right fun hin => by
        cases hin.1)
    · rw [← hdesired]
      exact hd

theorem Inv.removing (h : Inv s) {left : List Name} (hwork : s.work = .removing boot live x left)
    (hs : s.strayAnswered boot live x left a = some s') : Inv s' := by
  have htold : Told s boot live := by
    have hworking := h.working
    rwa [hwork] at hworking
  have hidle : ∃ queue, s.queue = .reconcile :: queue := h.idle.resolve_left fun hlisting => by
    rw [hwork] at hlisting
    cases hlisting
  have hlive : ∀ id l, (live.erase x).lookup id = some l → live.lookup id = some l := by
    intro id l hl
    rw [lookup_erase] at hl
    split at hl
    · cases hl
    · exact hl
  unfold State.strayAnswered at hs
  split at hs
  · cases hs
    have hoff := (Off.drop s x true).trans ((Off.forget _ x).trans
      (Off.work _ (.strays boot (live.erase x) left) x))
    exact h.quiet hoff (.none (lookup_drop s x true)) (fun _ _ hd => hd) rfl (.inr hidle)
      (htold.off hoff hlive (.inl (lookup_drop s x true)))
  · split at hs
    · rename_i hnone
      cases hs
      have hoff := (Off.forget s x).trans (Off.work _ (.strays boot (live.erase x) left) x)
      exact h.quiet hoff (.none hnone) (fun _ _ hd => hd) rfl (.inr hidle)
        (htold.off hoff hlive (.inl hnone))
    · cases hs
  · rename_i done _
    cases hs
    have hoff := (Off.drop s x done).trans (Off.work _ (.strays boot live left) x)
    cases done with
    | true =>
      exact h.quiet hoff (.none (lookup_drop s x true)) (fun _ _ hd => hd) rfl (.inr hidle)
        (htold.off hoff (fun _ _ hl => hl) (.inl (lookup_drop s x true)))
    | false =>
      exact h.quiet hoff ((h.good x).congr rfl rfl id fun _ hw => hw.quiet rfl fun _ _ hd => hd)
        (fun _ _ hd => hd) rfl (.inr hidle) (htold.off hoff (fun _ _ hl => hl) (.inr rfl))

theorem Inv.replacing (h : Inv s) (hwork : s.work = .replacing p spec)
    (hs : s.replaceAnswered contract p spec a = some s') : Inv s' := by
  have hdropped := h.dropped hwork
  have hahead : ∀ done, (s.drop (serveKey spec) done).work.ahead = spec :: p.rest := fun done => by
    rw [ahead_drop, hwork]
    rfl
  unfold State.replaceAnswered at hs
  split at hs
  · cases hs
    exact (hdropped true).1.add (hahead true) (hdropped true).2
  · split at hs
    · cases hs
      exact (hdropped false).1.add (hahead false) (hdropped false).2
    · cases hs
  · rename_i message done _
    cases hs
    exact (hdropped done).1.fail (hahead done) (hdropped done).2 _

theorem Inv.adding (h : Inv s) (hwork : s.work = .adding p spec)
    (hs : s.addAnswered p spec a = some s') : Inv s' := by
  unfold State.addAnswered at hs
  split at hs
  · split at hs
    · cases hs
      exact h.added hwork _ _
    · cases hs
  · rename_i kind message done
    split at hs
    · cases hs
    · cases hs
      exact h.notAdded hwork message done

/-! ## Every step -/

theorem Inv.begin (h : Inv s)
    (hwork : s.work = .strays boot live []) (hok : boot = s.boots →
      ∀ (id : Name) (spec : ServeSpec), s.desired.lookup id = some spec → artifact id = false →
        (live.lookup id).isSome → (s.node.lookup id).isSome) :
    Inv { s with work := .placing { boot, live, walked := [], rest := s.desired.values } } := by
  have htold : Told s boot live := by
    have hworking := h.working
    rwa [hwork] at hworking
  have hdesired : ∀ spec ∈ s.desired.values, s.desired.lookup (serveKey spec) = some spec := by
    intro spec hin
    obtain ⟨id, hid⟩ := mem_values.mp hin
    rw [h.keyed id spec hid]
    exact hid
  refine ⟨fun id => (h.good id).congr rfl rfl (fun hp => hp) fun spec hw => ?_, h.keyed,
    fun spec hin spec' hd _ _ => ?_, .inr (h.idle.resolve_left fun hlisting => ?_),
    htold.past, ?_, fun hboot spec hin ha l hl => ?_, fun hboot spec _ => htold.fresh hboot _,
    fun _ _ hin => (by cases hin)⟩
  · rcases hw with hw | ⟨hin, rfl⟩
    · exact .inl hw
    · exact .inl (hdesired spec hin)
  · exact some.inj ((hdesired spec hin).symm.trans hd)
  · rw [hwork] at hlisting
    cases hlisting
  · refine nodup_map_values fun k k' v v' hk hk' he => ?_
    rw [← h.keyed k v hk, ← h.keyed k' v' hk']
    exact he
  · have hsome := hok hboot _ spec (hdesired spec hin) ha (isSome_iff_exists.mpr ⟨l, hl⟩)
    obtain ⟨v, hv⟩ := isSome_iff_exists.mp hsome
    exact ⟨v, hv, htold.listed hboot _ l v hl hv⟩

theorem Inv.go (h : Inv s) (hok : Orderly s .go) (hs : s.go contract s.work = some s') :
    Inv s' := by
  have hidle : s.work ≠ .listing → ∃ queue, s.queue = .reconcile :: queue :=
    h.idle.resolve_left
  cases hwork : s.work with
  | listing | removing boot live id left | replacing p spec | adding p spec =>
    rw [hwork] at hs
    cases hs
  | strays boot live left =>
    rw [hwork] at hs hidle
    have hqueue := hidle (by rintro ⟨⟩)
    have htold : Told s boot live := by
      have hworking := h.working
      rwa [hwork] at hworking
    cases left with
    | nil =>
      cases hs
      exact h.begin hwork (hok boot live hwork)
    | cons id left =>
      have hturn : ∀ w : Work, w.ahead = [] → Working { s with work := w } w →
          Inv { s with work := w } := fun w hw hworking =>
        h.quiet (Off.work s w id) ((h.good id).congr rfl rfl (fun hp => hp) fun _ hw' =>
          hw'.quiet hw fun _ _ hd => hd) (fun _ _ hd => hd) hw (.inr hqueue) hworking
      have hgo : (if artifact id = false ∧ s.desired.lookup id = none ∧
          (s.states.lookup id).isSome then some { s with work := .removing boot live id left }
        else some { s with work := .strays boot live left }) = some s' := hs
      split at hgo
      · cases hgo
        exact hturn _ rfl ⟨htold.past, htold.listed, htold.fresh⟩
      · cases hgo
        exact hturn _ rfl ⟨htold.past, htold.listed, htold.fresh⟩
  | placing p =>
    rw [hwork] at hs
    unfold State.go at hs
    dsimp only at hs
    cases hrest : p.rest with
    | nil =>
      rw [hrest] at hs
      cases hs
      exact h.finished
    | cons spec rest =>
      rw [hrest] at hs
      cases hs
      exact h.visit hwork hrest

theorem Inv.setServes (h : Inv s) {specs : List ServeSpec} (hok : Orderly s (.setServes specs)) :
    Inv (s.setServes specs) where
  good id := by
    refine ⟨(h.good id).stood, (h.good id).recorded, (h.good id).tracked,
      fun ha spec hw hdoor hp v hv => ?_⟩
    rcases hw with hw | hw
    · exact (hok id spec hw ha hdoor).1 hp v hv
    · exact (h.good id).asked ha spec (.inr hw) hdoor hp v hv
  keyed _ _ hd := (lookup_ofList hd).1
  agree spec hin spec' hd ha hdoor := (hok _ spec' hd ha hdoor).2 spec hin rfl
  idle := h.idle.imp id fun ⟨queue, hq⟩ => ⟨queue ++ [.reconcile], by
    show s.queue ++ _ = _
    rw [hq]
    rfl⟩
  working := h.working.congr rfl rfl rfl

theorem Inv.enqueue (h : Inv s) (op : Op) : Inv (s.enqueue op) where
  __ := h
  good id := (h.good id).congr rfl rfl (fun hp => hp) fun _ hw => hw
  idle := h.idle.imp id fun ⟨queue, hq⟩ => ⟨queue ++ [op], by
    show s.queue ++ _ = _
    rw [hq]
    rfl⟩
  working := h.working.congr rfl rfl rfl

theorem Inv.noteNodeState (h : Inv s) (up : Bool) : Inv (s.noteNodeState up) := by
  have hup : Inv { s with nodeUp := some up } :=
    ⟨fun id => (h.good id).congr rfl rfl (fun hp => hp) fun _ hw => hw, h.keyed, h.agree, h.idle,
      h.working.congr rfl rfl rfl⟩
  rw [State.noteNodeState]
  split
  · exact hup
  · exact hup.enqueue .reconcile

theorem Inv.restart (h : Inv s) : Inv s.restart where
  __ := h
  good _ := .none rfl
  working := by
    have hworking := h.working
    show Working s.restart s.work
    cases hwork : s.work <;> rw [hwork] at hworking
    · trivial
    iterate 2
      · exact ⟨Nat.le_succ_of_le hworking.past, fun hboot => absurd hworking.past (by
          rw [hboot]
          exact Nat.not_succ_le_self _), fun _ _ => rfl⟩
    iterate 3
      · have hpast : _ ≠ s.boots + 1 := Nat.ne_of_lt (Nat.lt_succ_of_le hworking.past)
        exact ⟨Nat.le_succ_of_le hworking.past, hworking.nodup, fun hboot => absurd hboot hpast,
          fun _ _ _ => rfl, fun hboot => absurd hboot hpast⟩

theorem inv_start (left : List Standing) : Inv (.start left) where
  good id := by
    refine ⟨fun v hv => ?_, fun _ _ _ hst => (by cases hst), fun v hv hours => ?_,
      fun _ _ hw => ?_⟩
    · obtain ⟨v', hv', rfl⟩ := map_eq_some_iff.mp ((lookup_mapVals ..).symm.trans hv)
      exact (lookup_ofList hv').1
    · obtain ⟨v', -, rfl⟩ := map_eq_some_iff.mp ((lookup_mapVals ..).symm.trans hv)
      cases hours
    · rcases hw with hw | ⟨hin, -⟩
      · cases hw
      · cases hin
  keyed _ _ hd := by cases hd
  agree _ hin := by cases hin
  idle := .inl rfl
  working := trivial

theorem Inv.answered (h : Inv s) (hidle : ∃ queue, s.queue = .reconcile :: queue)
    (hs : s.answered contract a s.work = some s') : Inv s' := by
  cases hwork : s.work with
  | strays boot live left | placing p =>
    rw [hwork] at hs
    cases hs
  | listing =>
    rw [hwork] at hs
    cases hs
    unfold State.listAnswered
    split
    · exact h.list hidle
    · exact h.unavailable
    · exact h.finished
  | removing boot live id left =>
    rw [hwork] at hs
    exact h.removing hwork hs
  | replacing p spec =>
    rw [hwork] at hs
    exact h.replacing hwork hs
  | adding p spec =>
    rw [hwork] at hs
    exact h.adding hwork hs

theorem Inv.step {e : Event} (h : Inv s) (hok : Orderly s e) (hs : s.step contract e = some s') :
    Inv s' := by
  cases e with
  | setServes specs =>
    cases hs
    exact h.setServes hok
  | removeServe id | reconcile | connected =>
    cases hs
    exact h.enqueue _
  | noteNodeState up =>
    cases hs
    exact h.noteNodeState up
  | restart =>
    cases hs
    exact h.restart
  | go =>
    unfold State.step at hs
    dsimp only at hs
    split at hs
    · exact h.go hok hs
    · cases hs
  | answer a =>
    unfold State.step at hs
    dsimp only at hs
    split at hs
    · rename_i queue hqueue
      exact h.answered ⟨queue, hqueue⟩ hs
    · exact h.removeServe hs
    · cases hs

/-! ## The claim -/

theorem Inv.faithful (h : Inv s) : Faithful s where
  asked p hwork hrest hboot spec hin ha st hst hactive := by
    have hworking := h.working
    rw [hwork] at hworking
    obtain ⟨hspec, hsome⟩ := hworking.walked hboot spec hin ha st hst hactive
    obtain ⟨v, hv⟩ := isSome_iff_exists.mp hsome
    have hstands := ((h.good _).recorded ha st v hst hactive hv).stands
    rw [hspec] at hstands
    exact ⟨hspec, v, hv, hstands⟩
  same id st v ha hst hactive hv := ((h.good id).recorded ha st v hst hactive hv).stands
  replaced id st v ha hst hactive hv := ((h.good id).recorded ha st v hst hactive hv).replaced
  tracked id := (h.good id).tracked

/-- In every orderly run, what a pass holds active is what it was asked for, a predecessor's serve
is active only where it is the floor's own door, and what this client placed is tracked. -/
theorem serves_asked (contract : Contract) (left : List Standing) (s : State)
    (h : (machine contract left).Reaches Orderly s) : Faithful s :=
  (Machine.Reaches.invariant (P := Inv) (inv_start left)
    (fun _ _ _ hinv hok hs => hinv.step hok hs) h).faithful

def webServe (login : String) : ServeSpec where
  serveId := none
  name := ['w']
  listenPort := some 8080
  target := .port 3000 none
  routes := none
  previewDir := none
  allow := some [login]
  tls := some false
  pathSecret := none
  secretDoor := none

/-- A serve that is placed stands on the node. -/
theorem serves_asked_web : ∃ s p, s.work = .placing p ∧ p.walked = [webServe "a"] ∧ Faithful s := by
  have hset : (machine (fun _ => none) []).Reaches Orderly _ :=
    .next (e := .setServes [webServe "a"]) .start
      (by exact fun id spec _ _ _ => ⟨fun hp => (by cases hp), fun _ hin => (by cases hin)⟩) rfl
  have hlisted := hset.next (e := .answer (.ok 0 "")) (by trivial) rfl
  have hbegun := hlisted.next (e := .go)
    (by
      intro boot live hwork _ id spec _ _ hsome
      cases hwork
      cases hsome) rfl
  have hasked := hbegun.next (e := .go) (by intro boot live hwork; cases hwork) rfl
  have hadded := hasked.next (e := .answer (.ok 8080 "http://host")) (by trivial) rfl
  exact ⟨_, _, rfl, rfl, serves_asked _ _ _ hadded⟩

/-- The old allow list is held active as the new one, where its removal failed in between. -/
theorem serves_unasked : ¬∀ s, (machine (fun _ => none) []).Reaches Careful s → Faithful s := by
  intro hall
  have hset : (machine (fun _ => none) []).Reaches Careful _ :=
    .next (e := .setServes [webServe "a"]) .start (by intro _ _ _ _ _ hd; cases hd) rfl
  have hlisted := hset.next (e := .answer (.ok 0 "")) (by trivial) rfl
  have hbegun := hlisted.next (e := .go) (by trivial) rfl
  have hasked := hbegun.next (e := .go) (by trivial) rfl
  have hadded := hasked.next (e := .answer (.ok 8080 "http://host")) (by trivial) rfl
  have hplaced := hadded.next (e := .go) (by trivial) rfl
  have hnone := hplaced.next (e := .setServes []) (by intro _ _ _ hd; cases hd) rfl
  have hagain := hnone.next (e := .answer (.ok 0 "")) (by trivial) rfl
  have hstray := hagain.next (e := .go) (by trivial) rfl
  have hfailed := hstray.next (e := .answer (.failed .other "TIMEOUT" false)) (by trivial) rfl
  have hwalk := hfailed.next (e := .go) (by trivial) rfl
  have hover := hwalk.next (e := .go) (by trivial) rfl
  have hother := hover.next (e := .setServes [webServe "b"]) (by intro _ _ _ _ _ hd; cases hd) rfl
  have hthird := hother.next (e := .answer (.ok 0 "")) (by trivial) rfl
  have hkept := hthird.next (e := .go) (by trivial) rfl
  have hturn := hkept.next (e := .go) (by trivial) rfl
  have hadopted := hturn.next (e := .go) (by trivial) rfl
  have hstands := (hall _ hadopted).same ['w'] _ _ rfl rfl rfl rfl
  rcases hstands with he | ⟨hdoor, -⟩
  · exact absurd he (by decide)
  · cases hdoor

end VibeField.Fieldd.Serves
