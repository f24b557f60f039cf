import VibeField.Native.NamedRoots

/-!
# A node serves the last declared roots

What a call has still to do about a root is of one mind with the declared set: a root left to serve
is in it, and a root left to stop is not.  So where every call is done, the node serves the set.
-/

namespace VibeField.Native.NamedRoots

open List Option

def Work.root {Name : Type} : Work Name → Name
  | .serve name | .take name | .record name | .unserve name | .forget name => name

variable {Name Login : Type} [DecidableEq Login] {s s' : State Name Login} {a a' : Attached Name}
  {i : Item Name} {w : Work Name} {front : List (Item Name)} {name : Name} {n : Nat}

/-- Some call on node `node` has `w` still to do. -/
def Due (s : State Name Login) (node : Nat) (w : Work Name) : Prop := s.calls.Outstanding ⟨node, w⟩

/-- Where the calls, the attached node, its record and the declared set stand on one root. -/
structure Tracks (s : State Name Login) (a : Attached Name) (name : Name) : Prop where
  serve : Due s a.id (.serve name) ∨ Due s a.id (.take name) ∨ Due s a.id (.record name) →
    name ∈ s.target
  stop : Due s a.id (.unserve name) ∨ Due s a.id (.forget name) → name ∉ s.target
  served : name ∈ s.serves a.id → name ∈ s.target ∨ Due s a.id (.unserve name)
  wanted : name ∈ s.target → name ∈ s.serves a.id ∨ name ∈ s.refusals a.id ∨
    Due s a.id (.serve name) ∨ Due s a.id (.take name)
  recorded : name ∈ a.serving → name ∈ s.serves a.id ∨ Due s a.id (.forget name)
  noted : name ∈ s.serves a.id →
    name ∈ a.serving ∨ Due s a.id (.record name) ∨ Due s a.id (.unserve name)
  recording : Due s a.id (.record name) → name ∈ s.serves a.id
  refused : name ∈ s.refusals a.id → name ∉ s.serves a.id

structure Inv (s : State Name Login) : Prop where
  fresh : ∀ n, s.attaches < n → s.serves n = [] ∧ s.refusals n = []
  calls : ∀ i, s.calls.Outstanding i → i.node ≤ s.attaches
  /-- A root that is to be stopped is to be forgotten after it. -/
  paired : ∀ node name, ¬s.calls.Bare ⟨node, .unserve name⟩ ⟨node, .forget name⟩
  known : ∀ a, s.node = some a → a.id ≤ s.attaches
  node : ∀ a, s.node = some a → ∀ name, Tracks s a name

/-! ## A call goes on -/

/-- A call goes on from its head `i` with `front`. -/
structure Goes (s s' : State Name Login) (i : Item Name) (front : List (Item Name)) : Prop where
  head : s.calls.Outstanding i
  old : ∀ j, s'.calls.Outstanding j → s.calls.Outstanding j ∨ j ∈ front
  kept : ∀ j, s.calls.Outstanding j → j ≠ i → s'.calls.Outstanding j
  next : ∀ j ∈ front, s'.calls.Outstanding j
  target : s'.target = s.target

theorem goes_advance (h : s.calls.head n = some i)
    (hcalls : s'.calls = s.calls.advance n front []) (htarget : s'.target = s.target) :
    Goes s s' i front where
  head := Tasks.outstanding_head h
  old j hj := by
    rw [hcalls] at hj
    rcases Tasks.outstanding_advance h hj with hj | hj | hj
    · exact .inl hj
    · exact .inr hj
    · cases hj
  kept j hj hne := by
    rw [hcalls]
    exact Tasks.outstanding_advance_of_ne h hj hne
  next j hj := by
    rw [hcalls]
    exact Tasks.outstanding_front h hj
  target := htarget

theorem Goes.due_iff (hg : Goes s s' i front) {node : Nat} (hne : (⟨node, w⟩ : Item Name) ≠ i) :
    Due s' node w ↔ Due s node w ∨ (⟨node, w⟩ : Item Name) ∈ front :=
  ⟨hg.old _, fun h => h.elim (fun h => hg.kept _ h hne) (hg.next _)⟩

theorem Tracks.apart (h : Tracks s a name) (hg : Goes s s' i front)
    (hi : i.node ≠ a.id ∨ i.work.root ≠ name)
    (hfront : ∀ j ∈ front, j.node = i.node ∧ j.work.root = i.work.root) (hid : a'.id = a.id)
    (hserves : name ∈ s'.serves a.id ↔ name ∈ s.serves a.id)
    (hrefusals : name ∈ s'.refusals a.id ↔ name ∈ s.refusals a.id)
    (hserving : name ∈ a'.serving ↔ name ∈ a.serving) : Tracks s' a' name := by
  have hdue : ∀ w : Work Name, w.root = name → (Due s' a.id w ↔ Due s a.id w) := by
    intro w hw
    have hother : ∀ j : Item Name, j.node = i.node ∧ j.work.root = i.work.root →
        (⟨a.id, w⟩ : Item Name) ≠ j := by
      rintro j ⟨hnode, hname⟩ rfl
      exact hi.elim (fun hn => hn hnode.symm) fun hn => hn (hname.symm.trans hw)
    rw [hg.due_iff (hother i ⟨rfl, rfl⟩)]
    exact or_iff_left fun hmem => hother _ (hfront _ hmem) rfl
  refine ⟨?_, ?_, ?_, ?_, ?_, ?_, ?_, ?_⟩ <;>
    simp only [hid, hg.target, hserves, hrefusals, hserving, hdue (.serve name) rfl,
      hdue (.take name) rfl, hdue (.record name) rfl, hdue (.unserve name) rfl,
      hdue (.forget name) rfl]
  · exact h.serve
  · exact h.stop
  · exact h.served
  · exact h.wanted
  · exact h.recorded
  · exact h.noted
  · exact h.recording
  · exact h.refused

/-! ## One root, of which something is done -/

section Done

variable {x : Name}

theorem Goes.due (hg : Goes s s' ⟨a.id, w⟩ front) : Due s a.id w := hg.head

theorem Goes.due_ne (hg : Goes s s' ⟨a.id, w⟩ front) {v : Work Name} (hne : v ≠ w) :
    Due s' a.id v ↔ Due s a.id v ∨ (⟨a.id, v⟩ : Item Name) ∈ front :=
  hg.due_iff fun he => hne (Item.mk.inj he).2

theorem Goes.due_of (hg : Goes s s' ⟨a.id, w⟩ front) (hw : (⟨a.id, w⟩ : Item Name) ∉ front) :
    Due s' a.id w → Due s a.id w := fun h => (hg.old _ h).resolve_right hw

theorem Tracks.refuse (h : Tracks s a x) (hg : Goes s s' ⟨a.id, w⟩ [])
    (hw : w = .serve x ∨ w = .take x) (hno : x ∉ s.serves a.id)
    (hserves : s'.serves a.id = s.serves a.id)
    (hrefusals : x ∈ s'.refusals a.id) : Tracks s' a x := by
  have hdue : ∀ v : Work Name, Due s' a.id v → Due s a.id v := fun v hv =>
    (hg.old _ hv).resolve_right (by simp)
  have hu := hg.due_ne (v := .unserve x) (by rcases hw with rfl | rfl <;> simp)
  have hf := hg.due_ne (v := .forget x) (by rcases hw with rfl | rfl <;> simp)
  have hr := hg.due_ne (v := .record x) (by rcases hw with rfl | rfl <;> simp)
  have ht := hg.target
  obtain ⟨h1, h2, h3, h4, h5, h6, h7, h8⟩ := h
  refine ⟨?_, ?_, ?_, ?_, ?_, ?_, ?_, ?_⟩ <;> grind

theorem Tracks.register (h : Tracks s a x) (hg : Goes s s' ⟨a.id, .serve x⟩ [])
    (hrecord : x ∈ a.serving) (hserves : s'.serves a.id = s.serves a.id)
    (hrefusals : x ∉ s'.refusals a.id) : Tracks s' a x := by
  have hdue : ∀ v : Work Name, Due s' a.id v → Due s a.id v := fun v hv =>
    (hg.old _ hv).resolve_right (by simp)
  have hne := fun v => hg.due_ne (v := v)
  have ht := hg.target
  have hwanted := hg.due
  obtain ⟨h1, h2, h3, h4, h5, h6, h7, h8⟩ := h
  refine ⟨?_, ?_, ?_, ?_, ?_, ?_, ?_, ?_⟩ <;> grind

theorem Tracks.ask (h : Tracks s a x) (hg : Goes s s' ⟨a.id, .serve x⟩ [⟨a.id, .take x⟩])
    (hserves : s'.serves a.id = s.serves a.id) (hrefusals : s'.refusals a.id = s.refusals a.id) :
    Tracks s' a x := by
  have hs := hg.due_of (by simp)
  have hne := fun v => hg.due_ne (v := v)
  have ht := hg.target
  have hwanted := hg.due
  obtain ⟨h1, h2, h3, h4, h5, h6, h7, h8⟩ := h
  refine ⟨?_, ?_, ?_, ?_, ?_, ?_, ?_, ?_⟩ <;> grind

theorem Tracks.take (h : Tracks s a x) (hg : Goes s s' ⟨a.id, .take x⟩ [⟨a.id, .record x⟩])
    (hserves : x ∈ s'.serves a.id) (hrefusals : x ∉ s'.refusals a.id) : Tracks s' a x := by
  have hk := hg.due_of (by simp)
  have hne := fun v => hg.due_ne (v := v)
  have ht := hg.target
  have hwanted := hg.due
  obtain ⟨h1, h2, h3, h4, h5, h6, h7, h8⟩ := h
  refine ⟨?_, ?_, ?_, ?_, ?_, ?_, ?_, ?_⟩ <;> grind

theorem Tracks.record (h : Tracks s a x) (hg : Goes s s' ⟨a.id, .record x⟩ [])
    (hid : a'.id = a.id) (hrecord : x ∈ a'.serving) (hserves : s'.serves a.id = s.serves a.id)
    (hrefusals : s'.refusals a.id = s.refusals a.id) : Tracks s' a' x := by
  have hr := hg.due_of (by simp)
  have hne := fun v => hg.due_ne (v := v)
  have ht := hg.target
  have hwanted := hg.due
  obtain ⟨h1, h2, h3, h4, h5, h6, h7, h8⟩ := h
  refine ⟨?_, ?_, ?_, ?_, ?_, ?_, ?_, ?_⟩ <;> grind

theorem Tracks.unserve (h : Tracks s a x) (hg : Goes s s' ⟨a.id, .unserve x⟩ [])
    (hforget : Due s' a.id (.forget x)) (hserves : x ∉ s'.serves a.id) : Tracks s' a x := by
  have hu := hg.due_of (by simp)
  have hne := fun v => hg.due_ne (v := v)
  have ht := hg.target
  have hdropped := hg.due
  obtain ⟨h1, h2, h3, h4, h5, h6, h7, h8⟩ := h
  refine ⟨?_, ?_, ?_, ?_, ?_, ?_, ?_, ?_⟩ <;> grind

theorem Tracks.forget (h : Tracks s a x) (hg : Goes s s' ⟨a.id, .forget x⟩ [])
    (hid : a'.id = a.id) (hrecord : x ∉ a'.serving) (hserves : s'.serves a.id = s.serves a.id)
    (hrefusals : s'.refusals a.id = s.refusals a.id) : Tracks s' a' x := by
  have hf := hg.due_of (by simp)
  have hne := fun v => hg.due_ne (v := v)
  have ht := hg.target
  have hdropped := hg.due
  obtain ⟨h1, h2, h3, h4, h5, h6, h7, h8⟩ := h
  refine ⟨?_, ?_, ?_, ?_, ?_, ?_, ?_, ?_⟩ <;> grind

end Done

/-! ## A step of a call -/

/-- What a step of call `n` from its head `i` leaves as it is. -/
structure Worked (s s' : State Name Login) (n : Nat) (i : Item Name) (front : List (Item Name)) :
    Prop where
  calls : s'.calls = s.calls.advance n front []
  target : s'.target = s.target
  attaches : s'.attaches = s.attaches
  serves : ∀ node name, node ≠ i.node ∨ i.work.root ≠ name →
    (name ∈ s'.serves node ↔ name ∈ s.serves node)
  refusals : ∀ node name, node ≠ i.node ∨ i.work.root ≠ name →
    (name ∈ s'.refusals node ↔ name ∈ s.refusals node)
  front : ∀ j ∈ front, j.node = i.node ∧ j.work.root = i.work.root ∧ j.work.stops = none
  node : ∀ a', s'.node = some a' → ∃ a, s.node = some a ∧ a'.id = a.id ∧
    ∀ name, a.id ≠ i.node ∨ i.work.root ≠ name → (name ∈ a'.serving ↔ name ∈ a.serving)

theorem Inv.worked (h : Inv s) (hhead : s.calls.head n = some i) (front : List (Item Name))
    (hw : Worked s s' n i front)
    (hroot : ∀ a a', s.node = some a → s'.node = some a' → a'.id = a.id → a.id = i.node →
      Goes s s' i front → Tracks s a i.work.root → Tracks s' a' i.work.root) : Inv s' := by
  have hg := goes_advance hhead hw.calls hw.target
  have hnode := h.calls i hg.head
  refine ⟨fun m hm => ?_, fun j hj => ?_, fun node name => ?_, fun a' ha' => ?_,
    fun a' ha' name => ?_⟩
  · rw [hw.attaches] at hm
    have hne : m ≠ i.node := fun he => by omega
    obtain ⟨hs, hr⟩ := h.fresh m hm
    refine ⟨eq_nil_iff_forall_not_mem.mpr fun name hname => ?_,
      eq_nil_iff_forall_not_mem.mpr fun name hname => ?_⟩
    · rw [hw.serves m name (.inl hne), hs] at hname
      cases hname
    · rw [hw.refusals m name (.inl hne), hr] at hname
      cases hname
  · rw [hw.attaches]
    rcases hg.old j hj with hj | hj
    · exact h.calls j hj
    · rw [(hw.front j hj).1]
      exact hnode
  · rw [hw.calls]
    refine Tasks.not_bare_advance hhead (fun hmem => ?_) (h.paired node name)
    cases (hw.front _ hmem).2.2
  · obtain ⟨a, ha, hid, -⟩ := hw.node a' ha'
    rw [hw.attaches, hid]
    exact h.known a ha
  · obtain ⟨a, ha, hid, hserving⟩ := hw.node a' ha'
    by_cases hi : a.id = i.node ∧ i.work.root = name
    · obtain ⟨hi, rfl⟩ := hi
      exact hroot a a' ha ha' hid hi hg (h.node a ha _)
    · have hi' : a.id ≠ i.node ∨ i.work.root ≠ name := not_and_or.mp hi
      exact (h.node a ha name).apart hg (hi'.imp Ne.symm id)
        (fun j hj => ⟨(hw.front j hj).1, (hw.front j hj).2.1⟩) hid (hw.serves a.id name hi')
        (hw.refusals a.id name hi') (hserving name hi')

section Sets

variable {Name Login : Type} {s s' : State Name Login} {node m : Nat} {x name : Name}

theorem onRecord_eq (s : State Name Login) (node : Nat) (f : List Name → List Name) :
    s.onRecord node f = { s with node := s.node.map fun a =>
      if a.id = node then { a with serving := f a.serving } else a } := by
  rw [State.onRecord]
  split
  · rename_i a ha
    rw [ha, map_some]
    split
    · rfl
    · rw [← ha]
  · rename_i ha
    rw [ha, map_none, ← ha]

theorem node_onRecord {f : List Name → List Name}
    (hf : ∀ l name, x ≠ name → (name ∈ f l ↔ name ∈ l)) :
    ∀ a', (s.onRecord node f).node = some a' → ∃ a, s.node = some a ∧ a'.id = a.id ∧
      ∀ name, a.id ≠ node ∨ x ≠ name → (name ∈ a'.serving ↔ name ∈ a.serving) := by
  intro a' ha'
  rw [onRecord_eq] at ha'
  obtain ⟨a, ha, rfl⟩ := map_eq_some_iff.mp ha'
  refine ⟨a, ha, ?_⟩
  split
  · rename_i hid
    exact ⟨rfl, fun name hne => hf _ _ (hne.resolve_left (fun h => h hid))⟩
  · exact ⟨rfl, fun _ _ => Iff.rfl⟩

theorem onRecord_same {f : List Name → List Name} {a a' : Attached Name} (ha : s.node = some a)
    (ha' : (s.onRecord a.id f).node = some a') : a'.serving = f a.serving := by
  rw [onRecord_eq, ha, map_some, if_pos rfl] at ha'
  cases ha'
  rfl

theorem setAt_same (f : Nat → List Name) (node : Nat) (l : List Name) : setAt f node l node = l :=
  if_pos rfl

variable {l : List Name}

theorem mem_setAt {f : Nat → List Name}
    (hl : x ≠ name → (name ∈ l ↔ name ∈ f node)) (h : m ≠ node ∨ x ≠ name) :
    name ∈ setAt f node l m ↔ name ∈ f m := by
  rw [setAt]
  split
  · rename_i hm
    subst hm
    exact hl (h.resolve_left fun hne => hne rfl)
  · rfl

theorem mem_cons_ne (h : x ≠ name) : name ∈ x :: l ↔ name ∈ l := by
  rw [mem_cons]
  exact or_iff_right (Ne.symm h)

theorem same_node (hnode : s'.node = s.node) : ∀ a', s'.node = some a' →
    ∃ a, s.node = some a ∧ a'.id = a.id ∧
      ∀ name, a.id ≠ node ∨ x ≠ name → (name ∈ a'.serving ↔ name ∈ a.serving) := fun a' ha' =>
  ⟨a', hnode ▸ ha', rfl, fun _ _ => Iff.rfl⟩

variable [DecidableEq Name]

theorem mem_without : name ∈ without l x ↔ name ∈ l ∧ name ≠ x := by
  rw [without, mem_filter, decide_eq_true_iff]

theorem not_mem_without (l : List Name) (x : Name) : x ∉ without l x := fun h =>
  (mem_without.mp h).2 rfl

theorem mem_without_ne (h : x ≠ name) : name ∈ without l x ↔ name ∈ l := by
  rw [mem_without]
  exact and_iff_left (Ne.symm h)

theorem records_iff {a : Attached Name} (ha : s.node = some a) :
    s.records a.id x = true ↔ x ∈ a.serving := by
  rw [State.records, ha]
  simp

end Sets

section Work

variable {Name Login : Type} [DecidableEq Login] {s s' : State Name Login} {n node : Nat} {x : Name}

theorem Inv.refuse (h : Inv s) {w : Work Name} (hw : w = .serve x ∨ w = .take x)
    (hhead : s.calls.head n = some ⟨node, w⟩) (hno : x ∉ s.serves node) (word : String) :
    Inv ((s.refuse n node x word).advance n []) := by
  have hroot : w.root = x := by rcases hw with rfl | rfl <;> rfl
  refine h.worked hhead [] ⟨rfl, rfl, rfl, fun _ _ _ => Iff.rfl, fun m name hne => ?_,
    fun j hj => (by cases hj), same_node rfl⟩ fun a a' ha ha' _ hid hg ht => ?_
  · rw [hroot] at hne
    exact mem_setAt (fun hx => mem_cons_ne hx) hne
  · subst hid
    cases ha.symm.trans ha'
    rw [hroot] at ht ⊢
    refine ht.refuse hg hw hno rfl ?_
    show x ∈ setAt _ _ _ _
    rw [setAt_same]
    exact mem_cons_self

theorem worked_onRecord {w : Work Name} (hw : w.root = x) {f : List Name → List Name}
    (hf : ∀ l name, x ≠ name → (name ∈ f l ↔ name ∈ l)) :
    Worked s ((s.onRecord node f).advance n []) n ⟨node, w⟩ [] := by
  subst hw
  refine ⟨?_, ?_, ?_, fun m name _ => ?_, fun m name _ => ?_, fun j hj => (by cases hj),
    node_onRecord hf⟩ <;> rw [onRecord_eq] <;> rfl

variable [DecidableEq Name]

theorem Inv.serve (h : Inv s) (hhead : s.calls.head n = some ⟨node, .serve x⟩)
    (folders : Option IoError) (hno : folders ≠ none → x ∉ s.serves node) :
    Inv (s.serve n node x folders) := by
  cases folders with
  | some e => exact h.refuse (.inl rfl) hhead (hno (some_ne_none e)) _
  | none =>
    unfold State.serve
    dsimp only
    split
    · rename_i hrecords
      refine h.worked hhead [] ⟨rfl, rfl, rfl, fun _ _ _ => Iff.rfl,
        fun m name hne => mem_setAt (fun hx => mem_without_ne hx) hne, fun j hj => (by cases hj),
        same_node rfl⟩ fun a a' ha ha' _ hid hg ht => ?_
      subst hid
      cases ha.symm.trans ha'
      refine ht.register hg ((records_iff ha).mp hrecords) rfl ?_
      show x ∉ setAt _ _ _ _
      rw [setAt_same]
      exact not_mem_without _ x
    · refine h.worked hhead [⟨node, .take x⟩] ⟨rfl, rfl, rfl, fun _ _ _ => Iff.rfl,
        fun _ _ _ => Iff.rfl, fun j hj => ?_, same_node rfl⟩ fun a a' ha ha' _ hid hg ht => ?_
      · cases mem_singleton.mp hj
        exact ⟨rfl, rfl, rfl⟩
      · subst hid
        cases ha.symm.trans ha'
        exact ht.ask hg rfl rfl

theorem Inv.take (h : Inv s) (hhead : s.calls.head n = some ⟨node, .take x⟩) (takes : Bool)
    (hno : takes = false → x ∉ s.serves node) : Inv (s.take n node x takes) := by
  rw [State.take]
  split
  · refine h.worked hhead [⟨node, .record x⟩] ⟨rfl, rfl, rfl,
      fun m name hne => mem_setAt (fun hx => mem_cons_ne hx) hne,
      fun m name hne => mem_setAt (fun hx => mem_without_ne hx) hne, fun j hj => ?_,
      same_node rfl⟩ fun a a' ha ha' _ hid hg ht => ?_
    · cases mem_singleton.mp hj
      exact ⟨rfl, rfl, rfl⟩
    · subst hid
      cases ha.symm.trans ha'
      refine ht.take hg ?_ ?_
      · show x ∈ setAt _ _ _ _
        rw [setAt_same]
        exact mem_cons_self
      · show x ∉ setAt _ _ _ _
        rw [setAt_same]
        exact not_mem_without _ x
  · rename_i htakes
    exact h.refuse (.inr rfl) hhead (hno (Bool.eq_false_iff.mpr htakes)) _

theorem Inv.record (h : Inv s) (hhead : s.calls.head n = some ⟨node, .record x⟩) :
    Inv ((s.onRecord node fun serving => x :: without serving x).advance n []) := by
  refine h.worked hhead [] (worked_onRecord rfl fun l name hx => ?_)
    fun a a' ha ha' hid hnode hg ht => ?_
  · exact (mem_cons_ne hx).trans (mem_without_ne hx)
  · subst hnode
    refine ht.record hg hid ?_ ?_ ?_
    · rw [onRecord_same ha ha']
      exact mem_cons_self
    · rw [onRecord_eq]
      rfl
    · rw [onRecord_eq]
      rfl

theorem Inv.forget (h : Inv s) (hhead : s.calls.head n = some ⟨node, .forget x⟩) :
    Inv ((s.onRecord node fun serving => without serving x).advance n []) := by
  refine h.worked hhead [] (worked_onRecord rfl fun l name hx => mem_without_ne hx)
    fun a a' ha ha' hid hnode hg ht => ?_
  subst hnode
  refine ht.forget hg hid ?_ ?_ ?_
  · rw [onRecord_same ha ha']
    exact not_mem_without _ x
  · rw [onRecord_eq]
    rfl
  · rw [onRecord_eq]
    rfl

theorem Inv.unserve (h : Inv s) (hhead : s.calls.head n = some ⟨node, .unserve x⟩) :
    Inv ({ s with serves := setAt s.serves node (without (s.serves node) x) }.advance n []) := by
  refine h.worked hhead [] ⟨rfl, rfl, rfl,
    fun m name hne => mem_setAt (fun hx => mem_without_ne hx) hne, fun _ _ _ => Iff.rfl,
    fun j hj => (by cases hj), same_node rfl⟩ fun a a' ha ha' _ hid hg ht => ?_
  subst hid
  cases ha.symm.trans ha'
  refine ht.unserve hg (Tasks.outstanding_of_not_bare hhead (h.paired a.id x)) ?_
  show x ∉ setAt _ _ _ _
  rw [setAt_same]
  exact not_mem_without _ x

theorem Inv.work (h : Inv s) {i : Item Name} (hhead : s.calls.head n = some i)
    {folders : Option IoError} {takes : Bool} (hok : Refusable s folders takes i) :
    Inv (s.work n i.node folders takes i.work) := by
  obtain ⟨node, w⟩ := i
  cases w with
  | serve x =>
    refine h.serve hhead folders fun hne => ?_
    obtain ⟨e, rfl⟩ := ne_none_iff_exists'.mp hne
    exact hok
  | take x =>
    refine h.take hhead takes fun hno => ?_
    subst hno
    cases folders <;> exact hok
  | record x => exact h.record hhead
  | unserve x => exact h.unserve hhead
  | forget x => exact h.forget hhead

end Work

/-! ## Attach, detach and roots -/

section Calls

variable {Name Login : Type} {s s' : State Name Login} {a : Attached Name} {names : List Name}
  {gated : Bool} {login : Option Login} {name : Name} {items : List (Item Name)}

theorem due_spawn {node : Nat} {w : Work Name}
    (hcalls : s'.calls = s.calls.spawn items) :
    Due s' node w ↔ Due s node w ∨ (⟨node, w⟩ : Item Name) ∈ items := by
  rw [Due, hcalls]
  exact Tasks.outstanding_spawn

theorem paired_of_forall (hitems : ∀ i ∈ items, i.work.stops = none)
    (node : Nat) : ∀ before after, items = before ++ ⟨node, .unserve name⟩ :: after →
      (⟨node, .forget name⟩ : Item Name) ∈ after := by
  rintro before after rfl
  cases hitems ⟨node, .unserve name⟩ (by simp)

theorem paired_append (hitems : ∀ i ∈ items, i.work.stops = none)
    (id node : Nat) : ∀ (drops : List Name) (before after : List (Item Name)),
    (drops.flatMap fun name => [⟨id, .unserve name⟩, ⟨id, .forget name⟩]) ++ items =
        before ++ ⟨node, .unserve name⟩ :: after →
      (⟨node, .forget name⟩ : Item Name) ∈ after := by
  intro drops
  induction drops with
  | nil => exact paired_of_forall hitems node
  | cons drop drops ih =>
    intro before after heq
    rw [flatMap_cons, append_assoc, cons_append, singleton_append] at heq
    match before with
    | [] =>
      obtain ⟨hhead, rfl⟩ := List.cons.inj heq
      cases hhead
      exact mem_cons_self
    | [_] => cases (List.cons.inj (List.cons.inj heq).2).1
    | _ :: _ :: before => exact ih before after (List.cons.inj (List.cons.inj heq).2).2

variable [DecidableEq Login]

theorem Inv.detach (h : Inv s) (reason : Teardown) : Inv (s.detach reason) :=
  ⟨h.fresh, h.calls, h.paired, fun a ha => (by cases ha), fun a ha => by cases ha⟩

theorem Inv.attach (h : Inv s) : Inv (s.attach gated login) := by
  refine ⟨fun n hn => ?_, fun i hi => ?_, fun node name => ?_, fun a ha => ?_, fun a ha name => ?_⟩
  · exact h.fresh n (Nat.lt_of_succ_lt hn)
  · rcases Tasks.outstanding_spawn.mp hi with hi | hi
    · exact Nat.le_succ_of_le (h.calls i hi)
    · obtain ⟨name, -, rfl⟩ := List.mem_map.mp hi
      exact Nat.le_refl _
  · refine Tasks.not_bare_spawn (h.paired node name) (paired_of_forall (fun i hi => ?_) node)
    obtain ⟨name, -, rfl⟩ := List.mem_map.mp hi
    rfl
  · cases ha
    exact Nat.le_refl _
  · cases ha
    have hdue : ∀ w : Work Name, Due (s.attach gated login) (s.attaches + 1) w ↔
        ∃ name, name ∈ (s.attach gated login).target ∧ w = .serve name := by
      intro w
      rw [due_spawn rfl, List.mem_map]
      constructor
      · rintro (hw | ⟨name, hname, heq⟩)
        · exact absurd (h.calls _ hw) (Nat.not_succ_le_self _)
        · exact ⟨name, hname, (Item.mk.inj heq).2.symm⟩
      · rintro ⟨name, hname, rfl⟩
        exact .inr ⟨name, hname, rfl⟩
    obtain ⟨hserves, hrefusals⟩ := h.fresh (s.attaches + 1) (Nat.lt_succ_self _)
    have hserves' : (s.attach gated login).serves (s.attaches + 1) = [] := hserves
    have hrefusals' : (s.attach gated login).refusals (s.attaches + 1) = [] := hrefusals
    refine ⟨?_, ?_, ?_, ?_, ?_, ?_, ?_, ?_⟩ <;>
      simp only [hserves', hrefusals', hdue, not_mem_nil] <;> grind

variable [DecidableEq Name]

theorem mem_drops : name ∈ State.drops a names gated ↔
    name ∈ a.serving ∧ ¬(gated = true ∧ name ∈ names) := by
  rw [State.drops, mem_filter]
  cases gated <;> simp

theorem mem_rootsCall {i : Item Name} : i ∈ State.rootsCall a names gated ↔ i.node = a.id ∧
    ((∃ name, (name ∈ a.serving ∧ ¬(gated = true ∧ name ∈ names)) ∧
        (i.work = .unserve name ∨ i.work = .forget name)) ∨
      ∃ name, (gated = true ∧ name ∈ names) ∧ i.work = .serve name) := by
  obtain ⟨node, w⟩ := i
  rw [State.rootsCall, mem_append, mem_flatMap]
  simp only [mem_drops]
  cases gated <;> simp <;> grind

theorem Tracks.roots (h : Tracks s a name)
    (hok : ∀ i, s.calls.Outstanding i → i.node = a.id →
      (∀ name, i.work.serves = some name → gated = true ∧ name ∈ names) ∧
      (∀ name, i.work.stops = some name → ¬(gated = true ∧ name ∈ names)))
    (hcalls : s'.calls = s.calls.spawn (State.rootsCall a names gated))
    (htarget : name ∈ s'.target ↔ gated = true ∧ name ∈ names)
    (hserves : s'.serves a.id = s.serves a.id) (hrefusals : s'.refusals a.id = []) :
    Tracks s' a name := by
  have hnew : ∀ w : Work Name, Due s' a.id w ↔ Due s a.id w ∨
      (∃ name, (name ∈ a.serving ∧ ¬(gated = true ∧ name ∈ names)) ∧
        (w = .unserve name ∨ w = .forget name)) ∨
      ∃ name, (gated = true ∧ name ∈ names) ∧ w = .serve name := by
    intro w
    rw [due_spawn hcalls, mem_rootsCall]
    simp
  have hs := hnew (.serve name)
  have ht := hnew (.take name)
  have hr := hnew (.record name)
  have hu := hnew (.unserve name)
  have hf := hnew (.forget name)
  have hserve : Due s a.id (.serve name) ∨ Due s a.id (.take name) ∨ Due s a.id (.record name) →
      gated = true ∧ name ∈ names := by
    rintro (hd | hd | hd) <;> exact (hok _ hd rfl).1 name rfl
  have hstop : Due s a.id (.unserve name) ∨ Due s a.id (.forget name) →
      ¬(gated = true ∧ name ∈ names) := by
    rintro (hd | hd) <;> exact (hok _ hd rfl).2 name rfl
  obtain ⟨-, -, -, -, hrecorded, hnoted, hrecording, -⟩ := h
  refine ⟨?_, ?_, ?_, ?_, ?_, ?_, ?_, ?_⟩ <;> simp only [htarget, hserves, hrefusals] <;> grind

theorem Inv.roots (h : Inv s) (hok : Orderly s (.roots names gated login))
    (hs : s.roots names gated login = some s') : Inv s' := by
  unfold State.roots at hs
  cases ha : s.node with
  | none =>
    rw [ha] at hs
    cases hs
  | some a =>
    rw [ha] at hs
    cases hs
    have hknown := h.known a ha
    refine ⟨fun n hn => ⟨(h.fresh n hn).1, ?_⟩, fun i hi => ?_, fun node name => ?_,
      fun a' ha' => ?_, fun a' ha' name => ?_⟩
    · have hne : n ≠ a.id := fun he => Nat.not_le_of_lt hn (he ▸ hknown)
      exact (if_neg hne).trans (h.fresh n hn).2
    · rcases Tasks.outstanding_spawn.mp hi with hi | hi
      · exact h.calls i hi
      · rw [(mem_rootsCall.mp hi).1]
        exact hknown
    · refine Tasks.not_bare_spawn (h.paired node name) (paired_append (fun i hi => ?_) _ node _)
      split at hi
      · obtain ⟨name, -, rfl⟩ := List.mem_map.mp hi
        rfl
      · cases hi
    · cases ha'
      exact hknown
    · cases ha'
      refine (h.node a ha name).roots (hok a ha) rfl ?_ rfl (setAt_same _ _ _)
      show name ∈ State.attachRoots _ _ ↔ _
      rw [State.attachRoots]
      simp

end Calls

/-! ## The roots a node serves -/

section Served

variable {Name Login : Type} [DecidableEq Login] {s s' : State Name Login} {e : Event Name Login}

theorem inv_start : Inv (State.start : State Name Login) :=
  ⟨fun _ _ => ⟨rfl, rfl⟩, fun _ hi => absurd hi Tasks.not_outstanding_nil,
    fun _ _ ⟨_, htask, _⟩ => (by cases htask), fun _ ha => (by cases ha), fun _ ha => by cases ha⟩

theorem Tracks.serves {a : Attached Name} (hidle : s.calls.Idle) (h : ∀ name, Tracks s a name) :
    Serves s a := by
  have hnone : ∀ w : Work Name, ¬Due s a.id w := fun _ => hidle.not_outstanding
  refine ⟨fun name => ?_, fun name => ?_⟩
  · obtain ⟨-, -, hserved, hwanted, -, -, -, hrefused⟩ := h name
    simp only [hnone, or_false] at hserved hwanted
    grind
  · obtain ⟨-, -, -, -, hrecorded, hnoted, -, -⟩ := h name
    simp only [hnone, or_false] at hrecorded hnoted
    exact ⟨hrecorded, hnoted⟩

variable [DecidableEq Name]

theorem Inv.step (h : Inv s) (hok : Orderly s e) (hs : s.step e = some s') : Inv s' := by
  cases e with
  | attach gated login =>
    cases hs
    exact h.attach
  | detach reason =>
    cases hs
    exact h.detach reason
  | roots names gated login => exact h.roots hok hs
  | act n folders takes =>
    obtain ⟨i, hhead, rfl⟩ := map_eq_some_iff.mp hs
    exact h.work hhead (hok i hhead)

theorem inv_reaches (h : (machine Name Login).Reaches Orderly s) : Inv s :=
  Machine.Reaches.invariant (P := Inv) inv_start (fun _ _ _ hinv hok hs => hinv.step hok hs) h

theorem record_step {a' : Attached Name} (hs : s.step e = some s') (ha' : s'.node = some a') :
    ∀ name ∈ a'.serving, (∃ a, s.node = some a ∧ a.id = a'.id ∧ name ∈ a.serving) ∨
      Due s a'.id (.record name) := by
  have hsame : s'.node = s.node → ∀ name ∈ a'.serving,
      (∃ a, s.node = some a ∧ a.id = a'.id ∧ name ∈ a.serving) ∨ Due s a'.id (.record name) :=
    fun hnode _ hname => .inl ⟨a', hnode ▸ ha', rfl, hname⟩
  cases e with
  | attach gated login =>
    cases hs
    cases ha'
    intro name hname
    cases hname
  | detach reason =>
    cases hs
    cases ha'
  | roots names gated login =>
    refine hsame ?_
    have hroots : s.roots names gated login = some s' := hs
    unfold State.roots at hroots
    split at hroots
    · cases hroots
    · cases hroots
      rfl
  | act n folders takes =>
    obtain ⟨⟨node, w⟩, hhead, rfl⟩ := map_eq_some_iff.mp hs
    cases w with
    | serve x =>
      refine hsame ?_
      cases folders with
      | some e => rfl
      | none =>
        show (if _ then _ else _ : State Name Login).node = _
        split <;> rfl
    | take x =>
      refine hsame ?_
      cases takes <;> rfl
    | unserve x => exact hsame rfl
    | record x =>
      obtain ⟨a, ha, hid, hserving⟩ := node_onRecord
        (f := fun serving => x :: without serving x)
        (fun l name hx => (mem_cons_ne hx).trans (mem_without_ne hx)) a' ha'
      intro name hname
      by_cases hx : a.id ≠ node ∨ x ≠ name
      · exact .inl ⟨a, ha, hid.symm, (hserving name hx).mp hname⟩
      · rw [not_or, not_not, not_not] at hx
        obtain ⟨rfl, rfl⟩ := hx
        rw [hid]
        exact .inr (Tasks.outstanding_head hhead)
    | forget x =>
      obtain ⟨a, ha, hid, hserving⟩ := node_onRecord (f := fun serving => without serving x)
        (fun l name hx => mem_without_ne hx) a' ha'
      intro name hname
      by_cases hx : a.id ≠ node ∨ x ≠ name
      · exact .inl ⟨a, ha, hid.symm, (hserving name hx).mp hname⟩
      · rw [not_or, not_not, not_not] at hx
        obtain ⟨rfl, rfl⟩ := hx
        rw [onRecord_same ha ha'] at hname
        exact absurd hname (not_mem_without _ x)

/-- In every run that is orderly, where all calls are done, the attached node serves what was last
declared under its gate's login and could be served, and its record says so; and in every run its
record gains only what a call asked of it. -/
theorem serves_declared (Name Login : Type) [DecidableEq Name] [DecidableEq Login] :
    (∀ s a, (machine Name Login).Reaches Orderly s → s.calls.Idle → s.node = some a →
      Serves s a) ∧
    ∀ s e s' a', (machine Name Login).Reachable s → (machine Name Login).next s e = some s' →
      s'.node = some a' → ∀ name ∈ a'.serving,
        (∃ a, s.node = some a ∧ a.id = a'.id ∧ name ∈ a.serving) ∨
        s.calls.Outstanding ⟨a'.id, .record name⟩ :=
  ⟨fun _ a hr hidle ha => Tracks.serves hidle ((inv_reaches hr).node a ha),
    fun _ _ _ _ _ hs ha' => record_step hs ha'⟩

end Served

/-- A gated node that is declared a root serves it. -/
theorem serves_declared_root : ∃ s a, s.node = some a ∧
    Serves (s : State FileTransferRootName Nat) a := by
  have hattached : (machine FileTransferRootName Nat).Reaches Orderly _ :=
    .next (e := .attach true (some 1)) .start trivial rfl
  have hdeclared := hattached.next (e := Event.roots [.driveObjects] true (some 1))
    (by intro a ha i hi; exact absurd hi (Tasks.Idle.not_outstanding (by decide))) rfl
  have hasked := hdeclared.next (e := Event.act 1 none true) (by rintro i ⟨⟩; trivial) rfl
  have htaken := hasked.next (e := Event.act 1 none true) (by rintro i ⟨⟩; trivial) rfl
  have hrecorded := htaken.next (e := Event.act 1 none true) (by rintro i ⟨⟩; trivial) rfl
  exact ⟨_, _, rfl, (serves_declared FileTransferRootName Nat).1 _ _ hrecorded (by decide) rfl⟩

/-- A declaration of nothing that comes while an attach serves the held set again: the attach goes
on, and the node is left serving a root that is not declared. -/
theorem serves_undeclared : ¬∀ s a, (machine FileTransferRootName Nat).Reachable s →
    s.calls.Idle → s.node = some a → Serves s a := by
  intro hall
  have hattached := Machine.Reachable.next (e := Event.attach true (some 1))
    (Machine.Reaches.start (M := machine FileTransferRootName Nat)) rfl
  have hdeclared := hattached.next (e := .roots [.driveObjects] true (some 1)) rfl
  have hasked := hdeclared.next (e := .act 1 none true) rfl
  have htaken := hasked.next (e := .act 1 none true) rfl
  have hserved := htaken.next (e := .act 1 none true) rfl
  have hdown := hserved.next (e := .detach .gateChanged) rfl
  have hagain := hdown.next (e := .attach true (some 1)) rfl
  have haskedAgain := hagain.next (e := .act 2 none true) rfl
  have hnone := haskedAgain.next (e := .roots [] true (some 1)) rfl
  have htakenAgain := hnone.next (e := .act 2 none true) rfl
  have hrecorded := htakenAgain.next (e := .act 2 none true) rfl
  have hserves := ((hall _ _ hrecorded (by decide) rfl).node .driveObjects).mp (by decide)
  exact absurd hserves.1 (by decide)

end VibeField.Native.NamedRoots
