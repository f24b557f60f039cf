import VibeField.Fieldd.AtRest

/-!
# The document lane

One window at a time is on a canvas's lane.  The lane records, for the canvas, the version it
can prove the window to hold: what a GET served it, raised by what the window saves.  A window
that comes back after its socket dropped keeps that record; a new one starts without it.  What
a peer merged is pushed, exported from the proof.

What is sent over a socket arrives in order or is lost with the socket.
-/

namespace VibeField.Fieldd

open Causal Option

variable {Op : Type} [DecidableEq Op] [Causal Op] {W : Type}

/-! ## Windows -/

/-- A window's document; it is quarantined by an update whose base it lacks. -/
structure Window (Op : Type) [DecidableEq Op] [Causal Op] where
  holds : Finset Op
  closed : Closed holds
  quarantined : Bool := false

namespace Window

def blank : Window Op := { holds := ∅, closed := closed_empty }

def read (w : Window Op) (content : Doc Op) : Window Op :=
  { w with holds := w.holds ∪ content.version, closed := w.closed.union content.closed }

def applyRemote (w : Window Op) (u : Finset Op) : Window Op where
  holds := absorb w.holds u
  closed := w.closed.absorb
  quarantined := w.quarantined || !decide (u ⊆ absorb w.holds u)

def edit (w : Window Op) (o : Op) : Option (Window Op) :=
  if h : ∀ d ∈ deps o, d ∈ w.holds then
    some { w with holds := insert o w.holds, closed := w.closed.insert h }
  else none

end Window

/-! ## The lane's state -/

/-- What is at rest; a canvas outside Loro custody has no version. -/
structure AtRestDoc (Op : Type) [DecidableEq Op] [Causal Op] where
  doc : Doc Op
  journalEntries : Nat
  hosted : Bool

/-- `readDocForWindow`. -/
structure WindowRead (Op : Type) [DecidableEq Op] [Causal Op] where
  content : Doc Op
  updates : Nat
  hosted : Bool

def WindowRead.version (r : WindowRead Op) : Option (Finset Op) :=
  if r.hosted then some r.content.version else none

inductive LaneFrame (Op : Type) [DecidableEq Op] [Causal Op] where
  | doc (content : Doc Op)
  | docPush (u : Finset Op)

structure LaneConn (Op W : Type) [DecidableEq Op] [Causal Op] where
  window : W
  pushes : Bool
  frozen : Option (WindowRead Op)
  announced : Nat
  /-- on its way to the window -/
  sent : List (LaneFrame Op) := []

structure DocLane (Op W : Type) [DecidableEq Op] [Causal Op] where
  stored : Option (AtRestDoc Op) := none
  proven : Option (Finset Op) := none
  windows : W → Option (Window Op) := fun _ => none
  conn : Option (LaneConn Op W) := none

/-- What a window saves: a checkpoint that lifts or not, or an update. -/
inductive PutPayload (Op : Type) where
  | checkpoint (version : Finset Op)
  | opaqueBytes
  | update (u : Finset Op)

def PutPayload.proves [Authored Op] : PutPayload Op → Option (Finset Op)
  | .checkpoint version => some version
  | .opaqueBytes => none
  | .update u => some (provenVersion u)

namespace DocLane

variable [DecidableEq W]

def readDocForWindow (s : DocLane Op W) : Option (WindowRead Op) :=
  s.stored.map fun r => { content := r.doc, updates := r.journalEntries, hosted := r.hosted }

def setWindow (s : DocLane Op W) (i : W) (w : Option (Window Op)) : DocLane Op W :=
  { s with windows := fun j => if j = i then w else s.windows j }

def onHello (s : DocLane Op W) (i : W) (resume pushes : Bool) : DocLane Op W :=
  let read := s.readDocForWindow
  { s with
    proven := if resume then s.proven else none
    conn := some
      { window := i
        pushes := pushes
        frozen := if resume then none else read
        announced := (read.map (·.updates)).getD 0 } }

def onGet (s : DocLane Op W) : Option (DocLane Op W) :=
  s.conn.map fun c =>
    let c' := { c with frozen := none }
    match c.frozen.or s.readDocForWindow with
    | none => { s with conn := some c' }
    | some read =>
      if read.updates = c.announced then
        { s with
          proven := read.version.or s.proven
          conn := some { c' with sent := c.sent ++ [.doc read.content] } }
      else { s with conn := some c' }

section Prove

variable [Authored Op]

def prove (known : Option (Finset Op)) (payload : PutPayload Op) : Option (Finset Op) :=
  match payload.proves with
  | none => known
  | some version =>
    match known with
    | none => some version
    | some k => some (k ∪ version)

def Saves (w : Window Op) : PutPayload Op → Prop
  | .checkpoint version => version ⊆ w.holds
  | .opaqueBytes => True
  | .update u => u ⊆ w.holds

instance (w : Window Op) : (payload : PutPayload Op) → Decidable (Saves w payload)
  | .checkpoint version => inferInstanceAs (Decidable (version ⊆ w.holds))
  | .opaqueBytes => .isTrue trivial
  | .update u => inferInstanceAs (Decidable (u ⊆ w.holds))

/-- `onPut`: `rest` is what is at rest after a save that was accepted. -/
def onPut (s : DocLane Op W) (payload : PutPayload Op) (rest : Option (AtRestDoc Op)) :
    Option (DocLane Op W) :=
  match s.conn with
  | none => none
  | some c =>
    if (s.windows c.window).any fun w => decide (Saves w payload) then
      match rest with
      | none => some { s with conn := some { c with frozen := none } }
      | some r =>
        some { s with
          stored := some r
          proven := prove s.proven payload
          conn := some { c with frozen := none } }
    else none

end Prove

def push (s : DocLane Op W) : Option (DocLane Op W) :=
  match s.conn, s.proven, s.stored with
  | some c, some known, some r =>
    if c.pushes ∧ r.hosted ∧ ¬r.doc.version ⊆ known ∧ r.doc.root ⊆ known then
      some { s with
        conn := some { c with sent := c.sent ++ [.docPush (r.doc.exportSince known)] } }
    else none
  | _, _, _ => none

def deliver (s : DocLane Op W) : Option (DocLane Op W) :=
  match s.conn with
  | none => none
  | some c =>
    match c.sent, s.windows c.window with
    | .doc content :: rest, some w =>
      some { s.setWindow c.window (some (w.read content)) with
        conn := some { c with sent := rest } }
    | .docPush u :: rest, some w =>
      some { s.setWindow c.window (some (w.applyRemote u)) with
        conn := some { c with sent := rest } }
    | _, _ => none

end DocLane

inductive LaneEvent (Op W : Type) [DecidableEq Op] [Causal Op] where
  | openWindow (i : W) (pushes : Bool)
  | resume (i : W) (pushes : Bool)
  | get
  | put (payload : PutPayload Op) (rest : Option (AtRestDoc Op))
  | push
  | deliver
  | edit (i : W) (o : Op)
  /-- what is at rest changes: a peer's merge, a compaction, a re-bootstrap -/
  | peerMerged (rest : AtRestDoc Op)
  | drop
  | close (i : W)

section Runs

variable [Authored Op] [DecidableEq W]

def DocLane.next (s : DocLane Op W) : LaneEvent Op W → Option (DocLane Op W)
  | .openWindow i pushes =>
    if s.conn.isNone ∧ (s.windows i).isNone then
      some ((s.setWindow i (some .blank)).onHello i false pushes)
    else none
  | .resume i pushes =>
    if s.conn.isNone ∧ (s.windows i).isSome then some (s.onHello i true pushes) else none
  | .get => s.onGet
  | .put payload rest => s.onPut payload rest
  | .push => s.push
  | .deliver => s.deliver
  | .edit i o =>
    (s.windows i).bind fun w => (w.edit o).map fun w' => s.setWindow i (some w')
  | .peerMerged rest => some { s with stored := some rest }
  | .drop => if s.conn.isSome then some { s with conn := none } else none
  | .close i =>
    some { s.setWindow i none with
      conn := if s.conn.any fun c => decide (c.window = i) then none else s.conn }

def laneMachine : Machine (DocLane Op W) (LaneEvent Op W) :=
  { start := {}, next := DocLane.next }

end Runs

/-! ## What holds of every state -/

namespace DocLane

def reach (h : Finset Op) : List (LaneFrame Op) → Finset Op
  | [] => h
  | .doc content :: rest => reach (h ∪ content.version) rest
  | .docPush u :: rest => reach (h ∪ u) rest

/-- The proof is at or below what the window on the lane holds. -/
def Proven (s : DocLane Op W) : Prop :=
  ∀ c w known, s.conn = some c → s.windows c.window = some w → s.proven = some known →
    known ⊆ reach w.holds c.sent

/-- No window has been pushed what it could not apply. -/
def Complete (s : DocLane Op W) : Prop :=
  ∀ i w, s.windows i = some w → w.quarantined = false

def Orderly (s : DocLane Op W) : LaneEvent Op W → Prop
  | .resume i _ => ∀ w ∈ (s.windows i).toList, ∀ known ∈ s.proven.toList, known ⊆ w.holds
  | _ => True

instance (s : DocLane Op W) : (e : LaneEvent Op W) → Decidable (s.Orderly e)
  | .resume i _ => inferInstanceAs
      (Decidable (∀ w ∈ (s.windows i).toList, ∀ known ∈ s.proven.toList, known ⊆ w.holds))
  | .openWindow _ _ => .isTrue trivial
  | .get => .isTrue trivial
  | .put _ _ => .isTrue trivial
  | .push => .isTrue trivial
  | .deliver => .isTrue trivial
  | .edit _ _ => .isTrue trivial
  | .peerMerged _ => .isTrue trivial
  | .drop => .isTrue trivial
  | .close _ => .isTrue trivial

def Fits (h : Finset Op) : List (LaneFrame Op) → Prop
  | [] => True
  | .doc content :: rest => Fits (h ∪ content.version) rest
  | .docPush u :: rest => Closed (h ∪ u) ∧ Fits (h ∪ u) rest

section Frames

variable {h k : Finset Op} {sent : List (LaneFrame Op)}

theorem subset_reach : h ⊆ reach h sent := by
  induction sent generalizing h with
  | nil => exact Finset.Subset.refl h
  | cons f rest ih =>
    cases f with
    | doc content => exact Finset.Subset.trans Finset.subset_union_left ih
    | docPush u => exact Finset.Subset.trans Finset.subset_union_left ih

theorem reach_append (content : Doc Op) :
    reach h (sent ++ [.doc content]) = reach h sent ∪ content.version := by
  induction sent generalizing h with
  | nil => rfl
  | cons f rest ih =>
    cases f with
    | doc c => exact ih
    | docPush u => exact ih

theorem reach_append_push (u : Finset Op) :
    reach h (sent ++ [.docPush u]) = reach h sent ∪ u := by
  induction sent generalizing h with
  | nil => rfl
  | cons f rest ih =>
    cases f with
    | doc c => exact ih
    | docPush u' => exact ih

theorem Fits.reach_closed (hf : Fits h sent) (hh : Closed h) : Closed (reach h sent) := by
  induction sent generalizing h with
  | nil => exact hh
  | cons f rest ih =>
    cases f with
    | doc content => exact ih hf (hh.union content.closed)
    | docPush u => exact ih hf.2 hf.1

theorem Fits.append (hf : Fits h sent) (content : Doc Op) :
    Fits h (sent ++ [.doc content]) := by
  induction sent generalizing h with
  | nil => trivial
  | cons f rest ih =>
    cases f with
    | doc c => exact ih hf
    | docPush u => exact ⟨hf.1, ih hf.2⟩

theorem Fits.append_push {u : Finset Op} (hf : Fits h sent) (hu : Closed (reach h sent ∪ u)) :
    Fits h (sent ++ [.docPush u]) := by
  induction sent generalizing h with
  | nil => exact ⟨hu, trivial⟩
  | cons f rest ih =>
    cases f with
    | doc c => exact ih hf hu
    | docPush u' => exact ⟨hf.1, ih hf.2 hu⟩

theorem Fits.grow (hf : Fits h sent) (hk : Closed k) : Fits (h ∪ k) sent := by
  induction sent generalizing h with
  | nil => trivial
  | cons f rest ih =>
    cases f with
    | doc content =>
      show Fits (h ∪ k ∪ content.version) rest
      rw [Finset.union_right_comm]
      exact ih hf
    | docPush u =>
      show Closed (h ∪ k ∪ u) ∧ Fits (h ∪ k ∪ u) rest
      rw [Finset.union_right_comm]
      exact ⟨hf.1.union hk, ih hf.2⟩

theorem reach_grow : reach h sent ⊆ reach (h ∪ k) sent := by
  induction sent generalizing h with
  | nil => exact Finset.subset_union_left
  | cons f rest ih =>
    cases f with
    | doc content =>
      show reach (h ∪ content.version) rest ⊆ reach (h ∪ k ∪ content.version) rest
      rw [Finset.union_right_comm]
      exact ih
    | docPush u =>
      show reach (h ∪ u) rest ⊆ reach (h ∪ k ∪ u) rest
      rw [Finset.union_right_comm]
      exact ih

end Frames

structure Attached (s : DocLane Op W) (c : LaneConn Op W) (w : Window Op) : Prop where
  fits : Fits w.holds c.sent
  proven : ∀ known, s.proven = some known → known ⊆ reach w.holds c.sent

structure Sound (s : DocLane Op W) : Prop where
  present : ∀ c, s.conn = some c → ∃ w, s.windows c.window = some w ∧ s.Attached c w
  complete : s.Complete

theorem Sound.isProven {s : DocLane Op W} (h : s.Sound) : s.Proven := by
  intro c w known hc hw hk
  obtain ⟨w', hw', ha⟩ := h.present c hc
  rw [hw] at hw'
  cases hw'
  exact ha.proven known hk

/-! ## Each step -/

section Steps

variable {s s' : DocLane Op W}

theorem Sound.off {stored : Option (AtRestDoc Op)} {proven : Option (Finset Op)}
    {windows : W → Option (Window Op)}
    (hw : ∀ i w, windows i = some w → w.quarantined = false) :
    ({ stored := stored, proven := proven, windows := windows, conn := none } :
      DocLane Op W).Sound where
  present := by
    intro c hc
    cases hc
  complete := hw

theorem Sound.resume {i : W} {pushes : Bool} (h : s.Sound) (hi : (s.windows i).isSome)
    (hok : s.Orderly (.resume i pushes)) : (s.onHello i true pushes).Sound where
  present := by
    intro c hc
    cases hc
    obtain ⟨w, hw⟩ := isSome_iff_exists.mp hi
    refine ⟨w, hw, trivial, ?_⟩
    intro known (hk : s.proven = some known)
    exact hok w (by rw [hw]; exact List.mem_singleton.mpr rfl) known
      (by rw [hk]; exact List.mem_singleton.mpr rfl)
  complete := h.complete

theorem Sound.get (h : s.Sound) (hs : s.onGet = some s') : s'.Sound := by
  obtain ⟨c, hc, hs⟩ := map_eq_some_iff.mp hs
  obtain ⟨w, hw, hfits, hproven⟩ := h.present c hc
  cases hr : c.frozen.or s.readDocForWindow with
  | none =>
    rw [hr] at hs
    subst hs
    refine ⟨?_, h.complete⟩
    intro c' hc'
    cases hc'
    exact ⟨w, hw, hfits, hproven⟩
  | some read =>
    rw [hr] at hs
    dsimp only at hs
    split at hs
    · subst hs
      refine ⟨?_, h.complete⟩
      intro c' hc'
      cases hc'
      refine ⟨w, hw, hfits.append read.content, ?_⟩
      intro known (hk : read.version.or s.proven = some known)
      show known ⊆ reach w.holds (c.sent ++ [.doc read.content])
      rw [reach_append]
      rw [WindowRead.version] at hk
      split at hk
      · cases hk
        exact Finset.subset_union_right
      · exact Finset.Subset.trans (hproven known hk) Finset.subset_union_left
    · subst hs
      refine ⟨?_, h.complete⟩
      intro c' hc'
      cases hc'
      exact ⟨w, hw, hfits, hproven⟩

theorem Sound.put [Authored Op] {payload : PutPayload Op} {rest : Option (AtRestDoc Op)}
    (h : s.Sound) (hs : s.onPut payload rest = some s') : s'.Sound := by
  rw [onPut] at hs
  split at hs
  · cases hs
  · next c hc =>
    obtain ⟨w, hw, hfits, hproven⟩ := h.present c hc
    split at hs
    · next hsaves =>
      split at hs
      · cases hs
        refine ⟨?_, h.complete⟩
        intro c' hc'
        cases hc'
        exact ⟨w, hw, hfits, hproven⟩
      · next r =>
        cases hs
        refine ⟨?_, h.complete⟩
        intro c' hc'
        cases hc'
        refine ⟨w, hw, hfits, ?_⟩
        intro known (hk : prove s.proven payload = some known)
        rw [hw] at hsaves
        have hv : ∀ v, payload.proves = some v → v ⊆ w.holds := by
          intro v hv
          have hsaved : Saves w payload := of_decide_eq_true hsaves
          cases payload with
          | checkpoint version =>
            cases hv
            exact hsaved
          | opaqueBytes => cases hv
          | update u =>
            cases hv
            exact provenVersion_subset w.closed hsaved
        show known ⊆ reach w.holds c.sent
        rw [prove] at hk
        split at hk
        · exact hproven known hk
        · next v hpv =>
          have hreach : v ⊆ reach w.holds c.sent :=
            Finset.Subset.trans (hv v hpv) subset_reach
          split at hk
          · cases hk
            exact hreach
          · next k hold =>
            cases hk
            exact Finset.union_subset (hproven k hold) hreach
    · cases hs

theorem Sound.push (h : s.Sound) (hs : s.push = some s') : s'.Sound := by
  rw [DocLane.push] at hs
  split at hs
  · next c known r hc hk hr =>
    obtain ⟨w, hw, hfits, hproven⟩ := h.present c hc
    split at hs
    · cases hs
      refine ⟨?_, h.complete⟩
      intro c' hc'
      cases hc'
      have hcover : reach w.holds c.sent ∪ r.doc.exportSince known =
          reach w.holds c.sent ∪ r.doc.version := by
        ext o
        simp only [Doc.exportSince, Finset.mem_union, Finset.mem_sdiff]
        constructor
        · intro ho
          exact ho.imp id And.left
        · intro ho
          by_cases hko : o ∈ known
          · exact .inl (hproven known hk hko)
          · exact ho.imp id fun hv => ⟨hv, hko⟩
      refine ⟨w, hw, hfits.append_push ?_, ?_⟩
      · rw [hcover]
        exact (hfits.reach_closed w.closed).union r.doc.closed
      · intro known' hk'
        show known' ⊆ reach w.holds (c.sent ++ [.docPush (r.doc.exportSince known)])
        rw [reach_append_push]
        exact Finset.Subset.trans (hproven known' hk') Finset.subset_union_left
    · cases hs
  · cases hs

variable [DecidableEq W]

theorem setWindow_self (i : W) (w : Option (Window Op)) : (s.setWindow i w).windows i = w :=
  if_pos rfl

theorem setWindow_ne {i j : W} (w : Option (Window Op)) (h : j ≠ i) :
    (s.setWindow i w).windows j = s.windows j :=
  if_neg h

theorem Complete.setWindow (h : s.Complete) {i : W} {w : Window Op} (hw : w.quarantined = false) :
    (s.setWindow i (some w)).Complete := by
  intro j w' hj
  by_cases hij : j = i
  · rw [hij, setWindow_self] at hj
    cases hj
    exact hw
  · rw [setWindow_ne _ hij] at hj
    exact h j w' hj

theorem Sound.openWindow {i : W} {pushes : Bool} (h : s.Sound) :
    ((s.setWindow i (some .blank)).onHello i false pushes).Sound where
  present := by
    intro c hc
    cases hc
    refine ⟨.blank, setWindow_self i _, trivial, ?_⟩
    intro known hk
    cases hk
  complete := h.complete.setWindow rfl

theorem Sound.deliver (h : s.Sound) (hs : s.deliver = some s') : s'.Sound := by
  rw [DocLane.deliver] at hs
  split at hs
  · cases hs
  · next c hc =>
    obtain ⟨w, hw, hfits, hproven⟩ := h.present c hc
    split at hs
    · next content rest w' hsent hw' =>
      rw [hw] at hw'
      cases hw'
      cases hs
      rw [hsent] at hfits hproven
      refine ⟨?_, h.complete.setWindow (h.complete c.window w hw)⟩
      intro c' hc'
      cases hc'
      exact ⟨w.read content, setWindow_self _ _, hfits, hproven⟩
    · next u rest w' hsent hw' =>
      rw [hw] at hw'
      cases hw'
      cases hs
      rw [hsent] at hfits hproven
      have hwhole : absorb w.holds u = w.holds ∪ u :=
        absorb_eq hfits.1 Finset.subset_union_left Finset.subset_union_right
          (Finset.Subset.refl _)
      have htakes : (w.applyRemote u).quarantined = false := by
        show (w.quarantined || !decide (u ⊆ absorb w.holds u)) = false
        rw [hwhole, h.complete c.window w hw, decide_eq_true Finset.subset_union_right]
        rfl
      refine ⟨?_, h.complete.setWindow htakes⟩
      intro c' hc'
      cases hc'
      refine ⟨w.applyRemote u, setWindow_self _ _, ?_, ?_⟩
      · show Fits (absorb w.holds u) rest
        rw [hwhole]
        exact hfits.2
      · intro known hk
        show known ⊆ reach (absorb w.holds u) rest
        rw [hwhole]
        exact hproven known hk
    · cases hs

theorem Sound.edit {i : W} {w w' : Window Op} {o : Op} (h : s.Sound) (hw : s.windows i = some w)
    (he : w.edit o = some w') : (s.setWindow i (some w')).Sound := by
  rw [Window.edit] at he
  split at he
  · next hdeps =>
    cases he
    refine ⟨?_, h.complete.setWindow (h.complete i w hw)⟩
    intro c (hc : s.conn = some c)
    obtain ⟨v, hv, hfits, hproven⟩ := h.present c hc
    by_cases hi : c.window = i
    · rw [hi, hw] at hv
      cases hv
      refine ⟨_, by rw [hi]; exact setWindow_self _ _, ?_, ?_⟩
      · show Fits (insert o w.holds) c.sent
        have hgrow := hfits.grow (w.closed.insert hdeps)
        rwa [Finset.union_eq_right.mpr (Finset.subset_insert o w.holds)] at hgrow
      · intro known hk
        show known ⊆ reach (insert o w.holds) c.sent
        have hgrow : reach w.holds c.sent ⊆ reach (w.holds ∪ insert o w.holds) c.sent :=
          reach_grow
        rw [Finset.union_eq_right.mpr (Finset.subset_insert o w.holds)] at hgrow
        exact Finset.Subset.trans (hproven known hk) hgrow
    · exact ⟨v, by rw [setWindow_ne _ hi]; exact hv, hfits, hproven⟩
  · cases he

theorem Sound.close (h : s.Sound) (i : W) :
    ({ s.setWindow i none with
      conn := if s.conn.any fun c => decide (c.window = i) then none else s.conn } :
      DocLane Op W).Sound where
  present := by
    intro c (hc : (if s.conn.any fun c => decide (c.window = i) then none else s.conn) = some c)
    split at hc
    · cases hc
    · next hother =>
      obtain ⟨w, hw, hfits, hproven⟩ := h.present c hc
      have hne : c.window ≠ i := by
        intro he
        apply hother
        rw [hc]
        exact decide_eq_true he
      exact ⟨w, by rw [← hw]; exact setWindow_ne _ hne, hfits, hproven⟩
  complete := by
    intro j w (hj : (if j = i then none else s.windows j) = some w)
    split at hj
    · cases hj
    · exact h.complete j w hj

end Steps

/-! ## Whole runs -/

section Runs

variable {s s' : DocLane Op W}

theorem sound_start : ({} : DocLane Op W).Sound :=
  Sound.off fun i w hw => by cases hw

variable [Authored Op] [DecidableEq W]

theorem Sound.next {e : LaneEvent Op W} (h : s.Sound) (hok : s.Orderly e)
    (hs : s.next e = some s') : s'.Sound := by
  cases e with
  | openWindow i pushes =>
    rw [DocLane.next] at hs
    split at hs
    · cases hs
      exact h.openWindow
    · cases hs
  | resume i pushes =>
    rw [DocLane.next] at hs
    split at hs
    · next hi =>
      cases hs
      exact h.resume hi.2 hok
    · cases hs
  | get => exact h.get hs
  | put payload rest => exact h.put hs
  | push => exact h.push hs
  | deliver => exact h.deliver hs
  | edit i o =>
    obtain ⟨w, hw, hs⟩ := bind_eq_some_iff.mp hs
    obtain ⟨w', he, rfl⟩ := map_eq_some_iff.mp hs
    exact h.edit hw he
  | peerMerged rest =>
    cases hs
    refine ⟨?_, h.complete⟩
    intro c hc
    obtain ⟨w, hw, hfits, hproven⟩ := h.present c hc
    exact ⟨w, hw, hfits, hproven⟩
  | drop =>
    rw [DocLane.next] at hs
    split at hs
    · cases hs
      exact Sound.off h.complete
    · cases hs
  | close i =>
    cases hs
    exact h.close i

/-- While every window that comes back holds what is proven, the proof stays at or below what the
window on the lane holds, and every push is applied whole; and where one comes back that does
not, the proof is above it at once. -/
theorem pushes_complete (h : (laneMachine : Machine (DocLane Op W) _).Reaches Orderly s) :
    (s.Proven ∧ s.Complete) ∧ ∀ i pushes s', s.next (.resume i pushes) = some s' →
      (s'.Proven ↔ s.Orderly (.resume i pushes)) := by
  have hs : s.Sound := h.invariant sound_start fun _ _ _ hs hok hn => hs.next hok hn
  refine ⟨⟨hs.isProven, hs.complete⟩, ?_⟩
  intro i pushes s' hn
  constructor
  · intro hproven w hw known hk
    rw [DocLane.next] at hn
    split at hn
    · cases hn
      exact hproven _ w known rfl (Option.mem_toList.mp hw) (Option.mem_toList.mp hk)
    · cases hn
  · exact fun hok => (hs.next hok hn).isProven

end Runs

/-! ## Runs -/

instance : Authored Stroke where
  earlier := fun _ => ∅
  earlier_subset := fun _ _ => Finset.empty_subset _

def resting (version : Finset Stroke) (closed : Closed version) (journalEntries : Nat) :
    AtRestDoc Stroke where
  doc :=
    { root := ∅
      version := version
      pending := ∅
      root_closed := closed_empty
      closed := closed
      rooted := Finset.empty_subset _
      waits := fun o ho => absurd ho (Finset.notMem_empty o) }
  journalEntries := journalEntries
  hosted := true

theorem closed_root : Closed ({.root} : Finset Stroke) := by decide

theorem closed_strokes : Closed ({.root, .near, .gap, .far} : Finset Stroke) := by decide

def atRoot : AtRestDoc Stroke := resting {.root} closed_root 0

def atGap : AtRestDoc Stroke := resting {.root, .gap} (by decide) 1

def atFar : AtRestDoc Stroke := resting {.root, .gap, .far} (by decide) 2

def atAll : AtRestDoc Stroke := resting {.root, .near, .gap, .far} closed_strokes 3

def alternating : List (LaneEvent Stroke Bool) :=
  [.peerMerged atRoot, .openWindow true true, .get, .deliver, .drop,
    .peerMerged atGap, .openWindow false true, .get, .deliver,
    .close false]

def quarantines (s : DocLane Stroke Bool) (i : Bool) : Bool :=
  (s.windows i).any fun w => w.quarantined

/-- The first window comes back under the proof of the second, and the next stroke a peer makes
is pushed without its base. -/
theorem push_without_base :
    ∃ s, (laneMachine : Machine (DocLane Stroke Bool) _).Reachable s ∧ ¬s.Complete := by
  obtain ⟨s, hs, hp⟩ := Machine.exists_of_run (M := laneMachine) (fun s => quarantines s true)
    (alternating ++ [.resume true true,
      .peerMerged atFar, .push, .deliver]) (by decide)
  refine ⟨s, hs, fun hc => ?_⟩
  obtain ⟨w, hw, hq⟩ := Option.any_eq_true _ _ |>.mp hp
  rw [hc true w hw] at hq
  cases hq

/-- A window drops, edits and comes back; what a peer merged meanwhile is pushed to it. -/
theorem pushes_complete_resumed :
    ∃ s : DocLane Stroke Bool, s.Proven ∧ s.Complete ∧
      (s.windows true).map (·.holds) = some {.root, .near, .gap, .far} := by
  obtain ⟨s, hs, hp⟩ := Machine.exists_of_orderly_run
    (M := (laneMachine : Machine (DocLane Stroke Bool) _)) Orderly
    (fun s => decide ((s.windows true).map (·.holds) = some {.root, .near, .gap, .far}))
    [.peerMerged atRoot, .openWindow true true, .get, .deliver, .drop,
      .edit true .near, .peerMerged atFar,
      .resume true true, .put (.update {.near}) (some atAll), .push, .deliver] (by decide)
  obtain ⟨⟨hproven, hcomplete⟩, -⟩ := pushes_complete hs
  exact ⟨s, hproven, hcomplete, of_decide_eq_true hp⟩

end DocLane

end VibeField.Fieldd
