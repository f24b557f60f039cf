import VibeField.Base.Machine

/-!
# The epoch fence

A compaction or a re-bootstrap replaces the base of a canvas and moves it to a new epoch.  An
update is appended only at the epoch it was composed against.  A window declares none: the
service says for it the epoch of the last read it served for the canvas, and moves that along
when the canvas re-bootstraps under an open window that holds the whole new root.
-/

namespace VibeField.Fieldd

open Option

variable {W : Type}

inductive Composer (W : Type) where
  | window (i : W)
  | peer
  deriving DecidableEq, Repr

/-- An update in the journal: the epoch it was composed at and that of the manifest it went
into. -/
structure Appended (W : Type) where
  composer : Composer W
  composedAt : Nat
  appendedAt : Nat
  deriving DecidableEq, Repr

structure FencedWindow where
  readAt : Option Nat := none
  deriving DecidableEq, Repr

def FencedWindow.basis (w : FencedWindow) : Nat := w.readAt.getD 0

structure FenceConn (W : Type) where
  window : W
  /-- the read HELLO took is still to be served -/
  frozen : Bool

/-- `baseEpoch` is the registry's, `current` that of the stored revision. -/
structure EpochFence (W : Type) where
  baseEpoch : Nat
  current : Option Nat := none
  servedEpoch : Option Nat := none
  conn : Option (FenceConn W) := none
  windows : W → Option FencedWindow := fun _ => none
  journal : List (Appended W) := []

namespace EpochFence

def setWindow [DecidableEq W] (s : EpochFence W) (i : W) (w : Option FencedWindow) :
    EpochFence W :=
  { s with windows := fun j => if j = i then w else s.windows j }

def readDocForWindow (s : EpochFence W) : EpochFence W :=
  { s with servedEpoch := s.current.or s.servedEpoch }

def assertEpoch (baseEpoch : Nat) : Option Nat → Bool
  | none => baseEpoch == 0
  | some declared => declared == baseEpoch

section Steps

variable [DecidableEq W]

def openWindow (s : EpochFence W) (i : W) : Option (EpochFence W) :=
  if s.conn.isNone ∧ (s.windows i).isNone then
    some { (s.setWindow i (some { readAt := s.current })).readDocForWindow with
      conn := some { window := i, frozen := s.current.isSome } }
  else none

def resume (s : EpochFence W) (i : W) : Option (EpochFence W) :=
  if s.conn.isNone ∧ (s.windows i).isSome then
    some { s with conn := some { window := i, frozen := false } }
  else none

def get (s : EpochFence W) (serves : Bool) : Option (EpochFence W) :=
  s.conn.map fun c =>
    let s' := { s with conn := some { c with frozen := false } }
    if c.frozen then s'
    else if serves ∧ s.current.isSome then
      s'.readDocForWindow.setWindow c.window (some { readAt := s.current })
    else s'.readDocForWindow

/-- `writeUpdateNow` for a window: what it declares, else what its document was last served. -/
def putUpdate (s : EpochFence W) (declared : Option Nat) : Option (EpochFence W) :=
  match s.conn with
  | none => none
  | some c =>
    match s.windows c.window, s.current with
    | some w, some current =>
      if assertEpoch s.baseEpoch (declared.or s.servedEpoch) then
        some { s with
          conn := some { c with frozen := false }
          journal := s.journal ++
            [{ composer := .window c.window
               composedAt := declared.getD w.basis
               appendedAt := current }] }
      else some { s with conn := some { c with frozen := false } }
    | _, _ => none

def putCheckpoint (s : EpochFence W) : Option (EpochFence W) :=
  s.conn.map fun c =>
    { s with current := some s.baseEpoch, conn := some { c with frozen := false } }

def peerUpdate (s : EpochFence W) (declared : Nat) : EpochFence W :=
  match s.current with
  | none => s
  | some current =>
    if declared = s.baseEpoch then
      { s with journal := s.journal ++
          [{ composer := .peer, composedAt := declared, appendedAt := current }] }
    else s

def bootstrap (s : EpochFence W) (declared : Nat) (commits : Bool) : Option (EpochFence W) :=
  if s.current.isNone ∧ s.baseEpoch ≤ declared then
    some { s with baseEpoch := declared, current := if commits then some declared else none }
  else none

def compact (s : EpochFence W) (late : Bool) : Option (EpochFence W) :=
  if s.conn.isNone ∧ s.current.isSome then
    some { s with
      current := some (s.baseEpoch + 1)
      baseEpoch := if late then s.baseEpoch else s.baseEpoch + 1 }
  else none

/-- `rebootstrapNow`: under an open window only when its floor covers the new root, and then
the window's epoch moves with the canvas. -/
def rebootstrap (s : EpochFence W) (declared : Nat) (late floorCovers : Bool) :
    Option (EpochFence W) :=
  if s.current.isSome ∧ s.baseEpoch < declared then
    match s.conn with
    | none =>
      some { s with
        current := some declared
        baseEpoch := if late then s.baseEpoch else declared }
    | some c =>
      if !floorCovers then some s
      else if late then some { s with current := some declared }
      else
        some { s.setWindow c.window (some { readAt := some declared }) with
          current := some declared
          baseEpoch := declared
          servedEpoch := some declared }
  else none

def drop (s : EpochFence W) : Option (EpochFence W) :=
  if s.conn.isSome then some { s with conn := none } else none

def restart (s : EpochFence W) : EpochFence W :=
  { s with
    conn := none
    servedEpoch := none
    baseEpoch := s.current.getD s.baseEpoch }

end Steps

end EpochFence

inductive FenceEvent (W : Type) where
  | openWindow (i : W)
  | resume (i : W)
  | get (serves : Bool)
  | putUpdate (declared : Option Nat)
  | putCheckpoint
  | peerUpdate (declared : Nat)
  | bootstrap (declared : Nat) (commits : Bool)
  | compact (late : Bool)
  | rebootstrap (declared : Nat) (late floorCovers : Bool)
  | drop
  | close (i : W)
  | restart

section Runs

variable [DecidableEq W]

def EpochFence.next (s : EpochFence W) : FenceEvent W → Option (EpochFence W)
  | .openWindow i => s.openWindow i
  | .resume i => s.resume i
  | .get serves => s.get serves
  | .putUpdate declared => s.putUpdate declared
  | .putCheckpoint => s.putCheckpoint
  | .peerUpdate declared => some (s.peerUpdate declared)
  | .bootstrap declared commits => s.bootstrap declared commits
  | .compact late => s.compact late
  | .rebootstrap declared late floorCovers => s.rebootstrap declared late floorCovers
  | .drop => s.drop
  | .close i =>
    if s.conn.all fun c => decide (c.window ≠ i) then some (s.setWindow i none) else none
  | .restart => some s.restart

def fenceMachine (baseEpoch : Nat) : Machine (EpochFence W) (FenceEvent W) :=
  { start := { baseEpoch := baseEpoch }, next := EpochFence.next }

end Runs

namespace EpochFence

/-- Every update in the journal went in at the epoch it was composed at. -/
def Fenced (s : EpochFence W) : Prop := ∀ r ∈ s.journal, r.composedAt = r.appendedAt

def Orderly (s : EpochFence W) : FenceEvent W → Prop
  | .resume i => ∀ w ∈ (s.windows i).toList, ∀ e ∈ s.servedEpoch.toList, w.basis = e
  | .get serves => ∀ c ∈ s.conn.toList, c.frozen = false → serves = false →
      ∀ w ∈ (s.windows c.window).toList, ∀ e ∈ s.current.toList, w.basis = e
  | .compact late => late = false
  | .rebootstrap _ late _ => late = false
  | _ => True

instance (s : EpochFence W) : (e : FenceEvent W) → Decidable (s.Orderly e)
  | .resume i => inferInstanceAs
      (Decidable (∀ w ∈ (s.windows i).toList, ∀ e ∈ s.servedEpoch.toList, w.basis = e))
  | .get serves => inferInstanceAs
      (Decidable (∀ c ∈ s.conn.toList, c.frozen = false → serves = false →
        ∀ w ∈ (s.windows c.window).toList, ∀ e ∈ s.current.toList, w.basis = e))
  | .compact late => inferInstanceAs (Decidable (late = false))
  | .rebootstrap _ late _ => inferInstanceAs (Decidable (late = false))
  | .openWindow _ => .isTrue trivial
  | .putUpdate _ => .isTrue trivial
  | .putCheckpoint => .isTrue trivial
  | .peerUpdate _ => .isTrue trivial
  | .bootstrap _ _ => .isTrue trivial
  | .drop => .isTrue trivial
  | .close _ => .isTrue trivial
  | .restart => .isTrue trivial

structure Sound (s : EpochFence W) : Prop where
  stored : ∀ e, s.current = some e → e = s.baseEpoch
  unread : s.current = none → s.servedEpoch = none ∧ ∀ i w, s.windows i = some w → w.readAt = none
  below : ∀ i w, s.windows i = some w → w.basis ≤ s.baseEpoch
  attributed : ∀ c, s.conn = some c → ∃ w, s.windows c.window = some w ∧
    ∀ e, s.servedEpoch = some e → w.basis = e
  fenced : s.Fenced

/-! ## Each step -/

section Steps

variable {s s' : EpochFence W}

theorem basis_of_current (h : s.Sound) {w : FencedWindow} (hw : w.readAt = s.current) :
    w.basis ≤ s.baseEpoch := by
  rw [FencedWindow.basis, hw]
  cases hc : s.current with
  | none => exact Nat.zero_le _
  | some e => exact Nat.le_of_eq (h.stored e hc)

theorem Sound.resume {i : W} (h : s.Sound) (hok : s.Orderly (.resume i))
    (hs : s.resume i = some s') : s'.Sound := by
  rw [EpochFence.resume] at hs
  split at hs
  · next hi =>
    cases hs
    refine { h with attributed := ?_ }
    intro c hc
    cases hc
    obtain ⟨w, hw⟩ := isSome_iff_exists.mp hi.2
    refine ⟨w, hw, ?_⟩
    intro e (he : s.servedEpoch = some e)
    exact hok w (mem_toList.mpr hw) e (mem_toList.mpr he)
  · cases hs

theorem composed_of_assert {c : FenceConn W} {w : FencedWindow} {current : Nat}
    {declared : Option Nat} (h : s.Sound) (hc : s.conn = some c)
    (hw : s.windows c.window = some w) (hcur : s.current = some current)
    (hpass : assertEpoch s.baseEpoch (declared.or s.servedEpoch) = true) :
    declared.getD w.basis = current := by
  rw [h.stored current hcur]
  cases declared with
  | some d => exact beq_iff_eq.mp hpass
  | none =>
    show w.basis = s.baseEpoch
    cases hs : s.servedEpoch with
    | none =>
      rw [hs] at hpass
      have hzero : s.baseEpoch = 0 := beq_iff_eq.mp hpass
      have hle := h.below c.window w hw
      omega
    | some e =>
      rw [hs] at hpass
      obtain ⟨w', hw', hattr⟩ := h.attributed c hc
      rw [hw] at hw'
      cases hw'
      exact (hattr e hs).trans (beq_iff_eq.mp hpass)

theorem Fenced.append {r : Appended W} (h : s.Fenced) (hr : r.composedAt = r.appendedAt) :
    ∀ r' ∈ s.journal ++ [r], r'.composedAt = r'.appendedAt :=
  List.forall_mem_append.mpr ⟨h, List.forall_mem_singleton.mpr hr⟩

theorem Sound.putUpdate {declared : Option Nat} (h : s.Sound)
    (hs : s.putUpdate declared = some s') : s'.Sound := by
  rw [EpochFence.putUpdate] at hs
  split at hs
  · cases hs
  · next c hc =>
    have hattr : ∀ c', some { c with frozen := false } = some c' → ∃ w,
        s.windows c'.window = some w ∧ ∀ e, s.servedEpoch = some e → w.basis = e := by
      intro c' hc'
      cases hc'
      exact h.attributed c hc
    split at hs
    · next w current hw hcur =>
      split at hs
      · next hpass =>
        cases hs
        exact ⟨h.stored, h.unread, h.below, hattr,
          h.fenced.append (composed_of_assert h hc hw hcur hpass)⟩
      · cases hs
        exact { h with attributed := hattr }
    · cases hs

theorem Sound.putCheckpoint (h : s.Sound) (hs : s.putCheckpoint = some s') : s'.Sound := by
  obtain ⟨c, hc, rfl⟩ := map_eq_some_iff.mp hs
  constructor
  case stored =>
    intro e he
    exact (some.inj he).symm
  case unread =>
    intro hcur
    cases hcur
  case below => exact h.below
  case attributed =>
    intro c' hc'
    cases hc'
    exact h.attributed c hc
  case fenced => exact h.fenced

theorem Sound.peerUpdate {declared : Nat} (h : s.Sound) : (s.peerUpdate declared).Sound := by
  rw [EpochFence.peerUpdate]
  split
  · exact h
  · next current hcur =>
    split
    · next hd =>
      have hr : declared = current := hd.trans (h.stored current hcur).symm
      exact { h with fenced := h.fenced.append hr }
    · exact h

theorem Sound.bootstrap {declared : Nat} {commits : Bool} (h : s.Sound)
    (hs : s.bootstrap declared commits = some s') : s'.Sound := by
  rw [EpochFence.bootstrap] at hs
  split at hs
  · next hg =>
    cases hs
    have hcur : s.current = none := isNone_iff_eq_none.mp hg.1
    constructor
    case stored =>
      intro e (he : (if commits then some declared else none) = some e)
      split at he
      · exact (some.inj he).symm
      · cases he
    case unread => exact fun _ => h.unread hcur
    case below => exact fun i w hw => Nat.le_trans (h.below i w hw) hg.2
    case attributed => exact h.attributed
    case fenced => exact h.fenced
  · cases hs

theorem Sound.compact {late : Bool} (h : s.Sound) (hok : s.Orderly (.compact late))
    (hs : s.compact late = some s') : s'.Sound := by
  rw [EpochFence.compact] at hs
  split at hs
  · next hg =>
    cases hs
    have hlate : late = false := hok
    subst hlate
    constructor
    case stored =>
      intro e he
      exact (some.inj he).symm
    case unread =>
      intro hcur
      cases hcur
    case below => exact fun i w hw => Nat.le_succ_of_le (h.below i w hw)
    case attributed => exact h.attributed
    case fenced => exact h.fenced
  · cases hs

theorem Sound.drop (h : s.Sound) (hs : s.drop = some s') : s'.Sound := by
  rw [EpochFence.drop] at hs
  split at hs
  · cases hs
    refine { h with attributed := ?_ }
    intro c hc
    cases hc
  · cases hs

variable [DecidableEq W]

theorem setWindow_self (i : W) (w : Option FencedWindow) : (s.setWindow i w).windows i = w :=
  if_pos rfl

theorem setWindow_ne {i j : W} (w : Option FencedWindow) (h : j ≠ i) :
    (s.setWindow i w).windows j = s.windows j :=
  if_neg h

theorem forall_setWindow {P : FencedWindow → Prop} {i : W} {w : Option FencedWindow}
    (h : ∀ j v, s.windows j = some v → P v) (hw : ∀ v, w = some v → P v) :
    ∀ j v, (s.setWindow i w).windows j = some v → P v := by
  intro j v hj
  by_cases hij : j = i
  · rw [hij, setWindow_self] at hj
    exact hw v hj
  · rw [setWindow_ne w hij] at hj
    exact h j v hj

theorem Sound.openWindow {i : W} (h : s.Sound) (hs : s.openWindow i = some s') : s'.Sound := by
  rw [EpochFence.openWindow] at hs
  split at hs
  · cases hs
    constructor
    case stored => exact h.stored
    case unread =>
      intro (hc : s.current = none)
      refine ⟨?_, forall_setWindow (h.unread hc).2 ?_⟩
      · show s.current.or s.servedEpoch = none
        rw [hc, (h.unread hc).1]
        rfl
      · intro v hv
        cases hv
        exact hc
    case below =>
      refine forall_setWindow h.below ?_
      intro v hv
      cases hv
      exact basis_of_current h rfl
    case attributed =>
      intro c hc
      cases hc
      refine ⟨{ readAt := s.current }, setWindow_self i _, ?_⟩
      intro e (he : s.current.or s.servedEpoch = some e)
      rw [FencedWindow.basis]
      cases hcur : s.current with
      | none =>
        rw [hcur, (h.unread hcur).1] at he
        cases he
      | some d =>
        rw [hcur] at he
        cases he
        rfl
    case fenced => exact h.fenced
  · cases hs

theorem Sound.get {serves : Bool} (h : s.Sound) (hok : s.Orderly (.get serves))
    (hs : s.get serves = some s') : s'.Sound := by
  obtain ⟨c, hc, hs⟩ := map_eq_some_iff.mp hs
  obtain ⟨w, hw, hattr⟩ := h.attributed c hc
  have hserved : ∀ hcur : s.current = none, s.current.or s.servedEpoch = none := by
    intro hcur
    rw [hcur, (h.unread hcur).1]
    rfl
  split at hs
  · subst hs
    refine { h with attributed := ?_ }
    intro c' hc'
    cases hc'
    exact ⟨w, hw, hattr⟩
  · next hfrozen =>
    split at hs
    · next hserves =>
      subst hs
      obtain ⟨e, he⟩ := isSome_iff_exists.mp hserves.2
      constructor
      case stored => exact h.stored
      case unread =>
        intro (hcur : s.current = none)
        rw [he] at hcur
        cases hcur
      case below =>
        refine forall_setWindow h.below ?_
        intro v hv
        cases hv
        exact basis_of_current h rfl
      case attributed =>
        intro c' hc'
        cases hc'
        refine ⟨{ readAt := s.current }, setWindow_self c.window _, ?_⟩
        intro d (hd : s.current.or s.servedEpoch = some d)
        rw [he] at hd
        cases hd
        rw [FencedWindow.basis, he]
        rfl
      case fenced => exact h.fenced
    · next hrefused =>
      subst hs
      refine { h with unread := ?unread, attributed := ?attributed }
      case unread => exact fun hcur => ⟨hserved hcur, (h.unread hcur).2⟩
      case attributed =>
        intro c' hc'
        cases hc'
        refine ⟨w, hw, ?_⟩
        intro d (hd : s.current.or s.servedEpoch = some d)
        cases hcur : s.current with
        | none =>
          rw [hcur] at hd
          exact hattr d hd
        | some e =>
          have hno : serves = false := by
            cases serves with
            | false => rfl
            | true => exact absurd ⟨rfl, by rw [hcur]; rfl⟩ hrefused
          rw [hcur] at hd
          cases hd
          exact hok c (mem_toList.mpr hc) (Bool.eq_false_iff.mpr hfrozen) hno w
            (mem_toList.mpr hw) _ (mem_toList.mpr hcur)

theorem Sound.rebootstrap {declared : Nat} {late floorCovers : Bool} (h : s.Sound)
    (hok : s.Orderly (.rebootstrap declared late floorCovers))
    (hs : s.rebootstrap declared late floorCovers = some s') : s'.Sound := by
  have hlate : late = false := hok
  subst hlate
  rw [EpochFence.rebootstrap] at hs
  split at hs
  · next hg =>
    have hle := Nat.le_of_lt hg.2
    split at hs
    · next hc =>
      cases hs
      constructor
      case stored =>
        intro e he
        exact (some.inj he).symm
      case unread =>
        intro hcur
        cases hcur
      case below => exact fun i w hw => Nat.le_trans (h.below i w hw) hle
      case attributed => exact h.attributed
      case fenced => exact h.fenced
    · next c hc =>
      split at hs
      · cases hs
        exact h
      · -- the window holds the whole new root, and moves with the canvas
        cases hs
        constructor
        case stored =>
          intro e he
          exact (some.inj he).symm
        case unread =>
          intro hcur
          cases hcur
        case below =>
          refine forall_setWindow (fun i w hw => Nat.le_trans (h.below i w hw) hle) ?_
          intro v hv
          cases hv
          exact Nat.le_refl _
        case attributed =>
          intro c' (hc' : s.conn = some c')
          rw [hc] at hc'
          cases hc'
          refine ⟨{ readAt := some declared }, setWindow_self c.window _, ?_⟩
          intro e he
          exact some.inj he
        case fenced => exact h.fenced
  · cases hs

theorem Sound.close {i : W} (h : s.Sound)
    (hi : (s.conn.all fun c => decide (c.window ≠ i)) = true) : (s.setWindow i none).Sound := by
  have hnone : ∀ P : FencedWindow → Prop, ∀ v, (none : Option FencedWindow) = some v → P v := by
    intro P v hv
    cases hv
  constructor
  case stored => exact h.stored
  case unread =>
    intro hcur
    exact ⟨(h.unread hcur).1, forall_setWindow (h.unread hcur).2 (hnone _)⟩
  case below => exact forall_setWindow h.below (hnone _)
  case attributed =>
    intro c (hc : s.conn = some c)
    obtain ⟨w, hw, hattr⟩ := h.attributed c hc
    have hne : c.window ≠ i := by
      rw [hc] at hi
      exact of_decide_eq_true hi
    exact ⟨w, by rw [setWindow_ne none hne]; exact hw, hattr⟩
  case fenced => exact h.fenced

end Steps

theorem Sound.restart {s : EpochFence W} (h : s.Sound) : s.restart.Sound := by
  have hbase : s.current.getD s.baseEpoch = s.baseEpoch := by
    cases hc : s.current with
    | none => rfl
    | some e => exact h.stored e hc
  constructor
  case stored =>
    intro e he
    exact (h.stored e he).trans hbase.symm
  case unread => exact fun hcur => ⟨rfl, (h.unread hcur).2⟩
  case below =>
    intro i w hw
    show w.basis ≤ s.current.getD s.baseEpoch
    rw [hbase]
    exact h.below i w hw
  case attributed =>
    intro c hc
    cases hc
  case fenced => exact h.fenced

/-! ## Whole runs -/

theorem sound_start (baseEpoch : Nat) : ({ baseEpoch := baseEpoch } : EpochFence W).Sound where
  stored := by
    intro e he
    cases he
  unread := by
    refine fun _ => ⟨rfl, ?_⟩
    intro i w hw
    cases hw
  below := by
    intro i w hw
    cases hw
  attributed := by
    intro c hc
    cases hc
  fenced := by
    intro r hr
    cases hr

section Runs

variable [DecidableEq W] {s s' : EpochFence W}

theorem Sound.next {e : FenceEvent W} (h : s.Sound) (hok : s.Orderly e)
    (hs : s.next e = some s') : s'.Sound := by
  cases e with
  | openWindow i => exact h.openWindow hs
  | resume i => exact h.resume hok hs
  | get serves => exact h.get hok hs
  | putUpdate declared => exact h.putUpdate hs
  | putCheckpoint => exact h.putCheckpoint hs
  | peerUpdate declared =>
    cases hs
    exact h.peerUpdate
  | bootstrap declared commits => exact h.bootstrap hs
  | compact late => exact h.compact hok hs
  | rebootstrap declared late floorCovers => exact h.rebootstrap hok hs
  | drop => exact h.drop hs
  | close i =>
    rw [EpochFence.next] at hs
    split at hs
    · next hi =>
      cases hs
      exact h.close hi
    · cases hs
  | restart =>
    cases hs
    exact h.restart

end Runs

/-! ## Runs -/

def stray (s : EpochFence Bool) : Bool := s.journal.any fun r => r.composedAt != r.appendedAt

theorem not_fenced_of_stray {s : EpochFence Bool} (h : stray s = true) : ¬s.Fenced := by
  intro hf
  obtain ⟨r, hr, hne⟩ := List.any_eq_true.mp h
  exact bne_iff_ne.mp hne (hf r hr)

end EpochFence

end VibeField.Fieldd
