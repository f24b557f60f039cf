import VibeField.Base.Causal
import VibeField.Base.Machine

/-!
# At rest and in the host

A canvas in Loro custody is held twice: as the checkpoint and the journal that `current.json`
names, and as a document of the host.  Whoever writes imports into the host first and commits
what the journal is to keep; the host is dropped where the commit fails, and rebuilt from disk
on its next use.

A revision is its contents here: which files hold them, and that they are there, is said of
the commits themselves.  What a window or a peer sends is any set of operations; whether
Loro throws on it, whether a read fails and how a commit ends is the event's.
-/

namespace VibeField.Fieldd

open Causal List Option

variable {Op : Type} [DecidableEq Op] [Causal Op]

/-- What `current.json` names; the base may have been removed under it. -/
structure Revision (Op : Type) [DecidableEq Op] [Causal Op] where
  base : Snapshot Op
  journal : List (Finset Op)
  missing : Bool := false

def Revision.replay (r : Revision Op) : Option (Doc Op) :=
  if r.missing then none else some (r.journal.foldl Doc.receive (Doc.ofSnapshot r.base))

def Revision.append (r : Revision Op) (u : Finset Op) : Revision Op :=
  { r with journal := r.journal ++ [u] }

/-- How a commit ends: before `current.json` is renamed, after that with its directory not
synced, with the registry not persisted, or well. -/
inductive CommitEnd where
  | early
  | late
  | unregistered
  | done
  deriving DecidableEq, Repr

/-- `acked` are the operations applied and acknowledged, `lost` those a re-bootstrap has
counted as lost. -/
structure AtRest (Op : Type) [DecidableEq Op] [Causal Op] where
  disk : Option (Revision Op) := none
  host : Option (Doc Op) := none
  acked : Finset Op := ∅
  lost : Finset Op := ∅

/-! ## The re-bootstrap's carry -/

structure Rebased (Op : Type) [DecidableEq Op] [Causal Op] where
  doc : Doc Op
  residual : Option (Finset Op)
  lost : Finset Op

section Rebase

variable {Peer : Type} [DecidableEq Peer] (peer : Op → Peer)
  (loads : Snapshot Op → List (Finset Op) → Bool)

def load (payload : Snapshot Op) (extra : List (Finset Op)) : Option (Doc Op) :=
  if loads payload extra then some (extra.foldl Doc.receive (Doc.ofSnapshot payload)) else none

def salvage (payload : Snapshot Op) (beyond : Finset Op) (kept : List (Finset Op)) (p : Peer) :
    List (Finset Op) :=
  let span := beyond.filter fun o => peer o = p
  if span = ∅ then kept
  else if loads payload (kept ++ [span]) then kept ++ [span] else kept

def carry (payload : Snapshot Op) (beyond : Finset Op) (peers : List Peer) : Doc Op :=
  match load loads payload [beyond] with
  | some carried => carried
  | none =>
    (load loads payload (peers.foldl (salvage peer loads payload beyond) [])).getD
      (Doc.ofSnapshot payload)

def rebaseOnto (payload : Snapshot Op) (old : Option (Doc Op)) (peers : List Peer) :
    Rebased Op :=
  match old with
  | none => { doc := .ofSnapshot payload, residual := none, lost := ∅ }
  | some old =>
    if old.version ⊆ payload.version then
      { doc := .ofSnapshot payload, residual := none, lost := ∅ }
    else
      let carried := carry peer loads payload (old.exportSince payload.version) peers
      let lost := old.version \ carried.version
      if carried.version ⊆ payload.version then
        { doc := .ofSnapshot payload, residual := none, lost := lost }
      else
        let residual := carried.exportSince payload.version
        match load loads payload [residual] with
        | none => { doc := .ofSnapshot payload, residual := none, lost := lost }
        | some clean => { doc := clean, residual := some residual, lost := lost }

end Rebase

/-! ## The writes of the chain -/

namespace AtRest

def hostedNow (s : AtRest Op) (reads : Bool) : AtRest Op :=
  match s.host with
  | some _ => s
  | none => { s with host := if reads then s.disk.bind (·.replay) else none }

def commit (s : AtRest Op) (next : Revision Op) (host : Option (Doc Op)) (acks : Finset Op) :
    CommitEnd → AtRest Op
  | .early => { s with host := none }
  | .late => { s with disk := some next, host := none }
  | .unregistered => { s with disk := some next, host := host }
  | .done => { s with disk := some next, host := host, acked := s.acked ∪ acks }

def foldCheckpoint (prior : Option (Doc Op)) (b : Snapshot Op) : Revision Op × Doc Op :=
  let hosted := (prior.getD Doc.empty).receiveSnapshot b
  let compacted := prior.any fun d => decide (d.root ≠ ∅)
  if compacted ∧ b.root = ∅ then ({ base := hosted.snapshot, journal := [] }, hosted)
  else if hosted.version ⊆ b.version then ({ base := b, journal := [] }, hosted)
  else ({ base := b, journal := [hosted.exportSince b.version] }, hosted)

def writeDocNow (s : AtRest Op) (b : Snapshot Op) (reads throws : Bool) (commitEnd : CommitEnd) :
    Option (AtRest Op) :=
  let s := s.hostedNow reads
  if throws then
    if s.host.any fun d => decide (d.root ≠ ∅) then some { s with host := none } else none
  else
    let folded := foldCheckpoint s.host b
    some (s.commit folded.1 (some folded.2) b.version commitEnd)

/-- `writeUpdateNow`, past the fence and the retry check. -/
def writeUpdateNow (s : AtRest Op) (u : Finset Op) (reads throws : Bool)
    (commitEnd : CommitEnd) : AtRest Op :=
  match s.disk with
  | none => s
  | some current =>
    let s := s.hostedNow reads
    match s.host with
    | none => s.commit (current.append u) none u commitEnd
    | some hosted =>
      if throws then { s with host := none }
      else
        let imported := hosted.receive u
        if ¬u ⊆ imported.version then { s with host := some imported }
        else if imported.version = hosted.version then
          { s with host := some imported, acked := s.acked ∪ u }
        else s.commit (current.append u) (some imported) u commitEnd

def mergeNow (s : AtRest Op) (hosted imported : Doc Op) (throws rereads : Bool)
    (commitEnd : CommitEnd) : AtRest Op :=
  if throws then { s with host := none }
  else if imported.version = hosted.version then { s with host := some imported }
  else
    match s.disk with
    | none => { s with host := none }
    | some current =>
      if rereads then
        s.commit (current.append (imported.exportSince hosted.version)) (some imported)
          (imported.exportSince hosted.version) commitEnd
      else { s with host := some imported }

def applyUpdate (s : AtRest Op) (u : Finset Op) (reads readsAgain throws rereads : Bool)
    (commitEnd : CommitEnd) : AtRest Op :=
  match s.disk with
  | none => s
  | some current =>
    let s := s.hostedNow reads
    match s.host with
    | some hosted => s.mergeNow hosted (hosted.receive u) throws rereads commitEnd
    | none => if u ∈ current.journal then s else s.writeUpdateNow u readsAgain throws commitEnd

def applySnapshot (s : AtRest Op) (b : Snapshot Op) (reads throws rereads : Bool)
    (commitEnd : CommitEnd) : Option (AtRest Op) :=
  match s.disk with
  | none => s.writeDocNow b reads throws commitEnd
  | some _ =>
    let s := s.hostedNow reads
    match s.host with
    | some hosted =>
      some (s.mergeNow hosted (hosted.receiveSnapshot b) throws rereads commitEnd)
    | none => some s

/-- `compactNow`, past the watermark and the trial: `b` is a base at the host's version.  One
that fails removes the base it wrote. -/
def compactNow (s : AtRest Op) (b : Snapshot Op) (reads : Bool) (commitEnd : CommitEnd) :
    Option (AtRest Op) :=
  let s := s.hostedNow reads
  match s.host with
  | none => some s
  | some hosted =>
    if hosted.pending = ∅ ∧ b.version = hosted.version then
      match commitEnd with
      | .early => some s
      | .late => some { s with disk := some { base := b, journal := [], missing := true } }
      | _ =>
        some { s with
          disk := some { base := b, journal := [] }
          host := some (.ofSnapshot b) }
    else none

section Rebootstrap

variable {Peer : Type} [DecidableEq Peer] (peer : Op → Peer)
  (loads : Snapshot Op → List (Finset Op) → Bool)

def rebootstrapNow (s : AtRest Op) (payload : Snapshot Op) (reads : Bool) (peers : List Peer)
    (commitEnd : CommitEnd) : AtRest Op :=
  let s := s.hostedNow reads
  let rebased := rebaseOnto peer loads payload s.host peers
  let next : Revision Op := { base := payload, journal := rebased.residual.toList }
  match commitEnd with
  | .early => s
  | .late => { s with disk := some next }
  | _ =>
    { s with
      disk := some next
      host := some rebased.doc
      lost := s.lost ∪ rebased.lost }

end Rebootstrap

end AtRest

inductive AtRestEvent (Op Peer : Type) [DecidableEq Op] [Causal Op] where
  | load (reads : Bool)
  | evict
  | checkpoint (b : Snapshot Op) (reads throws : Bool) (commitEnd : CommitEnd)
  | update (u : Finset Op) (reads throws : Bool) (commitEnd : CommitEnd)
  | peerUpdate (u : Finset Op) (reads readsAgain throws rereads : Bool) (commitEnd : CommitEnd)
  | peerSnapshot (b : Snapshot Op) (reads throws rereads : Bool) (commitEnd : CommitEnd)
  | compact (b : Snapshot Op) (reads : Bool) (commitEnd : CommitEnd)
  | rebootstrap (payload : Snapshot Op) (reads : Bool) (peers : List Peer)
      (commitEnd : CommitEnd)

section Runs

variable {Peer : Type} [DecidableEq Peer] (peer : Op → Peer)
  (loads : Snapshot Op → List (Finset Op) → Bool)

def AtRest.next (s : AtRest Op) : AtRestEvent Op Peer → Option (AtRest Op)
  | .load reads => some (s.hostedNow reads)
  | .evict =>
    if s.host.any fun d => decide (d.pending = ∅) then some { s with host := none } else none
  | .checkpoint b reads throws commitEnd => s.writeDocNow b reads throws commitEnd
  | .update u reads throws commitEnd => some (s.writeUpdateNow u reads throws commitEnd)
  | .peerUpdate u reads readsAgain throws rereads commitEnd =>
    some (s.applyUpdate u reads readsAgain throws rereads commitEnd)
  | .peerSnapshot b reads throws rereads commitEnd =>
    s.applySnapshot b reads throws rereads commitEnd
  | .compact b reads commitEnd => s.compactNow b reads commitEnd
  | .rebootstrap payload reads peers commitEnd =>
    if s.disk.isSome then
      some (s.rebootstrapNow peer loads payload reads peers commitEnd)
    else none

def atRestMachine : Machine (AtRest Op) (AtRestEvent Op Peer) :=
  { start := {}, next := AtRest.next peer loads }

end Runs

/-! ## What holds of every state -/

namespace AtRest

/-- A hosted canvas holds what the replay of its files holds, which leaves nothing pending. -/
def Agrees (s : AtRest Op) : Prop :=
  ∀ h, s.host = some h → ∃ r d, s.disk = some r ∧ r.replay = some d ∧ d.pending = ∅ ∧
    h.version = d.version

/-- What was acknowledged is in the replay, in its history or folded into its base, or has been
counted as lost. -/
def Retains (s : AtRest Op) : Prop :=
  ∀ o ∈ s.acked, o ∈ s.lost ∨ ∃ r d, s.disk = some r ∧ r.replay = some d ∧ o ∈ d.version

def replays (s : AtRest Op) : List (Doc Op) := (s.disk.bind (·.replay)).toList

/-! ### The runs in which both hold -/

/-- A checkpoint's root is held by the host it meets; one that meets no host has all there is
on disk. -/
def FoldOk (s : AtRest Op) (b : Snapshot Op) (reads : Bool) : Prop :=
  (∀ h ∈ (s.hostedNow reads).host.toList, h.version = ∅ ∨ b.root ⊆ h.version) ∧
    ((s.hostedNow reads).host.isNone → ∀ d ∈ s.replays, d.version ⊆ b.version)

instance (s : AtRest Op) (b : Snapshot Op) (reads : Bool) : Decidable (s.FoldOk b reads) :=
  inferInstanceAs (Decidable ((∀ h ∈ (s.hostedNow reads).host.toList, _ ∨ _) ∧
    (_ → ∀ d ∈ s.replays, _)))

/-- The host takes all of an update and nothing else with it, or nothing at all; one appended
without a host leaves nothing pending in the replay. -/
def AppendOk (s : AtRest Op) (u : Finset Op) (reads throws : Bool) : Prop :=
  (∀ h ∈ (s.hostedNow reads).host.toList, throws = false →
      (u ⊆ (h.receive u).version → (h.receive u).version ⊆ h.version ∪ u) ∧
        (¬u ⊆ (h.receive u).version → (h.receive u).version = h.version)) ∧
    ((s.hostedNow reads).host.isNone → ∀ d ∈ s.replays, u ⊆ (d.receive u).version)

instance (s : AtRest Op) (u : Finset Op) (reads throws : Bool) :
    Decidable (s.AppendOk u reads throws) :=
  inferInstanceAs (Decidable ((∀ h ∈ (s.hostedNow reads).host.toList, _ → (_ → _) ∧ (_ → _)) ∧
    (_ → ∀ d ∈ s.replays, _)))

/-- The manifest is read again where the import changed the host. -/
def MergeOk (hosted imported : Doc Op) (throws rereads : Bool) : Prop :=
  throws = true ∨ rereads = true ∨ imported.version = hosted.version

instance (hosted imported : Doc Op) (throws rereads : Bool) :
    Decidable (MergeOk hosted imported throws rereads) :=
  inferInstanceAs (Decidable (_ ∨ _ ∨ _))

section Rebootstrap

variable {Peer : Type} [DecidableEq Peer] (peer : Op → Peer)
  (loads : Snapshot Op → List (Finset Op) → Bool)

/-- What was carried over loads again on the base alone. -/
def CleanLoads (payload : Snapshot Op) (old : Option (Doc Op)) (peers : List Peer) : Prop :=
  ∀ h ∈ old.toList,
    let carried := carry peer loads payload (h.exportSince payload.version) peers
    carried.version ⊆ payload.version ∨
      loads payload [carried.exportSince payload.version] = true

instance (payload : Snapshot Op) (old : Option (Doc Op)) (peers : List Peer) :
    Decidable (CleanLoads peer loads payload old peers) :=
  inferInstanceAs (Decidable (∀ h ∈ old.toList, _ ∨ _))

/-- The old copy is read, what it carries loads, and a commit whose last sync fails has changed
nothing. -/
def RebootstrapOk (s : AtRest Op) (payload : Snapshot Op) (reads : Bool) (peers : List Peer)
    (commitEnd : CommitEnd) : Prop :=
  let old := (s.hostedNow reads).host
  (old.isNone → ∀ d ∈ s.replays, d.version ⊆ payload.version) ∧
    CleanLoads peer loads payload old peers ∧
      (commitEnd = .late → ∀ h ∈ old.toList,
        (rebaseOnto peer loads payload old peers).doc.version = h.version)

instance (s : AtRest Op) (payload : Snapshot Op) (reads : Bool) (peers : List Peer)
    (commitEnd : CommitEnd) : Decidable (s.RebootstrapOk peer loads payload reads peers commitEnd) :=
  inferInstanceAs (Decidable ((_ → ∀ d ∈ s.replays, _) ∧ CleanLoads _ _ _ _ _ ∧
    (_ → ∀ h ∈ (s.hostedNow reads).host.toList, _)))

def Orderly (s : AtRest Op) : AtRestEvent Op Peer → Prop
  | .load _ => True
  | .evict => True
  | .checkpoint b reads throws _ => throws = true ∨ s.FoldOk b reads
  | .update u reads throws _ => s.AppendOk u reads throws
  | .peerUpdate u reads readsAgain throws rereads _ =>
    (∀ h ∈ (s.hostedNow reads).host.toList, MergeOk h (h.receive u) throws rereads) ∧
      ((s.hostedNow reads).host.isNone → (∀ r ∈ s.disk.toList, u ∉ r.journal) →
        s.AppendOk u readsAgain throws)
  | .peerSnapshot b reads throws rereads _ =>
    ∀ h ∈ (s.hostedNow reads).host.toList, MergeOk h (h.receiveSnapshot b) throws rereads
  | .compact _ _ commitEnd => commitEnd ≠ .late
  | .rebootstrap payload reads peers commitEnd =>
    s.RebootstrapOk peer loads payload reads peers commitEnd

instance (s : AtRest Op) : (e : AtRestEvent Op Peer) → Decidable (s.Orderly peer loads e)
  | .load _ => .isTrue trivial
  | .evict => .isTrue trivial
  | .checkpoint b reads throws _ =>
    inferInstanceAs (Decidable (throws = true ∨ s.FoldOk b reads))
  | .update u reads throws _ => inferInstanceAs (Decidable (s.AppendOk u reads throws))
  | .peerUpdate u reads readsAgain throws rereads _ =>
    inferInstanceAs (Decidable ((∀ h ∈ (s.hostedNow reads).host.toList,
      MergeOk h (h.receive u) throws rereads) ∧
        (_ → (∀ r ∈ s.disk.toList, u ∉ r.journal) → s.AppendOk u readsAgain throws)))
  | .peerSnapshot b reads throws rereads _ =>
    inferInstanceAs (Decidable (∀ h ∈ (s.hostedNow reads).host.toList,
      MergeOk h (h.receiveSnapshot b) throws rereads))
  | .compact _ _ commitEnd => inferInstanceAs (Decidable (commitEnd ≠ .late))
  | .rebootstrap payload reads peers commitEnd =>
    inferInstanceAs (Decidable (s.RebootstrapOk peer loads payload reads peers commitEnd))

end Rebootstrap

end AtRest

/-! ## What a replay holds -/

/-- The replay leaves nothing pending, and these are the operations it holds. -/
def Revision.Holds (r : Revision Op) (v : Finset Op) : Prop :=
  ∃ d, r.replay = some d ∧ d.pending = ∅ ∧ d.version = v

namespace Revision

variable {r : Revision Op} {v c u : Finset Op} {b : Snapshot Op}

theorem holds_base : ({ base := b, journal := [] } : Revision Op).Holds b.version :=
  ⟨Doc.ofSnapshot b, rfl, rfl, rfl⟩

theorem replay_append {d : Doc Op} (h : r.replay = some d) :
    (r.append u).replay = some (d.receive u) := by
  rw [replay] at h
  split at h
  · cases h
  · next hm =>
    have hd := some.inj h
    show (if r.missing then none else _) = _
    rw [if_neg hm, append, foldl_append, hd]
    rfl

theorem Holds.append_all (h : r.Holds v) (hu : u ⊆ absorb v u) :
    (r.append u).Holds (absorb v u) := by
  obtain ⟨d, hd, hp, rfl⟩ := h
  have hv : (d.receive u).version = absorb d.version u := by
    rw [Doc.version_receive, hp, Finset.empty_union]
  refine ⟨d.receive u, replay_append hd, ?_, hv⟩
  apply Doc.pending_receive_eq_empty hp
  rw [hv]
  exact hu

theorem Holds.append_sdiff (h : r.Holds v) (hc : Closed c) (hsub : v ⊆ c) :
    (r.append (c \ v)).Holds c := by
  have hv : absorb v (c \ v) = c := absorb_sdiff hc hsub
  have happ := h.append_all (u := c \ v) (by rw [hv]; exact Finset.sdiff_subset)
  rwa [hv] at happ

end Revision

namespace AtRest

/-- What every state of an orderly run satisfies. -/
structure Sound (s : AtRest Op) : Prop where
  absent : s.disk = none → s.host = none ∧ s.acked = ∅
  held : ∀ r, s.disk = some r → ∃ v, r.Holds v ∧
    (∀ h, s.host = some h → h.version = v) ∧ s.acked ⊆ s.lost ∪ v

variable {b : Snapshot Op} {commitEnd : CommitEnd} {h : Doc Op} {reads rereads throws : Bool}
  {s s' : AtRest Op}

theorem Sound.agrees (hs : s.Sound) : s.Agrees := by
  intro h hh
  cases hr : s.disk with
  | none => exact absurd hh (by rw [(hs.absent hr).1]; exact some_ne_none h ∘ Eq.symm)
  | some r =>
    obtain ⟨v, ⟨d, hd, hp, rfl⟩, hv, -⟩ := hs.held r hr
    exact ⟨r, d, rfl, hd, hp, hv h hh⟩

theorem Sound.retains (hs : s.Sound) : s.Retains := by
  intro o ho
  cases hr : s.disk with
  | none =>
    rw [(hs.absent hr).2] at ho
    exact absurd ho (Finset.notMem_empty o)
  | some r =>
    obtain ⟨v, ⟨d, hd, -, rfl⟩, -, hacked⟩ := hs.held r hr
    rcases Finset.mem_union.mp (hacked ho) with hl | hv
    · exact .inl hl
    · exact .inr ⟨r, d, rfl, hd, hv⟩

theorem hostedNow_disk (s : AtRest Op) (reads : Bool) : (s.hostedNow reads).disk = s.disk := by
  rw [hostedNow]
  split <;> rfl

theorem hostedNow_acked (s : AtRest Op) (reads : Bool) :
    (s.hostedNow reads).acked = s.acked := by
  rw [hostedNow]
  split <;> rfl

theorem hostedNow_lost (s : AtRest Op) (reads : Bool) : (s.hostedNow reads).lost = s.lost := by
  rw [hostedNow]
  split <;> rfl

theorem hostedNow_of_none (h : (s.hostedNow reads).host = none) : s.hostedNow reads = s := by
  rw [hostedNow] at h ⊢
  split
  · rfl
  · next hh =>
    rw [hh] at h
    have hnone : (if reads then s.disk.bind (·.replay) else none) = none := h
    rw [hnone, ← hh]

theorem Sound.hostedNow (hs : s.Sound) (reads : Bool) : (s.hostedNow reads).Sound := by
  rw [AtRest.hostedNow]
  split
  · exact hs
  · constructor
    case absent =>
      intro (hr : s.disk = none)
      refine ⟨?_, (hs.absent hr).2⟩
      show (if reads then s.disk.bind (·.replay) else none) = none
      rw [hr]
      split <;> rfl
    case held =>
      intro r (hr : s.disk = some r)
      obtain ⟨v, ⟨d, hd, hp, rfl⟩, -, hacked⟩ := hs.held r hr
      refine ⟨d.version, ⟨d, hd, hp, rfl⟩, ?_, hacked⟩
      intro h (hh : (if reads then s.disk.bind (·.replay) else none) = some h)
      split at hh
      · rw [hr, bind_some, hd] at hh
        rw [some.inj hh]
      · cases hh

theorem Sound.drop (hs : s.Sound) : ({ s with host := none } : AtRest Op).Sound where
  absent := fun hr => ⟨rfl, (hs.absent hr).2⟩
  held := by
    intro r hr
    obtain ⟨v, hv, -, hacked⟩ := hs.held r hr
    refine ⟨v, hv, ?_, hacked⟩
    intro h hh
    cases hh

theorem Sound.swap {h h' : Doc Op} {acks : Finset Op} (hs : s.Sound) (hh : s.host = some h)
    (hv : h'.version = h.version) (hacks : acks ⊆ h.version) :
    ({ s with host := some h', acked := s.acked ∪ acks } : AtRest Op).Sound where
  absent := by
    intro hr
    rw [(hs.absent hr).1] at hh
    cases hh
  held := by
    intro r hr
    obtain ⟨v, hr', hhost, hacked⟩ := hs.held r hr
    have hhv := hhost h hh
    refine ⟨v, hr', ?_, ?_⟩
    · intro h'' hh''
      cases hh''
      exact hv.trans hhv
    · rw [hhv] at hacks
      exact Finset.union_subset hacked (Finset.Subset.trans hacks Finset.subset_union_right)

theorem Sound.swap' {h h' : Doc Op} (hs : s.Sound) (hh : s.host = some h)
    (hv : h'.version = h.version) : ({ s with host := some h' } : AtRest Op).Sound := by
  have hswap := hs.swap hh hv (Finset.empty_subset h.version)
  rwa [Finset.union_empty] at hswap

theorem Sound.commit {next : Revision Op} {host : Option (Doc Op)} {v acks : Finset Op}
    (hs : s.Sound) (hnext : next.Holds v) (hhost : ∀ h, host = some h → h.version = v)
    (hacked : s.acked ⊆ s.lost ∪ v) (hacks : acks ⊆ v) :
    (s.commit next host acks commitEnd).Sound := by
  cases commitEnd with
  | early => exact hs.drop
  | late =>
    refine ⟨?_, ?_⟩
    · intro hr
      cases hr
    · intro r hr
      cases hr
      refine ⟨v, hnext, ?_, hacked⟩
      intro h hh
      cases hh
  | unregistered =>
    refine ⟨?_, ?_⟩
    · intro hr
      cases hr
    · intro r hr
      cases hr
      exact ⟨v, hnext, hhost, hacked⟩
  | done =>
    refine ⟨?_, ?_⟩
    · intro hr
      cases hr
    · intro r hr
      cases hr
      exact ⟨v, hnext, hhost, Finset.union_subset hacked
        (Finset.Subset.trans hacks Finset.subset_union_right)⟩

/-! ## Checkpoints -/

theorem holds_foldCheckpoint {prior : Option (Doc Op)}
    (hb : b.version ⊆ ((prior.getD Doc.empty).receiveSnapshot b).version) :
    (foldCheckpoint prior b).1.Holds (foldCheckpoint prior b).2.version := by
  rw [foldCheckpoint]
  split
  · exact Revision.holds_base
  · split
    · next hsub =>
      have heq := Finset.Subset.antisymm hsub hb
      rw [heq]
      exact Revision.holds_base
    · exact Revision.holds_base.append_sdiff
        ((prior.getD Doc.empty).receiveSnapshot b).closed hb

theorem foldCheckpoint_snd (prior : Option (Doc Op)) (b : Snapshot Op) :
    (foldCheckpoint prior b).2 = (prior.getD Doc.empty).receiveSnapshot b := by
  rw [foldCheckpoint]
  split
  · rfl
  · split <;> rfl

theorem isNone_of_absent (hs : s.Sound) (hr : s.disk = none) (reads : Bool) :
    (s.hostedNow reads).host = none := by
  have hd : (s.hostedNow reads).disk = none := (s.hostedNow_disk reads).trans hr
  exact ((hs.hostedNow reads).absent hd).1

theorem Sound.acked_subset {w : Finset Op} (hs : s.Sound) (hw : ∀ d ∈ s.replays, d.version ⊆ w) :
    s.acked ⊆ s.lost ∪ w := by
  cases hr : s.disk with
  | none =>
    rw [(hs.absent hr).2]
    exact Finset.empty_subset _
  | some r =>
    obtain ⟨v, ⟨d, hd, -, rfl⟩, -, hacked⟩ := hs.held r hr
    have hmem : d ∈ s.replays := by
      rw [replays, hr, bind_some, hd]
      exact mem_singleton.mpr rfl
    exact Finset.Subset.trans hacked (Finset.union_subset_union_right (hw d hmem))

theorem Sound.acked_host (hs : s.Sound) (hh : s.host = some h) : s.acked ⊆ s.lost ∪ h.version := by
  cases hr : s.disk with
  | none =>
    rw [(hs.absent hr).1] at hh
    cases hh
  | some r =>
    obtain ⟨v, -, hhost, hacked⟩ := hs.held r hr
    rwa [hhost h hh]

theorem Sound.holds_host {r : Revision Op} (hs : s.Sound) (hh : s.host = some h)
    (hr : s.disk = some r) : r.Holds h.version := by
  obtain ⟨v, hv, hhost, -⟩ := hs.held r hr
  rwa [hhost h hh]

theorem Sound.writeDocNow (hs : s.Sound) (hok : throws = true ∨ s.FoldOk b reads)
    (hn : s.writeDocNow b reads throws commitEnd = some s') : s'.Sound := by
  have hs1 := hs.hostedNow reads
  rw [AtRest.writeDocNow] at hn
  dsimp only at hn
  split at hn
  · split at hn
    · cases hn
      exact hs1.drop
    · cases hn
  · next hthrows =>
    cases hn
    obtain ⟨hroot, hall⟩ := hok.resolve_left hthrows
    have hprior : ((s.hostedNow reads).host.getD Doc.empty).version = ∅ ∨
        b.root ⊆ ((s.hostedNow reads).host.getD Doc.empty).version := by
      cases hh : (s.hostedNow reads).host with
      | none => exact .inl rfl
      | some h => exact hroot h (by rw [hh]; exact mem_singleton.mpr rfl)
    have hb := Doc.snapshot_subset hprior
    have hacked : (s.hostedNow reads).acked ⊆ (s.hostedNow reads).lost ∪
        ((s.hostedNow reads).host.getD Doc.empty |>.receiveSnapshot b).version := by
      cases hh : (s.hostedNow reads).host with
      | none =>
        rw [hh] at hb
        rw [hostedNow_acked, hostedNow_lost]
        refine hs.acked_subset fun d hd => ?_
        exact Finset.Subset.trans (hall (by rw [hh]; rfl) d hd) hb
      | some h =>
        exact Finset.Subset.trans (hs1.acked_host hh)
          (Finset.union_subset_union_right Doc.subset_receiveSnapshot)
    have hholds := holds_foldCheckpoint hb
    rw [← foldCheckpoint_snd] at hacked hb
    refine hs1.commit hholds ?_ hacked hb
    intro h hh
    rw [← some.inj hh]

/-! ## Updates -/

theorem Sound.writeUpdateNow {u : Finset Op} (hs : s.Sound) (hok : s.AppendOk u reads throws) :
    (s.writeUpdateNow u reads throws commitEnd).Sound := by
  rw [AtRest.writeUpdateNow]
  split
  · exact hs
  · next current hr =>
    have hs1 := hs.hostedNow reads
    have hr1 : (s.hostedNow reads).disk = some current := (s.hostedNow_disk reads).trans hr
    obtain ⟨hhosted, hraw⟩ := hok
    dsimp only
    split
    · next hh =>
      obtain ⟨v, ⟨d, hd, hp, rfl⟩, -, hacked⟩ := hs1.held current hr1
      have hmem : d ∈ s.replays := by
        rw [replays, hr, bind_some, hd]
        exact mem_singleton.mpr rfl
      have hu : u ⊆ absorb d.version u := by
        have := hraw (by rw [hh]; rfl) d hmem
        rwa [Doc.version_receive, hp, Finset.empty_union] at this
      refine hs1.commit (Revision.Holds.append_all ⟨d, hd, hp, rfl⟩ hu) ?_ ?_ hu
      · intro h hcontra
        cases hcontra
      · exact Finset.Subset.trans hacked (Finset.union_subset_union_right subset_absorb)
    · next h hh =>
      split
      · exact hs1.drop
      · next hthrows =>
        obtain ⟨htakes, hleaves⟩ := hhosted h (by rw [hh]; exact mem_singleton.mpr rfl)
          (Bool.eq_false_iff.mpr hthrows)
        split
        · next hpending => exact hs1.swap' hh (hleaves hpending)
        · next htaken =>
          have htaken := not_not.mp htaken
          split
          · next hsame =>
            refine hs1.swap hh hsame ?_
            rw [← hsame]
            exact htaken
          · -- the journal gets exactly what came, and the replay all of it
            have hwhole : absorb h.version u = (h.receive u).version :=
              absorb_eq (h.receive u).closed Doc.subset_receive htaken (htakes htaken)
            have hholds : (current.append u).Holds (h.receive u).version := by
              rw [← hwhole]
              refine (hs1.holds_host hh hr1).append_all ?_
              rw [hwhole]
              exact htaken
            refine hs1.commit hholds ?_ ?_ htaken
            · intro h' hh'
              rw [← some.inj hh']
            · exact Finset.Subset.trans (hs1.acked_host hh)
                (Finset.union_subset_union_right Doc.subset_receive)

/-! ## What peers send -/

theorem Sound.mergeNow {hosted imported : Doc Op} (hs : s.Sound) (hh : s.host = some hosted)
    (hsub : hosted.version ⊆ imported.version) (hok : MergeOk hosted imported throws rereads) :
    (s.mergeNow hosted imported throws rereads commitEnd).Sound := by
  rw [AtRest.mergeNow]
  split
  · exact hs.drop
  · next hthrows =>
    split
    · next hsame => exact hs.swap' hh hsame
    · next hchanged =>
      split
      · exact hs.drop
      · next current hr =>
        split
        · refine hs.commit ((hs.holds_host hh hr).append_sdiff imported.closed hsub) ?_ ?_
            Finset.sdiff_subset
          · intro h' hh'
            rw [← some.inj hh']
          · exact Finset.Subset.trans (hs.acked_host hh) (Finset.union_subset_union_right hsub)
        · next hread =>
          rcases hok with hok | hok | hok
          · exact absurd hok hthrows
          · exact absurd hok hread
          · exact absurd hok hchanged

theorem Sound.applyUpdate {u : Finset Op} {reads readsAgain throws rereads : Bool}
    (hs : s.Sound)
    (hmerge : ∀ h ∈ (s.hostedNow reads).host.toList, MergeOk h (h.receive u) throws rereads)
    (happend : (s.hostedNow reads).host.isNone → (∀ r ∈ s.disk.toList, u ∉ r.journal) →
      s.AppendOk u readsAgain throws) :
    (s.applyUpdate u reads readsAgain throws rereads commitEnd).Sound := by
  rw [AtRest.applyUpdate]
  split
  · exact hs
  · next current hr =>
    have hs1 := hs.hostedNow reads
    dsimp only
    split
    · next h hh =>
      exact hs1.mergeNow hh Doc.subset_receive
        (hmerge h (by rw [hh]; exact mem_singleton.mpr rfl))
    · next hh =>
      split
      · exact hs1
      · next hnew =>
        rw [hostedNow_of_none hh]
        refine hs.writeUpdateNow (happend (by rw [hh]; rfl) fun r hmem => ?_)
        rw [hr] at hmem
        rw [mem_singleton.mp hmem]
        exact hnew

theorem Sound.applySnapshot (hs : s.Sound)
    (hmerge : ∀ h ∈ (s.hostedNow reads).host.toList, MergeOk h (h.receiveSnapshot b) throws rereads)
    (hn : s.applySnapshot b reads throws rereads commitEnd = some s') : s'.Sound := by
  rw [AtRest.applySnapshot] at hn
  split at hn
  · next hr =>
    have hh := isNone_of_absent hs hr reads
    refine hs.writeDocNow (.inr ⟨?_, ?_⟩) hn
    · intro h hmem
      rw [hh] at hmem
      cases hmem
    · intro _ d hd
      rw [replays, hr] at hd
      cases hd
  · have hs1 := hs.hostedNow reads
    dsimp only at hn
    split at hn
    · next h hh =>
      cases hn
      exact hs1.mergeNow hh Doc.subset_receiveSnapshot
        (hmerge h (by rw [hh]; exact mem_singleton.mpr rfl))
    · cases hn
      exact hs1

/-! ## Compactions and re-bootstraps -/

theorem Sound.compactNow (hs : s.Sound) (hok : commitEnd ≠ .late)
    (hn : s.compactNow b reads commitEnd = some s') : s'.Sound := by
  have hs1 := hs.hostedNow reads
  have hnext : ∀ h, (s.hostedNow reads).host = some h → b.version = h.version →
      ({ s.hostedNow reads with
          disk := some { base := b, journal := [] }
          host := some (.ofSnapshot b) } : AtRest Op).Sound := by
    intro h hh hb
    refine ⟨?_, ?_⟩
    · intro hr
      cases hr
    · intro r hr
      cases hr
      refine ⟨b.version, Revision.holds_base, ?_, ?_⟩
      · intro h' hh'
        rw [← some.inj hh']
        rfl
      · rw [hb]
        exact hs1.acked_host hh
  unfold AtRest.compactNow at hn
  dsimp only at hn
  split at hn
  · cases hn
    exact hs1
  · next h hh =>
    split at hn
    · next hb =>
      cases commitEnd with
      | early =>
        cases hn
        exact hs1
      | late => exact absurd rfl hok
      | unregistered =>
        cases hn
        exact hnext h hh hb.2
      | done =>
        cases hn
        exact hnext h hh hb.2
    · cases hn

section Rebootstrap

variable {Peer : Type} [DecidableEq Peer] {peer : Op → Peer}
  {loads : Snapshot Op → List (Finset Op) → Bool}

theorem subset_foldl_receive (extra : List (Finset Op)) (d : Doc Op) :
    d.version ⊆ (extra.foldl Doc.receive d).version := by
  induction extra generalizing d with
  | nil => exact Finset.Subset.refl _
  | cons u rest ih => exact Finset.Subset.trans Doc.subset_receive (ih (d.receive u))

variable {payload : Snapshot Op}

theorem subset_load {extra : List (Finset Op)} {d : Doc Op}
    (h : load loads payload extra = some d) : payload.version ⊆ d.version := by
  rw [load] at h
  split at h
  · rw [← some.inj h]
    exact subset_foldl_receive extra (Doc.ofSnapshot payload)
  · cases h

theorem subset_carry (payload : Snapshot Op) (beyond : Finset Op) (peers : List Peer) :
    payload.version ⊆ (carry peer loads payload beyond peers).version := by
  rw [carry]
  split
  · next hl => exact subset_load hl
  · cases hl : load loads payload (peers.foldl (salvage peer loads payload beyond) []) with
    | none => exact Finset.Subset.refl _
    | some d => exact subset_load hl

theorem holds_rebaseOnto (payload : Snapshot Op) (old : Option (Doc Op)) (peers : List Peer) :
    ({ base := payload
       journal := (rebaseOnto peer loads payload old peers).residual.toList } :
      Revision Op).Holds (rebaseOnto peer loads payload old peers).doc.version := by
  cases old with
  | none => exact Revision.holds_base
  | some h =>
    generalize hr : rebaseOnto peer loads payload (some h) peers = r
    rw [rebaseOnto.eq_def] at hr
    dsimp only at hr
    split at hr
    · subst hr
      exact Revision.holds_base
    · split at hr
      · subst hr
        exact Revision.holds_base
      · split at hr
        · subst hr
          exact Revision.holds_base
        · next clean hl =>
          subst hr
          have hsub : payload.version ⊆
              (carry peer loads payload (h.exportSince payload.version) peers).version :=
            subset_carry payload (h.exportSince payload.version) peers
          have hclosed := (carry peer loads payload (h.exportSince payload.version) peers).closed
          rw [load] at hl
          split at hl
          · rw [← some.inj hl]
            refine ⟨_, rfl, ?_, rfl⟩
            exact Doc.pending_receive_sdiff (d := Doc.ofSnapshot payload) rfl hclosed hsub
          · cases hl

theorem subset_rebaseOnto {h : Doc Op} {peers : List Peer}
    (hok : CleanLoads peer loads payload (some h) peers) :
    h.version ⊆ (rebaseOnto peer loads payload (some h) peers).lost ∪
      (rebaseOnto peer loads payload (some h) peers).doc.version := by
  have hcarried : ∀ w,
      (carry peer loads payload (h.exportSince payload.version) peers).version ⊆ w →
      h.version ⊆ (h.version \
        (carry peer loads payload (h.exportSince payload.version) peers).version) ∪ w := by
    intro w hw o ho
    by_cases hc : o ∈ (carry peer loads payload (h.exportSince payload.version) peers).version
    · exact Finset.mem_union_right _ (hw hc)
    · exact Finset.mem_union_left _ (Finset.mem_sdiff.mpr ⟨ho, hc⟩)
  generalize hr : rebaseOnto peer loads payload (some h) peers = r
  rw [rebaseOnto.eq_def] at hr
  dsimp only at hr
  split at hr
  · next hsub =>
    subst hr
    exact Finset.Subset.trans hsub Finset.subset_union_right
  · split at hr
    · next hsub =>
      subst hr
      exact hcarried _ hsub
    · next hmore =>
      have hloads := (hok h (mem_singleton.mpr rfl)).resolve_left hmore
      rw [load, if_pos hloads] at hr
      subst hr
      apply hcarried
      have hv := Doc.version_receive_sdiff (d := Doc.ofSnapshot payload) rfl
        (carry peer loads payload (h.exportSince payload.version) peers).closed
        (subset_carry payload (h.exportSince payload.version) peers)
      exact hv.symm.subset

theorem Sound.rebootstrapNow {s : AtRest Op} {reads : Bool}
    {peers : List Peer} {commitEnd : CommitEnd} (hs : s.Sound)
    (hok : s.RebootstrapOk peer loads payload reads peers commitEnd) :
    (s.rebootstrapNow peer loads payload reads peers commitEnd).Sound := by
  have hs1 := hs.hostedNow reads
  obtain ⟨hread, hclean, hlate⟩ := hok
  have hholds := @holds_rebaseOnto _ _ _ _ _ peer loads payload (s.hostedNow reads).host peers
  have hacked : (s.hostedNow reads).acked ⊆
      ((s.hostedNow reads).lost ∪
        (rebaseOnto peer loads payload (s.hostedNow reads).host peers).lost) ∪
      (rebaseOnto peer loads payload (s.hostedNow reads).host peers).doc.version := by
    cases hh : (s.hostedNow reads).host with
    | none =>
      rw [hostedNow_acked, hostedNow_lost]
      have := hs.acked_subset (hread (by rw [hh]; rfl))
      exact Finset.Subset.trans this
        (Finset.union_subset_union_left Finset.subset_union_left)
    | some h =>
      rw [hh] at hclean
      have hold := subset_rebaseOnto hclean
      refine Finset.Subset.trans (hs1.acked_host hh) ?_
      rw [Finset.union_assoc]
      exact Finset.union_subset_union_right hold
  have hdone : ({ s.hostedNow reads with
      disk := some
        { base := payload
          journal := (rebaseOnto peer loads payload (s.hostedNow reads).host peers).residual.toList }
      host := some (rebaseOnto peer loads payload (s.hostedNow reads).host peers).doc
      lost := (s.hostedNow reads).lost ∪
        (rebaseOnto peer loads payload (s.hostedNow reads).host peers).lost } : AtRest Op).Sound := by
    refine ⟨?_, ?_⟩
    · intro hr
      cases hr
    · intro r hr
      cases hr
      refine ⟨_, hholds, ?_, hacked⟩
      intro h hh
      rw [← some.inj hh]
  cases commitEnd with
  | early => exact hs1
  | late =>
    refine ⟨?_, ?_⟩
    · intro hr
      cases hr
    · intro r hr
      cases hr
      refine ⟨_, hholds, ?_, ?_⟩
      · intro h (hh : (s.hostedNow reads).host = some h)
        exact (hlate rfl h (by rw [hh]; exact mem_singleton.mpr rfl)).symm
      · show (s.hostedNow reads).acked ⊆ (s.hostedNow reads).lost ∪ _
        cases hh : (s.hostedNow reads).host with
        | none =>
          rw [hh] at hacked
          exact hacked.trans (Finset.union_subset_union_left (by
            rw [rebaseOnto, Finset.union_empty]))
        | some h =>
          rw [← hh, hlate rfl h (by rw [hh]; exact mem_singleton.mpr rfl)]
          exact hs1.acked_host hh
  | unregistered => exact hdone
  | done => exact hdone

end Rebootstrap

/-! ## Whole runs -/

section Runs

variable {Peer : Type} [DecidableEq Peer] {peer : Op → Peer}
  {loads : Snapshot Op → List (Finset Op) → Bool}

theorem sound_start : ({} : AtRest Op).Sound where
  absent := fun _ => ⟨rfl, rfl⟩
  held := by
    intro r hr
    cases hr

theorem Sound.next {s s' : AtRest Op} {e : AtRestEvent Op Peer} (hs : s.Sound)
    (hok : s.Orderly peer loads e) (hn : s.next peer loads e = some s') : s'.Sound := by
  cases e with
  | load reads =>
    cases hn
    exact hs.hostedNow reads
  | evict =>
    rw [AtRest.next] at hn
    split at hn
    · cases hn
      exact hs.drop
    · cases hn
  | checkpoint b reads throws commitEnd => exact hs.writeDocNow hok hn
  | update u reads throws commitEnd =>
    cases hn
    exact hs.writeUpdateNow hok
  | peerUpdate u reads readsAgain throws rereads commitEnd =>
    cases hn
    exact hs.applyUpdate hok.1 hok.2
  | peerSnapshot b reads throws rereads commitEnd => exact hs.applySnapshot hok hn
  | compact b reads commitEnd => exact hs.compactNow hok hn
  | rebootstrap payload reads peers commitEnd =>
    rw [AtRest.next] at hn
    split at hn
    · cases hn
      exact hs.rebootstrapNow hok
    · cases hn

theorem sound_of_reaches {s : AtRest Op}
    (h : (atRestMachine peer loads).Reaches (Orderly peer loads) s) : s.Sound :=
  h.invariant sound_start fun _ _ _ hs hok hn => hs.next hok hn

/-- In every run whose imports and reads are as `Orderly` says, the host and the files hold the
same, and what was acknowledged stays. -/
theorem at_rest_is_host {s : AtRest Op}
    (h : (atRestMachine peer loads).Reaches (Orderly peer loads) s) : s.Agrees ∧ s.Retains :=
  ⟨(sound_of_reaches h).agrees, (sound_of_reaches h).retains⟩

end Runs

end AtRest

/-! ## Runs -/

/-- `near` and `gap` are made on `root`, `far` on `gap`. -/
inductive Stroke where
  | root
  | near
  | gap
  | far
  deriving DecidableEq, Repr

instance : Causal Stroke where
  deps
    | .root => []
    | .near => [.root]
    | .gap => [.root]
    | .far => [.gap]
  rank
    | .root => 0
    | .near => 1
    | .gap => 1
    | .far => 2
  rank_lt := by
    intro o d
    cases o <;> simp +contextual

namespace AtRest

def rooted : Snapshot Stroke where
  root := ∅
  version := {.root}
  root_closed := by decide
  closed := by decide
  rooted := by decide

def trimmed : Snapshot Stroke where
  root := {.root}
  version := {.root, .near, .gap, .far}
  root_closed := by decide
  closed := by decide
  rooted := by decide

def strokes : Machine (AtRest Stroke) (AtRestEvent Stroke Unit) :=
  atRestMachine (fun _ => ()) fun _ _ => true

def parted (s : AtRest Stroke) : Bool :=
  s.host.any fun h => s.replays.any fun d => decide (h.version ≠ d.version)

def forgotten (s : AtRest Stroke) (o : Stroke) : Bool :=
  decide (o ∈ s.acked) && decide (o ∉ s.lost) && s.replays.all fun d => decide (o ∉ d.version)

theorem mem_replays {s : AtRest Op} {r : Revision Op} {d : Doc Op} (hr : s.disk = some r)
    (hd : r.replay = some d) : d ∈ s.replays := by
  rw [replays, hr, bind_some, hd]
  exact mem_singleton.mpr rfl

theorem not_agrees_of_parted {s : AtRest Stroke} (h : parted s = true) : ¬s.Agrees := by
  intro ha
  obtain ⟨d, hh, hany⟩ := Option.any_eq_true _ _ |>.mp h
  obtain ⟨d', hd', hne⟩ := List.any_eq_true.mp hany
  obtain ⟨r, d'', hr, hd'', -, hv⟩ := ha d hh
  have hmem : d' = d'' := by
    rw [replays, hr, bind_some, hd''] at hd'
    exact mem_singleton.mp hd'
  rw [hmem] at hne
  exact of_decide_eq_true hne hv

theorem not_retains_of_forgotten {s : AtRest Stroke} {o : Stroke} (h : forgotten s o = true) :
    ¬s.Retains := by
  intro hr
  obtain ⟨hleft, hall⟩ := Bool.and_eq_true_iff.mp h
  obtain ⟨hacked, hlost⟩ := Bool.and_eq_true_iff.mp hleft
  rcases hr o (of_decide_eq_true hacked) with hl | ⟨r, d, hdisk, hd, ho⟩
  · exact of_decide_eq_true hlost hl
  · exact of_decide_eq_true (List.all_eq_true.mp hall d (mem_replays hdisk hd)) ho

/-- An update only part of which has its base is refused with that part in the host; and a
checkpoint written while the files cannot be read takes the journal with it. -/
theorem host_leaves_disk :
    (∃ s, strokes.Reachable s ∧ ¬s.Agrees) ∧ ∃ s, strokes.Reachable s ∧ ¬s.Retains := by
  constructor
  · obtain ⟨s, hs, hp⟩ := Machine.exists_of_run (M := strokes) parted
      [.checkpoint rooted true false .done, .update {.near, .far} true false .done] (by decide)
    exact ⟨s, hs, not_agrees_of_parted hp⟩
  · obtain ⟨s, hs, hp⟩ := Machine.exists_of_run (M := strokes) (fun s => forgotten s .near)
      [.checkpoint rooted true false .done, .peerUpdate {.near} true true false true .done, .evict,
        .checkpoint rooted false false .done] (by decide)
    exact ⟨s, hs, not_retains_of_forgotten hp⟩

/-- A peer's record waits for its base, which comes by way of a window's checkpoint; the canvas
is compacted and evicted. -/
theorem at_rest_is_host_compacted :
    ∃ s : AtRest Stroke, (s.Agrees ∧ s.Retains) ∧ s.acked = {.root, .near, .gap, .far} := by
  obtain ⟨s, hs, hp⟩ := Machine.exists_of_orderly_run (M := strokes)
    (Orderly (fun _ => ()) fun _ _ => true)
    (fun s => decide (s.acked = {.root, .near, .gap, .far}))
    [.checkpoint rooted true false .done, .peerUpdate {.far} true true false true .done,
      .peerUpdate {.near, .gap} true true false true .done, .compact trimmed true .done, .evict,
      .load true] (by decide)
  exact ⟨s, at_rest_is_host hs, of_decide_eq_true hp⟩

end AtRest

end VibeField.Fieldd
