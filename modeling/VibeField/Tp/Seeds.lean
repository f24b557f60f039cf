import VibeField.Base.Sums
import VibeField.Tp.Lanes
import VibeField.Tp.SeedSlot

/-!
# Seed slots

The pumps of one frames connection share its writer and its seed slots.  A seed's slot
rides the seed's end to the writer, which drops it once the end is written.

A `SeedLine` is the connection: the pumps, what they put on the writer's channel, the
writer's lanes, and the free slots.
-/

namespace VibeField.Tp

open ScenePump List Option Dict

def Outbound.release : Outbound → Option Nat
  | .bulk _ _ release => release
  | _ => none

/-- Something put on the channel of a frames leg's writer: a pump's unit, with whether
it carries the pump's slot, or a unit of no pump. -/
inductive Post where
  | unit (pump : Nat) (u : Envelope) (slot : Bool)
  | text (text : String)
  | echo (bytes : List UInt8)
  | close (code : Nat) (reason : String)
  deriving DecidableEq, Repr

def Post.outbound (encode : Envelope → List UInt8) : Post → Outbound
  | .unit pump u slot =>
    match u.body with
    | .trf1Frame _ _ => .binary (encode u) (some u.activationId)
    | _ => .bulk (encode u) u.activationId (if slot then some pump else none)
  | .text t => .text t
  | .echo bytes => .binary bytes none
  | .close code reason => .close code reason

structure SeedLine where
  free : Nat
  pumps : Dict Nat Slotted := ∅
  /-- everything put on the channel, in order -/
  posts : List Post := []
  /-- the writer's lanes, with what it took off the channel and what it has begun to write -/
  line : Line := {}
  writing : Option (Queued Outbound) := none
  closed : Bool := false

namespace SeedLine

inductive Event where
  | spawn (pump : Nat) (start : PumpStart)
  | feed (pump : Nat) (event : Feed.Event)
  | pump (pump : Nat) (step : Pump.Step)
  | text (text : String)
  | echo (bytes : List UInt8)
  | close (code : Nat) (reason : String)
  /-- the writer takes the next unit off the channel -/
  | pull
  | pick
  | written (ok : Bool)
  | exit

section

variable (encode : Envelope → List UInt8)

def inbox (s : SeedLine) : List Post := s.posts.drop s.line.lanes.arrivals

def releasing (s : SeedLine) : List Nat :=
  if s.closed then []
  else
    s.writing.toList.filterMap (fun q => q.unit.release) ++
      s.line.lanes.queued.filterMap (fun q => q.unit.release) ++
      s.inbox.filterMap fun p => (p.outbound encode).release

def gone (s : SeedLine) : SeedLine :=
  { s with free := s.free + (s.releasing encode).length, writing := none, closed := true }

def post (s : SeedLine) (p : Post) : Option SeedLine :=
  if s.closed then none else some { s with posts := s.posts ++ [p] }

def next (s : SeedLine) : Event → Option SeedLine
  | .spawn pump start =>
    match s.pumps.lookup pump with
    | some _ => none
    | none => some { s with pumps := s.pumps.insert pump (.spawn start) }
  | .feed pump event =>
    match s.pumps.lookup pump with
    | none => none
    | some q =>
      (q.feed.next event).map fun feed =>
        { s with pumps := s.pumps.modify pump fun _ => { q with feed := feed } }
  | .pump pump step =>
    match s.pumps.lookup pump with
    | none => none
    | some q =>
      (q.step s.free s.closed step).map fun r =>
        { s with
          free := r.free
          pumps := s.pumps.modify pump fun _ => r.pump
          posts := s.posts ++ (r.posted.map fun u => Post.unit pump u.1 u.2).toList }
  | .text text => s.post (.text text)
  | .echo bytes => s.post (.echo bytes)
  | .close code reason => s.post (.close code reason)
  | .pull =>
    match s.inbox.head? with
    | some p =>
      if s.closed then none else some { s with line := s.line.enqueue (p.outbound encode) }
    | none => none
  | .pick =>
    if s.closed ∨ s.writing.isSome then none
    else
      match s.line.lanes.leaving with
      | some q => some { s with line := s.line.pick, writing := some q }
      | none => none
  | .written ok =>
    match s.writing with
    | none => none
    | some q =>
      let s := { s with writing := none, free := s.free + q.unit.release.isSome.toNat }
      match q.unit, ok with
      | .close _ _, _ => some (s.gone encode)
      | _, true => some s
      | _, false => some (s.gone encode)
  | .exit => if s.closed then none else some (s.gone encode)

def machine (maxSeeds : Nat) : Machine SeedLine Event where
  start := { free := maxSeeds }
  next := next encode

end

/-! ## Seeds on the wire -/

def wire (s : SeedLine) : List Post :=
  s.line.left.filterMap fun q => s.posts[q.arrival - 1]?

def Post.seed : Post → Option (Nat × String)
  | .unit pump u _ => u.seed.map fun transferId => (pump, transferId)
  | _ => none

def Post.finishes : Post → Option (Nat × String)
  | .unit pump u _ => u.finishes.map fun transferId => (pump, transferId)
  | _ => none

def begun (s : SeedLine) : List (Nat × String) :=
  (s.wire.filterMap Post.seed).filter fun x => !(s.wire.filterMap Post.finishes).contains x

def givenUp (s : SeedLine) (pump : Nat) : Bool :=
  match s.pumps.lookup pump with
  | some q => q.pump.firstSeed && (match q.pump.point with | .ended => true | _ => false)
  | none => false

def underWay (s : SeedLine) : List (Nat × String) :=
  s.begun.filter fun x => !s.givenUp x.1

def holding (s : SeedLine) : Nat := s.pumps.sum fun q => q.slot.toNat

end SeedLine

/-! ## The connection's slots -/

namespace SeedLine

variable {encode : Envelope → List UInt8} {s t : SeedLine} {maxSeeds pump : Nat}

def postsOf (pump : Nat) (posts : List Post) : List (Envelope × Bool) :=
  posts.filterMap fun p =>
    match p with
    | .unit k u slot => if k = pump then some (u, slot) else none
    | _ => none

/-- The lanes hold what came off the channel, each pump's slot is with its seed, and no
slot is lost. -/
structure Sound (encode : Envelope → List UInt8) (maxSeeds : Nat) (s : SeedLine) : Prop where
  kept : s.line.Kept
  pulled : s.line.lanes.arrivals ≤ s.posts.length
  units : ∀ q ∈ s.line.enqueued,
    (s.posts[q.arrival - 1]?).map (Post.outbound encode) = some q.unit
  pumps : ∀ pump q, s.pumps.lookup pump = some q → Fits q (postsOf pump s.posts)
  known : ∀ pump, s.pumps.lookup pump = none → postsOf pump s.posts = []
  slots : s.free + s.holding + (s.releasing encode).length = maxSeeds
  stopped : s.closed = true → s.writing = none

/-! ### Seeds on the wire and their slots -/

theorem filterMap_range' {α : Type} (l : List α) {n : Nat} (h : n ≤ l.length) :
    (List.range' 1 n).filterMap (fun a => l[a - 1]?) = l.take n := by
  induction n with
  | zero => rfl
  | succ n ih =>
    rw [range'_concat, filterMap_append, ih (by omega), take_add_one]
    cases h : l[n]? <;> simp [Nat.add_comm 1 n, h]

def queuedPosts (s : SeedLine) : List Post :=
  s.line.lanes.queued.filterMap fun q => s.posts[q.arrival - 1]?

theorem Sound.wire_perm (h : Sound encode maxSeeds s) :
    (s.wire ++ s.queuedPosts ++ s.inbox).Perm s.posts := by
  have hmap := (h.kept.once.filterMap fun q => s.posts[q.arrival - 1]?)
  have hcame : s.line.enqueued.filterMap (fun q => s.posts[q.arrival - 1]?) =
      s.posts.take s.line.lanes.arrivals := by
    rw [← filterMap_range' s.posts h.pulled, ← h.kept.came, filterMap_map]
    rfl
  rw [filterMap_append, hcame] at hmap
  have := hmap.append_right s.inbox
  rwa [inbox, take_append_drop] at this

theorem seedsOf_postsOf (pump : Nat) (posts : List Post) :
    seedsOf (postsOf pump posts) =
      ((posts.filterMap Post.seed).filter fun x => x.1 = pump).map Prod.snd := by
  induction posts with
  | nil => rfl
  | cons p rest ih =>
    cases p with
    | unit k u slot =>
      by_cases hk : k = pump
      · cases hu : u.seed <;> simp_all [postsOf, seedsOf, Post.seed]
      · cases hu : u.seed <;> simp_all [postsOf, seedsOf, Post.seed]
    | _ => exact ih

theorem mem_postsOf {posts : List Post} {u : Envelope} {slot : Bool} :
    (u, slot) ∈ postsOf pump posts ↔ Post.unit pump u slot ∈ posts := by
  simp only [postsOf, mem_filterMap]
  constructor
  · rintro ⟨p, hp, heq⟩
    cases p with
    | unit k v slot' =>
      by_cases hk : k = pump
      · simp only [hk, if_true, some.injEq, Prod.mk.injEq] at heq
        obtain ⟨rfl, rfl⟩ := heq
        exact hk ▸ hp
      · simp [hk] at heq
    | _ => cases heq
  · intro hp
    exact ⟨_, hp, by simp⟩

theorem one_seed {q : Slotted} {ps : List (Envelope × Bool)} (h : Fits q ps) :
    (seedsOf ps).length ≤ 1 := by
  cases h.seeded with
  | fresh _ hnone _ => simp [hnone]
  | underWay _ _ _ _ hseed => simp [hseed]
  | givenUp _ _ _ hseed => simp [hseed]
  | sent _ _ hseed _ _ _ => simp [hseed]

theorem Sound.nodup (h : Sound encode maxSeeds s) :
    ((s.wire.filterMap Post.seed).map Prod.fst).Nodup := by
  have hposts : ((s.posts.filterMap Post.seed).map Prod.fst).Nodup := by
    rw [nodup_iff_count_le_one]
    intro pump
    have hone : (seedsOf (postsOf pump s.posts)).length ≤ 1 := by
      cases hl : s.pumps.lookup pump with
      | none => simp [h.known pump hl, seedsOf]
      | some q => exact one_seed (h.pumps pump q hl)
    rw [seedsOf_postsOf, length_map, ← countP_eq_length_filter] at hone
    rw [List.count, countP_map]
    exact hone
  have hperm := (h.wire_perm.filterMap Post.seed).map Prod.fst
  rw [← hperm.nodup_iff, append_assoc, filterMap_append, map_append] at hposts
  exact hposts.sublist (sublist_append_left _ _)

theorem release_slot (k : Nat) {u : Envelope} (hu : u.finishes.isSome = true) :
    ((Post.unit k u true).outbound encode).release = some k := by
  simp only [Post.outbound]
  split
  · next hbody => simp [Envelope.finishes, hbody] at hu
  · rfl

theorem release_no_slot (k : Nat) (u : Envelope) :
    ((Post.unit k u false).outbound encode).release = none := by
  simp only [Post.outbound]
  split <;> rfl

theorem Sound.slot_of_underWay (h : Sound encode maxSeeds s) (hopen : s.closed = false)
    {x : Nat × String} (hx : x ∈ s.underWay) :
    x.1 ∈ s.pumps.keysWhere Slotted.slot ++ s.releasing encode := by
  obtain ⟨pump, transferId⟩ := x
  obtain ⟨hbegun, hgiven⟩ := mem_filter.mp hx
  obtain ⟨hwire, hnot⟩ := mem_filter.mp hbegun
  have hsub : ∀ p ∈ s.wire, p ∈ s.posts := fun p hp =>
    h.wire_perm.mem_iff.mp (mem_append_left _ (mem_append_left _ hp))
  obtain ⟨p, hp, hseed⟩ := mem_filterMap.mp hwire
  have hmem : transferId ∈ seedsOf (postsOf pump s.posts) := by
    rw [seedsOf_postsOf]
    refine List.mem_map.mpr ⟨(pump, transferId), mem_filter.mpr ⟨?_, by simp⟩, rfl⟩
    exact mem_filterMap.mpr ⟨p, hsub p hp, hseed⟩
  cases hl : s.pumps.lookup pump with
  | none => simp [h.known pump hl, seedsOf] at hmem
  | some q =>
    have hfits := h.pumps pump q hl
    cases hfits.seeded with
    | fresh _ hnone _ => simp [hnone] at hmem
    | underWay hfirst t hpoint _ _ =>
      refine mem_append_left _ (mem_keysWhere hl ?_)
      simp [hfits.slot, hfirst, hpoint, Point.transferring]
    | givenUp hfirst hpoint _ _ => simp [givenUp, hl, hfirst, hpoint] at hgiven
    | sent _ x hone u hu hends =>
      rw [hone, mem_singleton] at hmem
      subst hmem
      have hpost := mem_postsOf.mp hu
      refine mem_append_right _ ?_
      have hout : ((Post.unit pump u true).outbound encode).release = some pump :=
        release_slot pump (by simp [hends])
      rw [releasing, if_neg (by simp [hopen])]
      rcases mem_append.mp (h.wire_perm.mem_iff.mpr hpost) with hq | hin
      · rcases mem_append.mp hq with hw | hq
        · have hfin : (pump, transferId) ∈ s.wire.filterMap Post.finishes :=
            mem_filterMap.mpr ⟨_, hw, by simp [Post.finishes, hends]⟩
          simp [hfin] at hnot
        · obtain ⟨q, hq, hget⟩ := mem_filterMap.mp hq
          have hunit := h.units q (h.kept.once.mem_iff.mp (mem_append_right _ hq))
          rw [hget, map_some, some.injEq] at hunit
          refine mem_append_left _ (mem_append_right _ ?_)
          exact mem_filterMap.mpr ⟨q, hq, hunit ▸ hout⟩
      · exact mem_append_right _ (mem_filterMap.mpr ⟨_, hin, hout⟩)

theorem Sound.underWay_le (h : Sound encode maxSeeds s) (hopen : s.closed = false) :
    s.underWay.length ≤ maxSeeds := by
  have hsub : (s.underWay.map Prod.fst).Sublist ((s.wire.filterMap Post.seed).map Prod.fst) :=
    (filter_sublist.trans filter_sublist).map _
  have hle : (s.underWay.map Prod.fst).length ≤
      (s.pumps.keysWhere Slotted.slot ++ s.releasing encode).length := by
    refine (subperm_of_subset (h.nodup.sublist hsub) ?_).length_le
    intro pump hp
    obtain ⟨x, hx, rfl⟩ := List.mem_map.mp hp
    exact h.slot_of_underWay hopen hx
  rw [length_map, length_append, length_keysWhere] at hle
  have := h.slots
  unfold holding at this
  omega

/-! ### One step -/

theorem releasing_open (hopen : s.closed = false) :
    s.releasing encode =
      s.writing.toList.filterMap (fun q => q.unit.release) ++
        s.line.lanes.queued.filterMap (fun q => q.unit.release) ++
        s.inbox.filterMap fun p => (p.outbound encode).release := by
  rw [releasing, if_neg (by simp [hopen])]

theorem releasing_closed (hclosed : s.closed = true) : s.releasing encode = [] := by
  rw [releasing, if_pos hclosed]

theorem start_sound (encode : Envelope → List UInt8) (maxSeeds : Nat) :
    Sound encode maxSeeds { free := maxSeeds } where
  kept := .start
  pulled := Nat.le_refl _
  units := by intro q hq; cases hq
  pumps := by intro pump q hl; cases hl
  known := fun _ _ => rfl
  slots := rfl
  stopped := fun _ => rfl

variable {q : Queued Outbound}

theorem Sound.getElem?_posts (h : Sound encode maxSeeds s) (ps : List Post)
    (hq : q ∈ s.line.enqueued) :
    (s.posts ++ ps)[q.arrival - 1]? = s.posts[q.arrival - 1]? := by
  have hunit := h.units q hq
  cases hget : s.posts[q.arrival - 1]? with
  | none => simp [hget] at hunit
  | some p => rw [List.getElem?_append_left (List.getElem?_eq_some_iff.mp hget).1, hget]

theorem releasing_posts (encode : Envelope → List UInt8)
    (h : s.line.lanes.arrivals ≤ s.posts.length) (ps : List Post) :
    ({ s with posts := s.posts ++ ps } : SeedLine).releasing encode =
      s.releasing encode ++
        if s.closed then [] else ps.filterMap fun p => (p.outbound encode).release := by
  cases hc : s.closed with
  | true => simp [releasing, hc]
  | false => simp [releasing, hc, inbox, drop_append_of_le_length h]

theorem Sound.posts (h : Sound encode maxSeeds s) {p : Post}
    (hnone : ∀ pump, postsOf pump (s.posts ++ [p]) = postsOf pump s.posts)
    (hrelease : (p.outbound encode).release = none) :
    Sound encode maxSeeds { s with posts := s.posts ++ [p] } where
  __ := h
  pulled := by
    rw [length_append]
    exact Nat.le_add_right_of_le h.pulled
  units q hq := (congrArg _ (h.getElem?_posts [p] hq)).trans (h.units q hq)
  pumps pump q hl := hnone pump ▸ h.pumps pump q hl
  known pump hl := hnone pump ▸ h.known pump hl
  slots := by
    have hnil : (if s.closed then [] else
        [p].filterMap fun p => (p.outbound encode).release) = [] := by
      cases s.closed <;> simp [hrelease]
    rw [releasing_posts _ h.pulled, hnil, append_nil]
    exact h.slots

theorem Sound.moved (h : Sound encode maxSeeds s) {q r : Slotted} (free : Nat)
    (posted : Option (Envelope × Bool)) (hl : s.pumps.lookup pump = some q)
    (hfits : Fits r (postsOf pump s.posts ++ posted.toList))
    (hends : ∀ u, posted = some (u, true) → u.finishes.isSome = true)
    (hquiet : s.closed = true → posted = none)
    (hfree : free + r.slot.toNat + (posted.map Prod.snd).toList.count true =
      s.free + q.slot.toNat) :
    Sound encode maxSeeds
      { s with
        free := free
        pumps := s.pumps.modify pump fun _ => r
        posts := s.posts ++ (posted.map fun u => Post.unit pump u.1 u.2).toList } := by
  have hposts : ∀ k, postsOf k (s.posts ++ (posted.map fun u => Post.unit pump u.1 u.2).toList) =
      postsOf k s.posts ++ if k = pump then posted.toList else [] := by
    intro k
    cases posted with
    | none => simp
    | some u =>
      by_cases hk : k = pump
      · simp [postsOf, hk]
      · simp [postsOf, hk, Ne.symm hk]
  refine ⟨h.kept, ?_, ?_, ?_, ?_, ?_, h.stopped⟩
  · dsimp only
    rw [length_append]
    exact Nat.le_add_right_of_le h.pulled
  · intro q hq
    exact (congrArg _ (h.getElem?_posts _ hq)).trans (h.units q hq)
  · intro k v hk
    dsimp only at hk ⊢
    rw [lookup_modify] at hk
    rw [hposts]
    by_cases hkp : k = pump
    · subst hkp
      simp only [if_true, hl, map_some, some.injEq] at hk ⊢
      exact hk ▸ hfits
    · simp only [hkp, if_false, append_nil] at hk ⊢
      exact h.pumps k v hk
  · intro k hk
    dsimp only at hk ⊢
    rw [lookup_modify] at hk
    rw [hposts]
    by_cases hkp : k = pump
    · subst hkp
      simp [hl] at hk
    · simp only [hkp, if_false, append_nil] at hk ⊢
      exact h.known k hk
  · have hholding := sum_modify hl (fun _ => r) fun q => q.slot.toNat
    have hcount : (if s.closed then [] else
        (posted.map fun u => Post.unit pump u.1 u.2).toList.filterMap
          fun p => (p.outbound encode).release).length =
        (posted.map Prod.snd).toList.count true := by
      cases posted with
      | none => cases s.closed <;> rfl
      | some u =>
        obtain ⟨u, slot⟩ := u
        have hopen : s.closed = false := by
          cases hc : s.closed with
          | false => rfl
          | true => cases hquiet hc
        cases slot with
        | false => simp [hopen, release_no_slot]
        | true => simp [hopen, release_slot pump (hends u rfl)]
    have hreleasing := congrArg List.length (releasing_posts encode h.pulled
      (posted.map fun u => Post.unit pump u.1 u.2).toList)
    rw [length_append, hcount] at hreleasing
    have hslots := h.slots
    change free + (s.pumps.modify pump fun _ => r).sum (fun q => q.slot.toNat) +
      (releasing encode { s with
        posts := s.posts ++ (posted.map fun u => Post.unit pump u.1 u.2).toList }).length = maxSeeds
    unfold holding at hslots
    omega

theorem Sound.spawn (h : Sound encode maxSeeds s) (start : PumpStart)
    (hl : s.pumps.lookup pump = none) :
    Sound encode maxSeeds { s with pumps := s.pumps.insert pump (.spawn start) } := by
  have hnone := h.known pump hl
  refine ⟨h.kept, h.pulled, h.units, ?_, ?_, ?_, h.stopped⟩
  · intro k v hk
    dsimp only at hk ⊢
    rw [lookup_insert] at hk
    by_cases hkp : k = pump
    · subst hkp
      rw [if_pos rfl, some.injEq] at hk
      subst hk
      rw [hnone]
      exact ⟨rfl, fun _ => rfl, by simp [Slotted.spawn, Pump.new],
        by simp [Slotted.spawn, Pump.new], by simp [Slotted.spawn, Pump.new],
        .fresh rfl rfl (by simp [Slotted.spawn, Pump.new])⟩
    · rw [if_neg hkp] at hk
      exact h.pumps k v hk
  · intro k hk
    dsimp only at hk ⊢
    rw [lookup_insert] at hk
    by_cases hkp : k = pump
    · simp [hkp] at hk
    · rw [if_neg hkp] at hk
      exact h.known k hk
  · have hsum := sum_insert_new hl (Slotted.spawn start) fun q => q.slot.toNat
    have hslots := h.slots
    change s.free + (s.pumps.insert pump (.spawn start)).sum (fun q => q.slot.toNat) +
      (s.releasing encode).length = maxSeeds
    unfold holding at hslots
    simp only [Slotted.spawn, Bool.toNat_false] at hsum ⊢
    omega

theorem Sound.pull (h : Sound encode maxSeeds s) {p : Post} (hp : s.inbox.head? = some p)
    (hopen : s.closed = false) :
    Sound encode maxSeeds { s with line := s.line.enqueue (p.outbound encode) } := by
  have harrivals : (s.line.enqueue (p.outbound encode)).lanes.arrivals =
      s.line.lanes.arrivals + 1 := Lanes.enqueue_arrivals _ _
  have hget : s.posts[s.line.lanes.arrivals]? = some p := by
    rw [inbox, List.head?_drop] at hp
    exact hp
  have hlt := (List.getElem?_eq_some_iff.mp hget).1
  refine ⟨h.kept.enqueue _, ?_, ?_, h.pumps, h.known, ?_, h.stopped⟩
  · dsimp only
    omega
  · intro q hq
    rcases mem_snoc.mp hq with hq | hq
    · exact h.units q hq
    · rw [hq]
      simp [hget]
  · have hinbox : s.inbox = p :: s.posts.drop (s.line.lanes.arrivals + 1) := by
      rw [inbox, drop_eq_getElem_cons hlt, (List.getElem?_eq_some_iff.mp hget).2]
    have hperm := (Lanes.enqueue_queued s.line.lanes (p.outbound encode)).filterMap
      fun q => q.unit.release
    have hlen := hperm.length_eq
    have hslots := h.slots
    rw [releasing_open hopen, hinbox] at hslots
    rw [releasing_open (s := { s with line := s.line.enqueue (p.outbound encode) }) hopen]
    change s.free + s.holding + (s.writing.toList.filterMap (fun q => q.unit.release) ++
      (s.line.lanes.enqueue (p.outbound encode)).queued.filterMap (fun q => q.unit.release) ++
      (s.posts.drop (s.line.enqueue (p.outbound encode)).lanes.arrivals).filterMap
        fun p => (p.outbound encode).release).length = maxSeeds
    rw [harrivals]
    cases hr : (p.outbound encode).release <;>
      simp [filterMap_append, hr] at hlen hslots ⊢ <;> omega

theorem Sound.pick (h : Sound encode maxSeeds s)
    (hq : s.line.lanes.leaving = some q) (hopen : s.closed = false) (hidle : s.writing = none) :
    Sound encode maxSeeds { s with line := s.line.pick, writing := some q } := by
  have hpicked := Lanes.pick_picked h.kept.sorted
  rw [hq] at hpicked
  have harrivals : s.line.pick.lanes.arrivals = s.line.lanes.arrivals := hpicked.arrivals
  refine ⟨h.kept.pick, ?_, h.units, h.pumps, h.known, ?_, ?_⟩
  · dsimp only
    rw [harrivals]
    exact h.pulled
  · have hlen := (hpicked.perm.filterMap fun q => q.unit.release).length_eq
    have hslots := h.slots
    rw [releasing_open hopen, hidle] at hslots
    rw [releasing_open (s := { s with line := s.line.pick, writing := some q }) hopen]
    change s.free + s.holding + ((some q).toList.filterMap (fun q => q.unit.release) ++
      s.line.pick.lanes.queued.filterMap (fun q => q.unit.release) ++
      (s.posts.drop s.line.pick.lanes.arrivals).filterMap
        fun p => (p.outbound encode).release).length = maxSeeds
    rw [harrivals]
    change s.free + s.holding + ((some q).toList.filterMap (fun q => q.unit.release) ++
      s.line.lanes.pick.2.queued.filterMap (fun q => q.unit.release) ++
      s.inbox.filterMap fun p => (p.outbound encode).release).length = maxSeeds
    cases hr : q.unit.release <;>
      simp [hr] at hlen hslots ⊢ <;> omega
  · intro hclosed
    simp [hopen] at hclosed

theorem Sound.written (h : Sound encode maxSeeds s)
    (hq : s.writing = some q) :
    Sound encode maxSeeds
      { s with writing := none, free := s.free + q.unit.release.isSome.toNat } := by
  have hopen : s.closed = false := by
    cases hc : s.closed with
    | false => rfl
    | true => simp [h.stopped hc] at hq
  refine ⟨h.kept, h.pulled, h.units, h.pumps, h.known, ?_, fun _ => rfl⟩
  have hslots := h.slots
  rw [releasing_open hopen, hq] at hslots
  rw [releasing_open (s := { s with
    writing := none, free := s.free + q.unit.release.isSome.toNat }) hopen]
  change s.free + q.unit.release.isSome.toNat + s.holding +
    ((none : Option (Queued Outbound)).toList.filterMap (fun q => q.unit.release) ++
      s.line.lanes.queued.filterMap (fun q => q.unit.release) ++
      s.inbox.filterMap fun p => (p.outbound encode).release).length = maxSeeds
  cases hr : q.unit.release <;> simp [hr] at hslots ⊢ <;> omega

theorem Sound.gone (h : Sound encode maxSeeds s) : Sound encode maxSeeds (s.gone encode) := by
  refine ⟨h.kept, h.pulled, h.units, h.pumps, h.known, ?_, fun _ => rfl⟩
  have hslots := h.slots
  rw [releasing_closed (s := s.gone encode) rfl]
  change s.free + (s.releasing encode).length + s.holding + 0 = maxSeeds
  omega

theorem Sound.stepped (h : Sound encode maxSeeds s) {q : Slotted} {r : Slotted.Outcome}
    {step : Pump.Step} (hl : s.pumps.lookup pump = some q)
    (hstep : q.step s.free s.closed step = some r) :
    Sound encode maxSeeds
      { s with
        free := r.free
        pumps := s.pumps.modify pump fun _ => r.pump
        posts := s.posts ++ (r.posted.map fun u => Post.unit pump u.1 u.2).toList } := by
  have hfits := h.pumps pump q hl
  unfold Slotted.step at hstep
  split at hstep
  · next hans =>
    obtain ⟨⟨p, o⟩, hnext, rfl⟩ := map_eq_some_iff.mp hstep
    have hmoves := moves_of_next hfits.awaits hnext
    have hacquired : decide (step = .slot .acquired) = true → 0 < s.free ∧ q.slot = false := by
      intro hacq
      have hst := of_decide_eq_true hacq
      subst hst
      refine ⟨by simpa [Slotted.answers] using hans, ?_⟩
      rw [hacq] at hmoves
      cases hmoves with
      | takes hp => simp [hfits.slot, hp, Point.transferring]
    refine h.moved _ _ hl (Slotted.fits_settle hfits hmoves) ?_ ?_ (Slotted.settle_free hacquired p o)
    · intro u hu
      cases o with
      | none => cases hu
      | some e =>
        simp only [Slotted.settle, map_some, bind_some, some.injEq,
          Prod.mk.injEq, Bool.and_eq_true] at hu
        exact hu.1 ▸ hu.2.2
    · intro hclosed
      rw [hclosed] at hans
      simp [Slotted.settle, quiet_of_unwritten hans hnext]
  · cases hstep

theorem Sound.post (h : Sound encode maxSeeds s) {p : Post} (hp : ∀ k u slot, p ≠ .unit k u slot)
    (hs : s.post p = some t) : Sound encode maxSeeds t := by
  unfold SeedLine.post at hs
  split at hs <;> cases hs
  refine h.posts ?_ ?_
  · intro pump
    cases p with
    | unit k u slot => exact absurd rfl (hp k u slot)
    | _ => simp [postsOf]
  · cases p with
    | unit k u slot => exact absurd rfl (hp k u slot)
    | _ => rfl

variable {e : Event}

theorem Sound.next (h : Sound encode maxSeeds s) (hs : s.next encode e = some t) :
    Sound encode maxSeeds t := by
  cases e with
  | spawn pump start =>
    simp only [SeedLine.next] at hs
    split at hs <;> cases hs
    next hl => exact h.spawn start hl
  | feed pump event =>
    simp only [SeedLine.next] at hs
    split at hs
    · cases hs
    · next q hl =>
      obtain ⟨feed, _, rfl⟩ := map_eq_some_iff.mp hs
      have hfits := h.pumps pump q hl
      have := h.moved (r := { q with feed := feed }) s.free none hl
        (by simpa using ⟨hfits.slot, hfits.needs, hfits.awaits, hfits.listens, hfits.carries,
          hfits.seeded⟩) (by simp) (by simp) (by simp)
      simpa using this
  | pump pump step =>
    simp only [SeedLine.next] at hs
    split at hs
    · cases hs
    · next q hl =>
      obtain ⟨r, hr, rfl⟩ := map_eq_some_iff.mp hs
      exact h.stepped hl hr
  | text text => exact h.post (by simp) hs
  | echo bytes => exact h.post (by simp) hs
  | close code reason => exact h.post (by simp) hs
  | pull =>
    simp only [SeedLine.next] at hs
    split at hs
    · next p hp =>
      split at hs <;> cases hs
      next hopen => exact h.pull hp (by simpa using hopen)
    · cases hs
  | pick =>
    simp only [SeedLine.next] at hs
    split at hs
    · cases hs
    · next hnot =>
      simp only [not_or, Bool.not_eq_true, isSome_eq_false_iff, isNone_iff_eq_none]
        at hnot
      split at hs <;> cases hs
      next q hq => exact h.pick hq hnot.1 hnot.2
  | written ok =>
    simp only [SeedLine.next] at hs
    split at hs
    · cases hs
    · next q hq =>
      have hwritten := h.written hq
      split at hs <;> cases hs
      · exact hwritten.gone
      · exact hwritten
      · exact hwritten.gone
  | exit =>
    simp only [SeedLine.next] at hs
    split at hs <;> cases hs
    exact h.gone

/-! ### Every run -/

theorem givenUp_next (pump : Nat) (hs : s.next encode e = some t)
    (hg : s.givenUp pump = true) :
    t.givenUp pump = true := by
  obtain ⟨q, hl, hfirst, hpoint⟩ : ∃ q, s.pumps.lookup pump = some q ∧
      q.pump.firstSeed = true ∧ q.pump.point = .ended := by
    unfold givenUp at hg
    split at hg
    · next q hl =>
      rw [Bool.and_eq_true] at hg
      refine ⟨q, hl, hg.1, ?_⟩
      cases hp : q.pump.point <;> simp [hp] at hg ⊢
    · cases hg
  -- the pump is still there, and still as it ended
  suffices h : ∃ r, t.pumps.lookup pump = some r ∧ r.pump = q.pump by
    obtain ⟨r, hr, heq⟩ := h
    simp [givenUp, hr, heq, hfirst, hpoint]
  cases e with
  | spawn k start =>
    simp only [SeedLine.next] at hs
    split at hs <;> cases hs
    next hk =>
    have hne : pump ≠ k := by
      rintro rfl
      simp [hk] at hl
    exact ⟨q, by simp [lookup_insert, hne, hl], rfl⟩
  | feed k event =>
    simp only [SeedLine.next] at hs
    split at hs
    · cases hs
    · next r hk =>
      obtain ⟨feed, _, rfl⟩ := map_eq_some_iff.mp hs
      by_cases hkp : pump = k
      · subst hkp
        obtain rfl : q = r := some.inj (hl.symm.trans hk)
        exact ⟨{ q with feed := feed }, by simp [lookup_modify, hl], rfl⟩
      · exact ⟨q, by simp [lookup_modify, hkp, hl], rfl⟩
  | pump k step =>
    simp only [SeedLine.next] at hs
    split at hs
    · cases hs
    · next r hk =>
      obtain ⟨out, hout, rfl⟩ := map_eq_some_iff.mp hs
      by_cases hkp : pump = k
      · subst hkp
        obtain rfl : q = r := some.inj (hl.symm.trans hk)
        simp [Slotted.step, next_ended hpoint] at hout
      · exact ⟨q, by simp [lookup_modify, hkp, hl], rfl⟩
  | _ =>
    refine ⟨q, ?_, rfl⟩
    rw [← hl]
    simp only [SeedLine.next, SeedLine.post] at hs
    repeat' split at hs
    all_goals cases hs
    all_goals rfl

theorem Sound.wire_next (h : Sound encode maxSeeds s)
    (hs : s.next encode e = some t) (hclosed : t.closed = true) : t.wire = s.wire := by
  have hposts : ∀ ps, s.line.left.filterMap (fun q => (s.posts ++ ps)[q.arrival - 1]?) =
      s.wire := fun ps => filterMap_congr fun q hq =>
    h.getElem?_posts ps (h.kept.once.mem_iff.mp (mem_append_left _ hq))
  cases e with
  | pump k step =>
    simp only [SeedLine.next] at hs
    split at hs
    · cases hs
    · obtain ⟨out, _, rfl⟩ := map_eq_some_iff.mp hs
      exact hposts _
  | feed k event =>
    simp only [SeedLine.next] at hs
    split at hs
    · cases hs
    · obtain ⟨feed, _, rfl⟩ := map_eq_some_iff.mp hs
      rfl
  | pick =>
    simp only [SeedLine.next] at hs
    split at hs
    · cases hs
    · next hnot =>
      split at hs <;> cases hs
      exact absurd (.inl hclosed) hnot
  | _ =>
    simp only [SeedLine.next, SeedLine.post] at hs
    repeat' split at hs
    all_goals cases hs
    all_goals first | rfl | exact hposts _

theorem Sound.underWay_next (h : Sound encode maxSeeds s) (hle : s.underWay.length ≤ maxSeeds)
    (hs : s.next encode e = some t) : t.underWay.length ≤ maxSeeds := by
  cases hc : t.closed with
  | false => exact (h.next hs).underWay_le hc
  | true =>
    refine le_trans (List.Sublist.length_le ?_) hle
    have hbegun : t.begun = s.begun := by simp only [begun, h.wire_next hs hc]
    rw [underWay, underWay, hbegun]
    refine monotone_filter_right _ fun x hx => ?_
    have hmono := givenUp_next x.1 hs
    cases hg : s.givenUp x.1 with
    | false => rfl
    | true => simp [hmono hg] at hx

/-- In every state the seeds under way are within the negotiated slots.  A slot is free,
or held by a pump inside its seed, or on its way to the writer with a seed's end. -/
theorem seeds_within_slots (encode : Envelope → List UInt8)
    (h : (machine encode maxSeeds).Reachable s) :
    s.underWay.length ≤ maxSeeds ∧
      s.free + s.holding + (s.releasing encode).length = maxSeeds ∧
      (∀ pump q, s.pumps.lookup pump = some q →
        (q.slot = true ↔ q.pump.firstSeed = true ∧ q.pump.point.transferring = true)) ∧
      (s.closed = true → s.releasing encode = []) := by
  obtain ⟨hs, hle⟩ : Sound encode maxSeeds s ∧ s.underWay.length ≤ maxSeeds := by
    refine h.invariant (P := fun s => Sound encode maxSeeds s ∧ s.underWay.length ≤ maxSeeds)
      ⟨start_sound encode maxSeeds, Nat.zero_le _⟩ ?_
    intro s e t hs hnext
    exact ⟨hs.1.next hnext, hs.1.underWay_next hs.2 hnext⟩
  refine ⟨hle, hs.slots, fun pump q hl => ?_, releasing_closed⟩
  rw [(hs.pumps pump q hl).slot, Bool.and_eq_true]

/-! ### A seed that completes, and one that is given up -/

def sampleSeed (pump : Nat) : List Event :=
  [.spawn pump sampleStart, .pump pump (.turn false (some (1, 0))),
    .pump pump (.ask .admitted false), .pump pump (.slot .acquired), .pump pump (.refresh true),
    .feed pump (.publish (sampleFrame 5 1)), .feed pump .route,
    .pump pump (.read (some (1, 0)) .admitted true), .pump pump (.send .admitted false true),
    .pull, .pick, .written true]

theorem seeds_within_slots_one :
    ∃ s : SeedLine, s.underWay = [(1, "a-1")] ∧ s.underWay.length ≤ 1 ∧ s.free = 0 ∧
      s.holding = 0 ∧ s.releasing (fun _ => []) = [1] := by
  let send : Event := .pump 1 (.send .admitted false true)
  obtain ⟨s, hreach, hp⟩ := Machine.exists_of_run (M := machine (fun _ => []) 1)
    (fun s => decide (s.underWay = [(1, "a-1")] ∧ s.free = 0 ∧ s.holding = 0 ∧
      s.releasing (fun _ => []) = [1]))
    (sampleSeed 1 ++ [send, send, send]) (by decide)
  obtain ⟨hway, hfree, hholding, hreleasing⟩ := of_decide_eq_true hp
  exact ⟨s, hway, (seeds_within_slots _ hreach).1, hfree, hholding, hreleasing⟩

/-- The end of a seed whose pump was stopped never comes, and its slot is free before
that: the next seed begins on a connection that negotiated one. -/
theorem begun_past_the_slots :
    ∃ s, (machine (fun _ => []) 1).Reachable s ∧ s.closed = false ∧
      s.begun = [(1, "a-1"), (2, "a-1")] := by
  obtain ⟨s, hreach, hp⟩ := Machine.exists_of_run (M := machine (fun _ => []) 1)
    (fun s => decide (s.closed = false ∧ s.begun = [(1, "a-1"), (2, "a-1")]))
    (sampleSeed 1 ++ [.pump 1 (.send .starved true true)] ++ sampleSeed 2) (by decide)
  exact ⟨s, hreach, of_decide_eq_true hp⟩

end SeedLine
end VibeField.Tp
