import VibeField.Base.Machine
import VibeField.Freeway.Codec
import VibeField.Freeway.Mux

/-!
# The life of a stream

A run keeps beside one end's streams what happened: the streams this side opened, the
CLOSEs it sent, the streams it forgot, and every frame with what it meant.  The life of
a stream is read off what happened alone, and the table holds exactly the streams whose
life is not over.

An id that was never named is told from one that is gone by the highest id the peer has
named.  So a frame of an id the peer passed over is taken for one of a stream that is
gone.
-/

namespace VibeField.Freeway

open List Option Dict

/-- What becomes of a stream. -/
inductive Life where
  | unnamed
  | open
  /-- This side's CLOSE is sent. -/
  | weClosed
  /-- The peer's CLOSE has come. -/
  | peerClosed
  /-- Closed by both, refused, forgotten or never accepted. -/
  | gone
  deriving DecidableEq, Repr

/-- What happens at one end of a link. -/
inductive Happened where
  | opened (stream : StreamId)
  | sentClose (stream : StreamId)
  | forgot (stream : StreamId)
  | received (frame : Frame) (outcome : Except MuxError Event)

namespace Life

def weClose : Life → Life
  | .open => weClosed
  | peerClosed => gone
  | l => l

def peerClose : Life → Life
  | .open => peerClosed
  | weClosed => gone
  | l => l

def forget : Life → Life
  | unnamed => unnamed
  | _ => gone

def told (l : Life) : Except MuxError Event → Life
  | .ok (.opened _ _ _) => .open
  | .ok (.notServed _ _) => gone
  | .error .tooManyStreams => gone
  | .ok (.refused _ _) => gone
  | .ok (.closed _ _ _) => l.peerClose
  | _ => l

def after (stream : StreamId) (l : Life) : Happened → Life
  | .opened s => if s = stream then .open else l
  | .sentClose s => if s = stream then l.weClose else l
  | .forgot s => if s = stream then l.forget else l
  | .received frame outcome => if frame.stream = stream then l.told outcome else l

def hears : Life → Bool
  | .open | weClosed => true
  | _ => false

def closes : Life → Nat
  | peerClosed | gone => 1
  | _ => 0

end Life

/-! ## What happened -/

namespace Happened

def ours : Happened → Option StreamId
  | opened s => some s
  | _ => none

def theirs : Happened → Option StreamId
  | received frame (.ok (.opened _ _ _)) => some frame.stream
  | received frame (.ok (.notServed _ _)) => some frame.stream
  | received frame (.error .tooManyStreams) => some frame.stream
  | _ => none

def closed : Happened → Option StreamId
  | received _ (.ok (.closed s _ _)) => some s
  | _ => none

end Happened

def life (stream : StreamId) (log : List Happened) : Life :=
  log.foldl (Life.after stream) .unnamed

theorem life_append (stream : StreamId) (log : List Happened) (h : Happened) :
    life stream (log ++ [h]) = (life stream log).after stream h := by
  rw [life, foldl_append]
  rfl

/-- A frame that is told by its stream. -/
def Frame.OfStream (frame : Frame) : Prop := frame.kind ≠ .link ∧ frame.kind ≠ .open

/-- The peer has named a higher id, and not this one of its own. -/
def PassedOver (role : Role) (log : List Happened) (stream : StreamId) : Prop :=
  role.opens stream = false ∧ stream ∉ log.filterMap Happened.theirs ∧
    ∃ higher ∈ log.filterMap Happened.theirs, stream < higher

/-- What a frame may mean, after what happened before it. -/
structure Judged (before : List Happened) (frame : Frame) (outcome : Except MuxError Event) :
    Prop where
  message : ∀ stream message, outcome = .ok (.message stream message) →
    stream = frame.stream ∧ (life stream before).hears = true
  late : frame.OfStream → life frame.stream before = .gone → outcome = .ok (.late frame.stream)
  neverOpened : frame.OfStream → life frame.stream before = .unnamed →
    outcome = .error (.neverOpened frame.stream)

/-- The life cycle of every stream, in what happened at one end. -/
structure Lawful (role : Role) (log : List Happened) : Prop where
  ours : ∀ stream ∈ log.filterMap Happened.ours, role.opens stream = true
  theirs : ∀ stream ∈ log.filterMap Happened.theirs, role.opens stream = false
  fresh : (log.filterMap Happened.ours ++ log.filterMap Happened.theirs).Nodup
  closedOnce : ∀ stream, (log.filterMap Happened.closed).count stream ≤ 1
  judged : ∀ before frame outcome after,
    log = before ++ .received frame outcome :: after → Judged before frame outcome

/-- No frame came for an id the peer had passed over. -/
def NonePassedOver (role : Role) (log : List Happened) : Prop :=
  ∀ before frame outcome after, log = before ++ .received frame outcome :: after →
    frame.OfStream → ¬ PassedOver role before frame.stream

/-! ## Runs -/

structure MuxRun where
  mux : Mux
  log : List Happened

inductive MuxCall where
  | openStream (spec : StreamSpec)
  | close (stream : StreamId)
  | forget (stream : StreamId)
  | delivered (stream : StreamId) (bytes : Nat)
  | receive (message : Bytes) (spec : Bytes → Option StreamSpec)

namespace MuxRun

def apply (s : MuxRun) : MuxCall → MuxRun
  | .openStream spec =>
    match s.mux.openStream spec with
    | (mux, .ok stream) => { mux := mux, log := s.log ++ [.opened stream] }
    | (mux, .error _) => { s with mux := mux }
  | .close stream => { mux := s.mux.close stream, log := s.log ++ [.sentClose stream] }
  | .forget stream => { mux := s.mux.forget stream, log := s.log ++ [.forgot stream] }
  | .delivered stream bytes => { s with mux := (s.mux.delivered stream bytes).1 }
  | .receive message spec =>
    match decode message with
    | .error _ => { s with mux := (s.mux.receive message spec).1 }
    | .ok frame =>
      { mux := (s.mux.receive message spec).1
        log := s.log ++ [.received frame (s.mux.receive message spec).2] }

def machine (role : Role) : Machine MuxRun MuxCall where
  start := { mux := .new role, log := [] }
  next s e := some (s.apply e)

end MuxRun
/-! ## What a frame can do -/

def Still : Except MuxError Event → Prop
  | .ok (.opened _ _ _) | .ok (.notServed _ _) | .error .tooManyStreams => False
  | .ok (.refused _ _) | .ok (.closed _ _ _) => False
  | _ => True

theorem told_of_still {outcome : Except MuxError Event} (h : Still outcome) (l : Life) :
    l.told outcome = l := by
  unfold Life.told
  split <;> first | exact h.elim | rfl

theorem theirs_of_still {outcome : Except MuxError Event} (h : Still outcome) (frame : Frame) :
    (Happened.received frame outcome).theirs = none := by
  unfold Happened.theirs
  split <;> first | rfl | (next heq => cases heq; exact h.elim)

theorem closed_of_still {outcome : Except MuxError Event} (h : Still outcome) (frame : Frame) :
    (Happened.received frame outcome).closed = none := by
  unfold Happened.closed
  split <;> first | rfl | (next heq => cases heq; exact h.elim)

/-- How the table moves under a frame that was read, and what it meant. -/
inductive Takes (m : Mux) (frame : Frame) : Mux → Except MuxError Event → Prop
  | link : frame.kind = .link → Takes m frame m (.ok (.link frame.payload))
  | badOpen : frame.kind = .open → Takes m frame m (.error (.badOpen frame.stream))
  | named (outcome : Except MuxError Event) : frame.kind = .open → m.ours frame.stream = false →
      m.peerHigh < frame.stream →
      outcome = .ok (.notServed frame.stream frame.payload) ∨ outcome = .error .tooManyStreams →
      Takes m frame { m with peerHigh := frame.stream } outcome
  | accepted (spec : StreamSpec) : frame.kind = .open → m.ours frame.stream = false →
      m.peerHigh < frame.stream → m.streams.len < maxStreams →
      Takes m frame
        { m with
          peerHigh := frame.stream
          streams := m.streams.insert frame.stream (.new false spec) }
        (.ok (.opened frame.stream frame.payload spec))
  | absent : frame.OfStream → m.streams.lookup frame.stream = none →
      Takes m frame m
        (if m.named frame.stream then .ok (.late frame.stream)
          else .error (.neverOpened frame.stream))
  | stays (state : Mux.Stream) (outcome : Except MuxError Event) : frame.OfStream →
      m.streams.lookup frame.stream = some state → Still outcome →
      (∀ s message, outcome ≠ .ok (.message s message)) → Takes m frame m outcome
  | keeps (state new : Mux.Stream) (outcome : Except MuxError Event) : frame.OfStream →
      m.streams.lookup frame.stream = some state → state.peerClosed = false →
      new.peerClosed = false → new.weClosed = state.weClosed → Still outcome →
      (∀ s message, outcome = .ok (.message s message) → s = frame.stream) →
      Takes m frame (m.setStream frame.stream new) outcome
  | refused (state : Mux.Stream) : frame.OfStream →
      m.streams.lookup frame.stream = some state →
      Takes m frame (m.forget frame.stream) (.ok (.refused frame.stream frame.payload))
  | closed (state : Mux.Stream) : frame.OfStream →
      m.streams.lookup frame.stream = some state → state.peerClosed = false →
      Takes m frame
        (if state.weClosed then m.forget frame.stream
          else m.setStream frame.stream { state with peerClosed := true })
        (.ok (.closed frame.stream frame.payload !state.weClosed))

variable {m : Mux} {frame : Frame}

theorem takes_onOpenStream (hof : frame.OfStream) {state : Mux.Stream}
    (hl : m.streams.lookup frame.stream = some state) :
    Takes m frame (m.onOpenStream state frame).1 (m.onOpenStream state frame).2 := by
  cases hclosed : state.peerClosed with
  | true =>
    simp only [Mux.onOpenStream, hclosed, if_true]
    exact .stays state _ hof hl trivial (by intro s message h; cases h)
  | false =>
    cases hk : frame.kind with
    | link => exact absurd hk hof.1
    | «open» => exact absurd hk hof.2
    | close =>
      rw [Mux.onOpenStream_close hk hclosed]
      exact .closed state hof hl hclosed
    | opened =>
      simp only [Mux.onOpenStream, hclosed, hk, Bool.false_eq_true, if_false]
      split
      · exact .stays state _ hof hl trivial (by intro s message h; cases h)
      · refine .keeps state _ _ hof hl hclosed ?_ ?_ ?_ ?_
        · rfl
        · rfl
        · trivial
        · intro s message h
          cases h
    | openRefused =>
      simp only [Mux.onOpenStream, hclosed, hk, Bool.false_eq_true, if_false]
      split
      · exact .stays state _ hof hl trivial (by intro s message h; cases h)
      · exact .refused state hof hl
    | window =>
      simp only [Mux.onOpenStream, hclosed, hk, Bool.false_eq_true, if_false]
      split
      · exact .stays state _ hof hl trivial (by intro s message h; cases h)
      · exact .stays state _ hof hl trivial (by intro s message h; cases h)
    | text | binary =>
      simp only [Mux.onOpenStream, hclosed, hk, Bool.false_eq_true, if_false]
      split
      · exact .stays state _ hof hl trivial (by intro s message h; cases h)
      · split
        all_goals
          refine .keeps state _ _ hof hl hclosed ?_ ?_ ?_ ?_
          · rfl
          · rfl
          · trivial
          · intro s message h
            cases h
            try rfl

theorem takes_receive {message : Bytes} (hd : decode message = .ok frame)
    (spec : Bytes → Option StreamSpec) :
    Takes m frame (m.receive message spec).1 (m.receive message spec).2 := by
  by_cases hlink : frame.kind = .link
  · simp only [Mux.receive, hd, hlink]
    exact .link hlink
  · by_cases hopen : frame.kind = .open
    · simp only [Mux.receive, hd, hopen, Mux.peerOpen]
      split
      · exact .badOpen hopen
      · next hnew =>
        rw [Bool.or_eq_true, not_or, Bool.not_eq_true, decide_eq_true_iff, Nat.not_le] at hnew
        split
        · exact .named _ hopen hnew.1 hnew.2 (.inl rfl)
        · split
          · exact .named _ hopen hnew.1 hnew.2 (.inr rfl)
          · next hroom => exact .accepted _ hopen hnew.1 hnew.2 (Nat.not_le.mp hroom)
    · rw [Mux.receive_of_stream hd hlink hopen]
      unfold Mux.onStream
      split
      · next hl =>
        have htakes := Takes.absent (m := m) ⟨hlink, hopen⟩ hl
        split
        · next hnamed => rwa [if_pos hnamed] at htakes
        · next hnamed => rwa [if_neg hnamed] at htakes
      · next state hl => exact takes_onOpenStream ⟨hlink, hopen⟩ hl

/-! ## The table and the lives -/

def Mux.Stream.life (state : Mux.Stream) : Life :=
  if state.peerClosed then .peerClosed else if state.weClosed then .weClosed else .open

theorem life_of_state (state : Mux.Stream) : state.life ≠ .unnamed ∧ state.life ≠ .gone := by
  unfold Mux.Stream.life
  split
  · decide
  · split <;> decide

/-- What the table holds for a stream of this life. -/
def Row (entry : Option Mux.Stream) (l : Life) : Prop :=
  match entry with
  | none => l = .unnamed ∨ l = .gone
  | some state => l = state.life

def Role.first : Role → Nat
  | dialer => 1
  | acceptor => 2

/-- The table follows what happened. -/
structure Tracks (role : Role) (s : MuxRun) : Prop where
  side : s.mux.role = role
  small : s.mux.streams.len ≤ maxStreams
  next : s.mux.nextOurs = role.first + 2 * (s.log.filterMap Happened.ours).length
  ours : s.log.filterMap Happened.ours =
    List.range' role.first (s.log.filterMap Happened.ours).length 2
  rising : (s.log.filterMap Happened.theirs).Pairwise (· < ·)
  theirs : ∀ id ∈ s.log.filterMap Happened.theirs, role.opens id = false ∧ id ≤ s.mux.peerHigh
  high : s.mux.peerHigh = 0 ∨ s.mux.peerHigh ∈ s.log.filterMap Happened.theirs
  rows : ∀ id, Row (s.mux.streams.lookup id) (life id s.log)
  unnamed : ∀ id, life id s.log = .unnamed ↔
    id ∉ s.log.filterMap Happened.ours ∧ id ∉ s.log.filterMap Happened.theirs
  closes : ∀ id, (s.log.filterMap Happened.closed).count id ≤ (life id s.log).closes

variable {role : Role} {s : MuxRun}

theorem Tracks.start (role : Role) : Tracks role { mux := .new role, log := [] } where
  side := rfl
  small := Nat.zero_le _
  next := by cases role <;> rfl
  ours := rfl
  rising := .nil
  theirs := by intro id hid; cases hid
  high := .inl rfl
  rows := fun _ => .inl rfl
  unnamed := by intro id; simp [life]
  closes := by intro id; simp

theorem Tracks.mem_ours (h : Tracks role s) {id : Nat} (hparity : role.opens id = true)
    (hzero : id ≠ 0) : id ∈ s.log.filterMap Happened.ours ↔ id < s.mux.nextOurs := by
  rw [h.ours, mem_range', h.next]
  constructor
  · rintro ⟨i, hi, rfl⟩
    omega
  · intro hlt
    refine ⟨(id - role.first) / 2, ?_, ?_⟩
    all_goals
      cases role with
      | dialer =>
        have hodd : id % 2 = 1 := by simpa [Role.opens] using hparity
        simp only [Role.first] at hlt ⊢
        omega
      | acceptor =>
        have heven : id % 2 = 0 := by simpa [Role.opens] using hparity
        simp only [Role.first] at hlt ⊢
        omega

theorem Tracks.opens_ours (h : Tracks role s) {id : StreamId}
    (hid : id ∈ s.log.filterMap Happened.ours) : role.opens id = true := by
  rw [h.ours, mem_range'] at hid
  obtain ⟨i, -, rfl⟩ := hid
  cases role with
  | dialer =>
    have hodd : (1 + 2 * i) % 2 = 1 := by omega
    simp [Role.opens, Role.first, hodd]
  | acceptor =>
    have heven : (2 + 2 * i) % 2 = 0 := by omega
    simp [Role.opens, Role.first, heven]

variable {m : Mux}

theorem Tracks.noted (h : Tracks role s) (hsame : Mux.Same s.mux m)
    (hsmall : m.streams.len ≤ maxStreams) {e : Happened} (hours : e.ours = none)
    (htheirs : e.theirs = none)
    (hrows : ∀ id, Row (m.streams.lookup id) ((life id s.log).after id e))
    (hnamed : ∀ id, (life id s.log).after id e = .unnamed ↔ life id s.log = .unnamed)
    (hcloses : ∀ id, ((s.log ++ [e]).filterMap Happened.closed).count id ≤
      ((life id s.log).after id e).closes) :
    Tracks role { mux := m, log := s.log ++ [e] } := by
  have hours' : (s.log ++ [e]).filterMap Happened.ours = s.log.filterMap Happened.ours := by
    simp [hours]
  have htheirs' : (s.log ++ [e]).filterMap Happened.theirs = s.log.filterMap Happened.theirs := by
    simp [htheirs]
  constructor
  case side => exact hsame.role.trans h.side
  case small => exact hsmall
  case next => rw [hours']; exact hsame.nextOurs.trans h.next
  case ours => rw [hours']; exact h.ours
  case rising => rw [htheirs']; exact h.rising
  case theirs => rw [htheirs', hsame.peerHigh]; exact h.theirs
  case high => rw [htheirs', hsame.peerHigh]; exact h.high
  case rows => intro id; rw [life_append]; exact hrows id
  case unnamed =>
    intro id
    rw [life_append, hnamed, hours', htheirs']
    exact h.unnamed id
  case closes => intro id; rw [life_append]; exact hcloses id

theorem Tracks.quiet (h : Tracks role s) (hsame : Mux.Same s.mux m)
    (hsmall : m.streams.len ≤ maxStreams)
    (hrows : ∀ id, Row (m.streams.lookup id) (life id s.log)) :
    Tracks role { s with mux := m } where
  __ := h
  side := hsame.role.trans h.side
  small := hsmall
  next := hsame.nextOurs.trans h.next
  theirs := hsame.peerHigh ▸ h.theirs
  high := hsame.peerHigh ▸ h.high
  rows := hrows

theorem Tracks.closes_kept (h : Tracks role s) {e : Happened} (hclosed : e.closed = none)
    (id : StreamId) (hle : (life id s.log).closes ≤ ((life id s.log).after id e).closes) :
    ((s.log ++ [e]).filterMap Happened.closed).count id ≤
      ((life id s.log).after id e).closes := by
  have hsame : (s.log ++ [e]).filterMap Happened.closed = s.log.filterMap Happened.closed := by
    simp [hclosed]
  rw [hsame]
  exact le_trans (h.closes id) hle

/-! ## One step -/

variable {d : Dict StreamId Mux.Stream}

theorem Row.insert {l l' : StreamId → Life}
    (h : ∀ id, Row (d.lookup id) (l id)) {stream : StreamId} {state : Mux.Stream}
    (hself : l' stream = state.life) (hother : ∀ id, id ≠ stream → l' id = l id) (id : StreamId) :
    Row ((d.insert stream state).lookup id) (l' id) := by
  rw [lookup_insert]
  by_cases hid : id = stream
  · rw [if_pos hid, hid]
    exact hself
  · rw [if_neg hid, hother id hid]
    exact h id

theorem Row.erase {l l' : StreamId → Life}
    (h : ∀ id, Row (d.lookup id) (l id)) {stream : StreamId}
    (hself : l' stream = .unnamed ∨ l' stream = .gone)
    (hother : ∀ id, id ≠ stream → l' id = l id) (id : StreamId) :
    Row ((d.erase stream).lookup id) (l' id) := by
  rw [lookup_erase]
  by_cases hid : id = stream
  · rw [if_pos hid, hid]
    exact hself
  · rw [if_neg hid, hother id hid]
    exact h id

theorem Row.absent {id : StreamId} {l : Life}
    (h : Row (d.lookup id) l) (hl : l = .unnamed ∨ l = .gone) : d.lookup id = none := by
  cases hlook : d.lookup id with
  | none => rfl
  | some state =>
    rw [hlook] at h
    have hlife : l = state.life := h
    rcases hl with rfl | rfl
    · exact absurd hlife.symm (life_of_state state).1
    · exact absurd hlife.symm (life_of_state state).2

theorem Tracks.row (h : Tracks role s) {id : StreamId} {state : Mux.Stream}
    (hl : s.mux.streams.lookup id = some state) : life id s.log = state.life := by
  have hrow := h.rows id
  rwa [hl] at hrow

/-- This side opens a stream. -/
theorem Tracks.opened (h : Tracks role s) (hroom : s.mux.streams.len < maxStreams)
    (spec : StreamSpec) :
    Tracks role
      { mux :=
          { s.mux with
            nextOurs := s.mux.nextOurs + 2
            streams := s.mux.streams.insert s.mux.nextOurs (.new true spec) }
        log := s.log ++ [.opened s.mux.nextOurs] } := by
  have hours : (s.log ++ [Happened.opened s.mux.nextOurs]).filterMap Happened.ours =
      s.log.filterMap Happened.ours ++ [s.mux.nextOurs] := by
    simp [Happened.ours]
  have htheirs : (s.log ++ [Happened.opened s.mux.nextOurs]).filterMap Happened.theirs =
      s.log.filterMap Happened.theirs := by
    simp [Happened.theirs]
  have hparity : role.opens s.mux.nextOurs = true := by
    rw [h.next]
    cases role with
    | dialer =>
      have hodd : (1 + 2 * (s.log.filterMap Happened.ours).length) % 2 = 1 := by omega
      simp [Role.opens, Role.first, hodd]
    | acceptor =>
      have heven : (2 + 2 * (s.log.filterMap Happened.ours).length) % 2 = 0 := by omega
      simp [Role.opens, Role.first, heven]
  have hzero : s.mux.nextOurs ≠ 0 := by
    rw [h.next]
    cases role <;> simp [Role.first]
  have hunnamed : life s.mux.nextOurs s.log = .unnamed := by
    rw [h.unnamed, h.mem_ours hparity hzero]
    refine ⟨Nat.lt_irrefl _, fun hmem => ?_⟩
    rw [(h.theirs _ hmem).1] at hparity
    cases hparity
  have hafter : ∀ id, id ≠ s.mux.nextOurs →
      (life id s.log).after id (.opened s.mux.nextOurs) = life id s.log := by
    intro id hid
    exact if_neg (Ne.symm hid)
  have hself : (life s.mux.nextOurs s.log).after s.mux.nextOurs (.opened s.mux.nextOurs) =
      .open := if_pos rfl
  have hcloses : ∀ id, (life id s.log).closes ≤
      ((life id s.log).after id (.opened s.mux.nextOurs)).closes := by
    intro id
    by_cases hid : id = s.mux.nextOurs
    · rw [hid, hself, hunnamed]
      exact Nat.le_refl _
    · rw [hafter id hid]
  constructor
  case side => exact h.side
  case small =>
    change (s.mux.streams.insert s.mux.nextOurs _).len ≤ maxStreams
    rw [len_insert ((h.rows s.mux.nextOurs).absent (.inl hunnamed))]
    exact hroom
  case next =>
    rw [hours, length_append, length_singleton]
    change s.mux.nextOurs + 2 = _
    rw [h.next]
    omega
  case ours =>
    rw [hours, length_append, length_singleton, range'_concat, ← h.ours, h.next]
  case rising => rw [htheirs]; exact h.rising
  case theirs => rw [htheirs]; exact h.theirs
  case high => rw [htheirs]; exact h.high
  case rows =>
    intro id
    refine @Row.insert _ _ (fun id => life id (s.log ++ [.opened s.mux.nextOurs])) h.rows _ _
      ?_ ?_ id
    · rw [life_append, hself]
      rfl
    · intro id hid
      rw [life_append, hafter id hid]
  case unnamed =>
    intro id
    rw [life_append, hours, htheirs, mem_append, mem_singleton]
    by_cases hid : id = s.mux.nextOurs
    · rw [hid, hself]
      simp
    · rw [hafter id hid, h.unnamed id]
      simp [hid]
  case closes =>
    intro id
    rw [life_append]
    exact h.closes_kept rfl id (hcloses id)

theorem after_other {e : Happened} {stream id : StreamId} {l : Life}
    (he : e = .sentClose stream ∨ e = .forgot stream) (hid : id ≠ stream) :
    l.after id e = l := by
  rcases he with rfl | rfl
  · exact if_neg (Ne.symm hid)
  · exact if_neg (Ne.symm hid)

theorem Tracks.sentClose (h : Tracks role s) (stream : StreamId) :
    Tracks role { mux := s.mux.close stream, log := s.log ++ [.sentClose stream] } := by
  have hself : ∀ l : Life, l.after stream (.sentClose stream) = l.weClose := fun l => if_pos rfl
  have hother : ∀ id, id ≠ stream →
      (life id s.log).after id (.sentClose stream) = life id s.log := by
    intro id hid
    exact after_other (.inl rfl) hid
  refine h.noted (Mux.same_close s.mux stream) ?_ rfl rfl ?_ ?_ ?_
  · unfold Mux.close
    split
    · exact h.small
    · next state hl =>
      split
      · exact le_trans (len_erase_le _ _) h.small
      · change (s.mux.streams.insert stream _).len ≤ maxStreams
        rw [len_insert_old hl]
        exact h.small
  · unfold Mux.close
    split
    · next hl =>
      intro id
      by_cases hid : id = stream
      · -- what is not here stays as it is
        have hrow := h.rows stream
        rw [hl] at hrow
        rw [hid, hl, hself]
        rcases hrow with hrow | hrow
        · exact .inl (by rw [hrow]; rfl)
        · exact .inr (by rw [hrow]; rfl)
      · rw [hother id hid]
        exact h.rows id
    · next state hl =>
      split
      · next hpeer =>
        refine Row.erase h.rows (.inr ?_) hother
        rw [hself, h.row hl, Mux.Stream.life, if_pos hpeer]
        rfl
      · next hpeer =>
        refine Row.insert h.rows ?_ hother
        rw [hself, h.row hl, Mux.Stream.life, Mux.Stream.life, if_neg hpeer, if_neg hpeer]
        cases state.weClosed <;> rfl
  · intro id
    by_cases hid : id = stream
    · rw [hid, hself]
      cases life stream s.log <;> simp [Life.weClose]
    · rw [hother id hid]
  · intro id
    refine h.closes_kept rfl id ?_
    by_cases hid : id = stream
    · rw [hid, hself]
      cases life stream s.log <;> decide
    · rw [hother id hid]

theorem Tracks.forgot (h : Tracks role s) (stream : StreamId) :
    Tracks role { mux := s.mux.forget stream, log := s.log ++ [.forgot stream] } := by
  have hself : ∀ l : Life, l.after stream (.forgot stream) = l.forget := fun l => if_pos rfl
  have hother : ∀ id, id ≠ stream →
      (life id s.log).after id (.forgot stream) = life id s.log := by
    intro id hid
    exact after_other (.inr rfl) hid
  refine h.noted (Mux.same_forget s.mux stream) (le_trans (len_erase_le _ _) h.small) rfl rfl
    ?_ ?_ ?_
  · refine Row.erase h.rows ?_ hother
    rw [hself]
    cases life stream s.log <;> simp [Life.forget]
  · intro id
    by_cases hid : id = stream
    · rw [hid, hself]
      cases life stream s.log <;> simp [Life.forget]
    · rw [hother id hid]
  · intro id
    refine h.closes_kept rfl id ?_
    by_cases hid : id = stream
    · rw [hid, hself]
      cases life stream s.log <;> decide
    · rw [hother id hid]

theorem Tracks.delivered (h : Tracks role s) (stream : StreamId) (bytes : Nat) :
    Tracks role { s with mux := (s.mux.delivered stream bytes).1 } := by
  unfold Mux.delivered
  split
  · exact h
  · next state hl =>
    dsimp only
    split
    · exact h
    · split
      all_goals
        have hlife : life stream s.log = state.life := h.row hl
        refine h.quiet ⟨rfl, rfl, rfl⟩ ?_ (Row.insert h.rows ?_ fun _ _ => rfl)
        · change (s.mux.streams.insert stream _).len ≤ maxStreams
          rw [len_insert_old hl]
          exact h.small
        · exact hlife

theorem Tracks.still (h : Tracks role s) (hsame : Mux.Same s.mux m)
    (hsmall : m.streams.len ≤ maxStreams)
    (hrows : ∀ id, Row (m.streams.lookup id) (life id s.log)) {outcome : Except MuxError Event}
    (hstill : Still outcome) :
    Tracks role { mux := m, log := s.log ++ [.received frame outcome] } := by
  have hafter : ∀ id, (life id s.log).after id (.received frame outcome) = life id s.log := by
    intro id
    rw [Life.after, told_of_still hstill, ite_self]
  refine h.noted hsame hsmall rfl (theirs_of_still hstill frame) ?_ ?_ ?_
  · intro id
    rw [hafter]
    exact hrows id
  · intro id
    rw [hafter]
  · intro id
    exact h.closes_kept (closed_of_still hstill frame) id (by rw [hafter])

theorem Tracks.ends (h : Tracks role s) (hsame : Mux.Same s.mux m)
    (hsmall : m.streams.len ≤ maxStreams) {outcome : Except MuxError Event}
    (htheirs : (Happened.received frame outcome).theirs = none) {state : Mux.Stream}
    (hl : s.mux.streams.lookup frame.stream = some state)
    (hrow : Row (m.streams.lookup frame.stream) (state.life.told outcome))
    (hother : ∀ id, id ≠ frame.stream → m.streams.lookup id = s.mux.streams.lookup id)
    (hnamed : state.life.told outcome ≠ .unnamed)
    (hcloses : state.life.closes +
        ((Happened.received frame outcome).closed.toList.count frame.stream) ≤
      (state.life.told outcome).closes)
    (honly : ∀ id, (Happened.received frame outcome).closed = some id → id = frame.stream) :
    Tracks role { mux := m, log := s.log ++ [.received frame outcome] } := by
  have hlife : life frame.stream s.log = state.life := h.row hl
  have hself : (life frame.stream s.log).after frame.stream (.received frame outcome) =
      state.life.told outcome := by
    rw [hlife]
    exact if_pos rfl
  have hafter : ∀ id, id ≠ frame.stream →
      (life id s.log).after id (.received frame outcome) = life id s.log := by
    intro id hid
    exact if_neg (Ne.symm hid)
  have hclosed : (s.log ++ [Happened.received frame outcome]).filterMap Happened.closed =
      s.log.filterMap Happened.closed ++ (Happened.received frame outcome).closed.toList := by
    cases hc : (Happened.received frame outcome).closed <;> simp [hc]
  refine h.noted hsame hsmall rfl htheirs ?_ ?_ ?_
  · intro id
    by_cases hid : id = frame.stream
    · rw [hid, hself]
      exact hrow
    · rw [hafter id hid, hother id hid]
      exact h.rows id
  · intro id
    by_cases hid : id = frame.stream
    · rw [hid, hself, hlife]
      simp [hnamed, (life_of_state state).1]
    · rw [hafter id hid]
  · intro id
    rw [hclosed, count_append]
    have hcount := h.closes id
    by_cases hid : id = frame.stream
    · rw [hid] at hcount ⊢
      rw [hself]
      rw [hlife] at hcount
      omega
    · rw [hafter id hid]
      have hnone : (Happened.received frame outcome).closed.toList.count id = 0 := by
        rw [count_eq_zero]
        intro hmem
        exact hid (honly id (mem_toList.mp hmem))
      omega

/-- The peer names a new id. -/
theorem Tracks.names (h : Tracks role s) (hours : s.mux.ours frame.stream = false)
    (habove : s.mux.peerHigh < frame.stream) {streams : Dict StreamId Mux.Stream}
    (hsmall : streams.len ≤ maxStreams) {outcome : Except MuxError Event}
    (htheirs : (Happened.received frame outcome).theirs = some frame.stream)
    (hclosed : (Happened.received frame outcome).closed = none)
    (htold : ∀ l : Life, l.told outcome = .open ∨ l.told outcome = .gone)
    (hrow : Row (streams.lookup frame.stream) (Life.unnamed.told outcome))
    (hother : ∀ id, id ≠ frame.stream → streams.lookup id = s.mux.streams.lookup id) :
    Tracks role
      { mux := { s.mux with peerHigh := frame.stream, streams := streams }
        log := s.log ++ [.received frame outcome] } := by
  have hparity : role.opens frame.stream = false := h.side ▸ hours
  have hours' : (s.log ++ [Happened.received frame outcome]).filterMap Happened.ours =
      s.log.filterMap Happened.ours := by
    simp [Happened.ours]
  have htheirs' : (s.log ++ [Happened.received frame outcome]).filterMap Happened.theirs =
      s.log.filterMap Happened.theirs ++ [frame.stream] := by
    simp [htheirs]
  have hunnamed : life frame.stream s.log = .unnamed := by
    rw [h.unnamed]
    constructor
    · intro hmem
      rw [h.opens_ours hmem] at hparity
      cases hparity
    · intro hmem
      exact absurd (h.theirs _ hmem).2 (Nat.not_le.mpr habove)
  have hself : (life frame.stream s.log).after frame.stream (.received frame outcome) =
      Life.unnamed.told outcome := by
    rw [hunnamed]
    exact if_pos rfl
  have hafter : ∀ id, id ≠ frame.stream →
      (life id s.log).after id (.received frame outcome) = life id s.log := by
    intro id hid
    exact if_neg (Ne.symm hid)
  constructor
  case side => exact h.side
  case small => exact hsmall
  case next => rw [hours']; exact h.next
  case ours => rw [hours']; exact h.ours
  case rising =>
    rw [htheirs', pairwise_append]
    refine ⟨h.rising, pairwise_singleton _ _, ?_⟩
    intro a ha b hb
    rw [mem_singleton.mp hb]
    exact lt_of_le_of_lt (h.theirs a ha).2 habove
  case theirs =>
    intro id hid
    rw [htheirs', mem_append, mem_singleton] at hid
    rcases hid with hid | rfl
    · exact ⟨(h.theirs id hid).1, le_trans (h.theirs id hid).2 (Nat.le_of_lt habove)⟩
    · exact ⟨hparity, Nat.le_refl _⟩
  case high =>
    right
    rw [htheirs']
    exact mem_append_right _ (mem_singleton_self _)
  case rows =>
    intro id
    rw [life_append]
    by_cases hid : id = frame.stream
    · rw [hid, hself]
      exact hrow
    · rw [hafter id hid]
      change Row (streams.lookup id) _
      rw [hother id hid]
      exact h.rows id
  case unnamed =>
    intro id
    rw [life_append, hours', htheirs', mem_append, mem_singleton]
    by_cases hid : id = frame.stream
    · rw [hid, hself]
      rcases htold .unnamed with hl | hl <;> simp [hl]
    · rw [hafter id hid, h.unnamed id]
      simp [hid]
  case closes =>
    intro id
    rw [life_append]
    refine h.closes_kept hclosed id ?_
    by_cases hid : id = frame.stream
    · rw [hid, hself, hunnamed]
      exact Nat.zero_le _
    · rw [hafter id hid]

theorem Tracks.received (h : Tracks role s) {outcome : Except MuxError Event}
    (htakes : Takes s.mux frame m outcome) :
    Tracks role { mux := m, log := s.log ++ [.received frame outcome] } := by
  cases htakes with
  | link hk => exact h.still (.refl _) h.small h.rows trivial
  | badOpen hk => exact h.still (.refl _) h.small h.rows trivial
  | named outcome hk hours habove hout =>
    have hnone : s.mux.streams.lookup frame.stream = none := by
      refine (h.rows frame.stream).absent (.inl ?_)
      rw [h.unnamed]
      constructor
      · intro hmem
        rw [Mux.ours, h.side, h.opens_ours hmem] at hours
        cases hours
      · intro hmem
        exact absurd (h.theirs _ hmem).2 (Nat.not_le.mpr habove)
    rcases hout with rfl | rfl
    all_goals
      refine h.names hours habove h.small rfl rfl (fun _ => .inr rfl) ?_ fun _ _ => rfl
      rw [hnone]
      exact .inr rfl
  | accepted spec hk hours habove hroom =>
    refine h.names hours habove ?_ rfl rfl (fun _ => .inl rfl) ?_ ?_
    · refine le_trans ?_ hroom
      cases hl : s.mux.streams.lookup frame.stream with
      | none => exact Nat.le_of_eq (len_insert hl _)
      | some old =>
        rw [len_insert_old hl]
        exact Nat.le_succ _
    · rw [lookup_insert, if_pos rfl]
      rfl
    · intro id hid
      rw [lookup_insert, if_neg hid]
  | absent hof hl =>
    refine h.still (.refl _) h.small h.rows ?_
    split <;> trivial
  | stays state outcome hof hl hstill hnot => exact h.still (.refl _) h.small h.rows hstill
  | keeps state new outcome hof hl hpeer hpeer' hwe hstill hmessage =>
    refine h.still (m := s.mux.setStream frame.stream new) ⟨rfl, rfl, rfl⟩ ?_
      (Row.insert h.rows ?_ fun _ _ => rfl) hstill
    · change (s.mux.streams.insert frame.stream new).len ≤ maxStreams
      rw [len_insert_old hl]
      exact h.small
    · rw [h.row hl, Mux.Stream.life, Mux.Stream.life, hpeer, hpeer', hwe]
  | refused state hof hl =>
    refine h.ends (Mux.same_forget _ _) (le_trans (len_erase_le _ _) h.small) rfl hl ?_ ?_
      ?_ ?_ (by intro id hid; cases hid)
    · rw [Mux.forget, lookup_erase, if_pos rfl]
      exact .inr rfl
    · intro id hid
      rw [Mux.forget, lookup_erase, if_neg hid]
    · simp [Life.told]
    · simp [Happened.closed, Life.told]
      cases state.life <;> decide
  | closed state hof hl hpeer =>
    have honly : ∀ id, (Happened.received frame
        (.ok (.closed frame.stream frame.payload !state.weClosed))).closed = some id →
        id = frame.stream := by
      intro id hid
      exact (some.inj hid).symm
    have hcount : (Happened.received frame
        (.ok (.closed frame.stream frame.payload !state.weClosed))).closed.toList.count
          frame.stream = 1 := by
      simp [Happened.closed]
    cases hwe : state.weClosed with
    | true =>
      rw [hwe] at honly hcount
      have hlife : state.life = .weClosed := by simp [Mux.Stream.life, hpeer, hwe]
      refine h.ends (Mux.same_forget _ _) (le_trans (len_erase_le _ _) h.small) rfl hl ?_ ?_
        ?_ ?_ honly
      · rw [Mux.forget, lookup_erase, if_pos rfl, hlife]
        exact .inr rfl
      · intro id hid
        rw [Mux.forget, lookup_erase, if_neg hid]
      · rw [hlife]
        simp [Life.told, Life.peerClose]
      · rw [hcount, hlife]
        simp [Life.told, Life.peerClose, Life.closes]
    | false =>
      rw [hwe] at honly hcount
      have hlife : state.life = .open := by simp [Mux.Stream.life, hpeer, hwe]
      rw [if_neg Bool.false_ne_true]
      refine h.ends (m := s.mux.setStream frame.stream _) ⟨rfl, rfl, rfl⟩ ?_ rfl hl ?_ ?_ ?_ ?_
        honly
      · change (s.mux.streams.insert frame.stream _).len ≤ maxStreams
        rw [len_insert_old hl]
        exact h.small
      · rw [Mux.setStream, lookup_insert, if_pos rfl, hlife]
        rfl
      · intro id hid
        rw [Mux.setStream, lookup_insert, if_neg hid]
      · rw [hlife]
        simp [Life.told, Life.peerClose]
      · rw [hcount, hlife]
        simp [Life.told, Life.peerClose, Life.closes]

namespace MuxRun

theorem tracks_apply (h : Tracks role s) (e : MuxCall) : Tracks role (s.apply e) := by
  cases e with
  | openStream spec =>
    by_cases hroom : s.mux.streams.len ≥ maxStreams
    · simp only [apply, Mux.openStream, if_pos hroom]
      exact h
    · simp only [apply, Mux.openStream, if_neg hroom]
      exact h.opened (Nat.not_le.mp hroom) spec
  | close stream => exact h.sentClose stream
  | forget stream => exact h.forgot stream
  | delivered stream bytes => exact h.delivered stream bytes
  | receive message spec =>
    simp only [apply]
    split
    · next error hd =>
      have hsame : (s.mux.receive message spec).1 = s.mux := by
        simp only [Mux.receive, hd]
      rw [hsame]
      exact h
    · next frame hd => exact h.received (takes_receive hd spec)

theorem tracks_of_reachable (h : (machine role).Reachable s) : Tracks role s := by
  refine h.invariant (.start role) ?_
  intro s e t ht hs
  obtain rfl := some.inj hs
  exact tracks_apply ht e

end MuxRun

/-! ## What a frame means -/

theorem Tracks.named_iff (h : Tracks role s) {id : Nat} (hzero : id ≠ 0)
    (hunnamed : life id s.log = .unnamed) :
    s.mux.named id = true ↔ PassedOver role s.log id := by
  obtain ⟨hours, htheirs⟩ := (h.unnamed id).mp hunnamed
  unfold Mux.named Mux.ours PassedOver
  rw [h.side]
  cases hparity : role.opens id with
  | true =>
    rw [h.mem_ours hparity hzero] at hours
    simp [hours]
  | false =>
    simp only [Bool.false_eq_true, if_false, decide_eq_true_iff, true_and]
    constructor
    · intro hle
      refine ⟨htheirs, s.mux.peerHigh, ?_⟩
      rcases h.high with hhigh | hhigh
      · rw [hhigh] at hle
        exact absurd (Nat.le_zero.mp hle) hzero
      · refine ⟨hhigh, lt_of_le_of_ne hle ?_⟩
        rintro rfl
        exact htheirs hhigh
    · rintro ⟨-, higher, hmem, hlt⟩
      exact le_trans (Nat.le_of_lt hlt) (h.theirs higher hmem).2

theorem Tracks.named_of_gone (h : Tracks role s) {id : Nat} (hzero : id ≠ 0)
    (hgone : life id s.log = .gone) : s.mux.named id = true := by
  have hnot : ¬ (id ∉ s.log.filterMap Happened.ours ∧ id ∉ s.log.filterMap Happened.theirs) := by
    rw [← h.unnamed id, hgone]
    decide
  unfold Mux.named Mux.ours
  rw [h.side]
  by_cases hours : id ∈ s.log.filterMap Happened.ours
  · have hparity := h.opens_ours hours
    rw [if_pos hparity]
    exact decide_eq_true ((h.mem_ours hparity hzero).mp hours)
  · have htheirs : id ∈ s.log.filterMap Happened.theirs := by
      by_contra hnone
      exact hnot ⟨hours, hnone⟩
    obtain ⟨hparity, hle⟩ := h.theirs id htheirs
    rw [hparity, if_neg Bool.false_ne_true]
    exact decide_eq_true hle

theorem Tracks.judged_iff (h : Tracks role s) {message : Bytes} (hd : decode message = .ok frame)
    (spec : Bytes → Option StreamSpec) :
    Judged s.log frame (s.mux.receive message spec).2 ↔
      (frame.OfStream → ¬ PassedOver role s.log frame.stream) := by
  have hzero : frame.OfStream → frame.stream ≠ 0 := by
    intro hof h0
    exact hof.1 ((decode_ok_iff.mp hd).1.link.mpr h0)
  constructor
  · intro hjudged hof hpassed
    -- a passed over id is unnamed, yet the table takes it for named
    have hunnamed : life frame.stream s.log = .unnamed := by
      rw [h.unnamed]
      refine ⟨fun hmem => ?_, hpassed.2.1⟩
      have hparity := hpassed.1
      rw [h.opens_ours hmem] at hparity
      cases hparity
    have hnamed := (h.named_iff (hzero hof) hunnamed).mpr hpassed
    have hnone := (h.rows frame.stream).absent (.inl hunnamed)
    have hout := hjudged.neverOpened hof hunnamed
    rw [Mux.receive_of_stream hd hof.1 hof.2, Mux.onStream, hnone, if_pos hnamed] at hout
    cases hout
  · intro hnone
    have htakes := takes_receive (m := s.mux) hd spec
    have hlate : frame.OfStream → life frame.stream s.log = .gone →
        (s.mux.receive message spec).2 = .ok (.late frame.stream) := by
      intro hof hgone
      have hl := (h.rows frame.stream).absent (.inr hgone)
      rw [Mux.receive_of_stream hd hof.1 hof.2, Mux.onStream, hl,
        if_pos (h.named_of_gone (hzero hof) hgone)]
    have hnever : frame.OfStream → life frame.stream s.log = .unnamed →
        (s.mux.receive message spec).2 = .error (.neverOpened frame.stream) := by
      intro hof hunnamed
      have hl := (h.rows frame.stream).absent (.inl hunnamed)
      have hnamed : ¬ s.mux.named frame.stream = true := by
        rw [h.named_iff (hzero hof) hunnamed]
        exact hnone hof
      rw [Mux.receive_of_stream hd hof.1 hof.2, Mux.onStream, hl, if_neg hnamed]
    refine ⟨?_, hlate, hnever⟩
    intro stream msg hmsg
    generalize (s.mux.receive message spec).1 = m, (s.mux.receive message spec).2 = outcome
      at htakes hmsg
    cases htakes with
    | link hk => cases hmsg
    | badOpen hk => cases hmsg
    | named _ _ _ _ hout => rcases hout with rfl | rfl <;> cases hmsg
    | accepted spec hk hours habove hroom => cases hmsg
    | absent hof hl => split at hmsg <;> cases hmsg
    | stays state _ hof hl hstill hnot => exact absurd hmsg (hnot stream msg)
    | keeps state new _ hof hl hpeer _ _ hstill hmessage =>
      obtain rfl := hmessage stream msg hmsg
      refine ⟨rfl, ?_⟩
      rw [h.row hl, Mux.Stream.life, if_neg (by simp [hpeer])]
      split <;> rfl
    | refused state hof hl => cases hmsg
    | closed state hof hl hpeer => cases hmsg

/-! ## The law of a run -/

theorem Tracks.closedOnce (h : Tracks role s) (stream : StreamId) :
    (s.log.filterMap Happened.closed).count stream ≤ 1 := by
  refine le_trans (h.closes stream) ?_
  cases life stream s.log <;> decide

theorem Tracks.fresh (h : Tracks role s) :
    (s.log.filterMap Happened.ours ++ s.log.filterMap Happened.theirs).Nodup := by
  rw [nodup_append]
  refine ⟨?_, h.rising.imp Nat.ne_of_lt, ?_⟩
  · rw [h.ours]
    exact nodup_range' 2 (by decide)
  · intro a ha b hb hab
    have hours := h.opens_ours ha
    rw [hab, (h.theirs b hb).1] at hours
    cases hours

theorem received_append {log before after : List Happened} {e : Happened} {frame : Frame}
    {outcome : Except MuxError Event}
    (h : log ++ [e] = before ++ .received frame outcome :: after) :
    (before = log ∧ e = .received frame outcome) ∨
      ∃ rest, log = before ++ .received frame outcome :: rest := by
  rcases eq_nil_or_concat after with rfl | ⟨rest, last, rfl⟩
  · obtain ⟨rfl, he⟩ := append_inj' h rfl
    exact .inl ⟨rfl, singleton_inj.mp he⟩
  · right
    refine ⟨rest, ?_⟩
    have hshape : before ++ .received frame outcome :: rest.concat last =
        (before ++ .received frame outcome :: rest) ++ [last] := by simp
    rw [hshape] at h
    exact (append_inj' h rfl).1

/-- Every frame of a run meant what it should, or was for an id the peer had passed over. -/
def Weighed (role : Role) (log : List Happened) : Prop :=
  ∀ before frame outcome after, log = before ++ .received frame outcome :: after →
    (Judged before frame outcome ↔ (frame.OfStream → ¬ PassedOver role before frame.stream))

theorem Weighed.quiet {log : List Happened} (h : Weighed role log) {e : Happened}
    (he : ∀ frame outcome, e ≠ .received frame outcome) : Weighed role (log ++ [e]) := by
  intro before frame outcome after heq
  rcases received_append heq with ⟨rfl, rfl⟩ | ⟨rest, hlog⟩
  · exact absurd rfl (he frame outcome)
  · exact h before frame outcome rest hlog

namespace MuxRun

theorem weighed_apply (h : Tracks role s) (hw : Weighed role s.log) (e : MuxCall) :
    Weighed role (s.apply e).log := by
  cases e with
  | openStream spec =>
    simp only [apply]
    split
    · exact hw.quiet (by intro frame outcome heq; cases heq)
    · exact hw
  | close stream => exact hw.quiet (by intro frame outcome heq; cases heq)
  | forget stream => exact hw.quiet (by intro frame outcome heq; cases heq)
  | delivered stream bytes => exact hw
  | receive message spec =>
    simp only [apply]
    split
    · exact hw
    · next frame hd =>
      intro before f outcome after heq
      rcases received_append heq with ⟨rfl, he⟩ | ⟨rest, hlog⟩
      · cases he
        exact h.judged_iff hd spec
      · exact hw before f outcome rest hlog

theorem weighed_of_reachable (h : (machine role).Reachable s) : Weighed role s.log := by
  refine h.invariant_of (P := fun s => Weighed role s.log) ?_ ?_
  · intro before frame outcome after heq
    simp [machine] at heq
  · intro s e t hs hw _ hnext
    obtain rfl := some.inj hnext
    exact weighed_apply (tracks_of_reachable hs.reachable) hw e

/-- Whatever one end does and is sent: no more streams are live than the limit, and what
happened keeps the life cycle of every stream (ids of their opener's parity and never used
again, messages of streams the peer has not closed, one CLOSE of the peer's at most, a
frame of a stream that is gone too late, one of an id never named an error), exactly when
no frame of a stream came for an id of the peer's that it had passed over. -/
theorem lifecycle_iff {role : Role} {s : MuxRun} (h : (machine role).Reachable s) :
    (s.mux.streams.len ≤ maxStreams ∧ Lawful role s.log) ↔ NonePassedOver role s.log := by
  have htracks := tracks_of_reachable h
  have hweighed := weighed_of_reachable h
  constructor
  · rintro ⟨-, hlawful⟩ before frame outcome after heq
    exact (hweighed before frame outcome after heq).mp
      (hlawful.judged before frame outcome after heq)
  · intro hnone
    refine ⟨htracks.small, ?_⟩
    constructor
    case ours => intro stream hmem; exact htracks.opens_ours hmem
    case theirs => intro stream hmem; exact (htracks.theirs stream hmem).1
    case fresh => exact htracks.fresh
    case closedOnce => exact htracks.closedOnce
    case judged =>
      intro before frame outcome after heq
      exact (hweighed before frame outcome after heq).mpr (hnone before frame outcome after heq)

def serveAll (_ : Bytes) : Option StreamSpec := some { windowed := false, messageBound := 16 }

/-- The peer opens stream 1, speaks on it, and closes it. -/
theorem lifecycle_iff_closed :
    ∃ s, (machine .acceptor).Reachable s ∧ life 1 s.log = .gone ∧
      ((s.mux.streams.len ≤ maxStreams ∧ Lawful .acceptor s.log) ↔
        NonePassedOver .acceptor s.log) := by
  obtain ⟨s, hreach, hp⟩ := Machine.exists_of_run (M := machine .acceptor)
    (fun s => decide (life 1 s.log = .gone))
    [.receive [1, 1] serveAll, .receive [3, 1, 104] serveAll, .receive [5, 1] serveAll, .close 1]
    (by decide)
  exact ⟨s, hreach, of_decide_eq_true hp, lifecycle_iff hreach⟩

/-- The peer opens streams 1 and 5, and a frame of stream 3, which no one opened, is taken
for one that came too late. -/
theorem passed_over_as_gone :
    ∃ s, (machine .acceptor).Reachable s ∧
      ¬ (s.mux.streams.len ≤ maxStreams ∧ Lawful .acceptor s.log) := by
  have hopen := Machine.Reachable.next (M := machine .acceptor) (e := .receive [1, 1] serveAll)
    .start rfl
  have hskip := hopen.next (e := .receive [1, 5] serveAll) rfl
  have htext := hskip.next (e := .receive [3, 3] serveAll) rfl
  refine ⟨_, htext, ?_⟩
  rintro ⟨-, hlawful⟩
  have hjudged := hlawful.judged
    [.received { kind := .open, fragment := false, stream := 1, payload := [] }
        (.ok (.opened 1 [] { windowed := false, messageBound := 16 })),
      .received { kind := .open, fragment := false, stream := 5, payload := [] }
        (.ok (.opened 5 [] { windowed := false, messageBound := 16 }))]
    { kind := .text, fragment := false, stream := 3, payload := [] } (.ok (.late 3)) [] rfl
  have hout := hjudged.neverOpened ⟨by decide, by decide⟩ (by decide)
  cases hout

end MuxRun
end VibeField.Freeway
