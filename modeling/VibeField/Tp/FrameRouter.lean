import VibeField.Base.Broadcast

/-!
# The frame router

One router reads the cell's hub and sends each packet on the channel of its session.  It may fall
behind the hub, and a subscriber behind its channel; a subscriber is told of either loss before the
packets after it.
-/

namespace VibeField.Tp.Frames

open List

structure FramePacket where
  ordinal : Nat
  sessionHandle : Nat
  frame : List UInt8
  deriving DecidableEq, Repr

def ROUTE_CAPACITY : Nat := 32

inductive Routed where
  | frame (packet : FramePacket)
  | gap
  deriving DecidableEq, Repr

def Routed.packet? : Routed → Option FramePacket
  | .frame packet => some packet
  | .gap => none

inductive FrameLoss where
  | lost
  | closed
  deriving DecidableEq, Repr

/-- A session's channel: what was sent on it, and whether the table holds its sender. -/
structure Route where
  sessionHandle : Nat
  sent : List Routed := []
  held : Bool := true
  deriving DecidableEq, Repr

/-- A receiver's place on its channel. -/
structure Rx where
  channel : Nat
  position : Nat
  deriving DecidableEq, Repr

/-- `ahead` is what was published on the hub and the router has yet to read, `passed` what it has
gone past since it subscribed.  `by_handle` is the routes that are held. -/
structure FrameRouter where
  hubCapacity : Nat
  passed : List FramePacket := []
  ahead : List FramePacket := []
  hubClosed : Bool := false
  routes : List Route := []
  closed : Bool := false
  subscriptions : List (Option Rx) := []
  deriving DecidableEq, Repr

namespace FrameRouter

def receiverCount (r : FrameRouter) (channel : Nat) : Nat :=
  r.subscriptions.countP fun rx => rx.any fun rx => rx.channel = channel

/-- Sends to some of the table's routes; one that nobody listens to leaves the table. -/
def send (r : FrameRouter) (hears : Nat → Bool) (item : Routed) : FrameRouter :=
  { r with
    routes := r.routes.mapIdx fun channel x =>
      if x.held && hears x.sessionHandle then
        if r.receiverCount channel = 0 then { x with held := false }
        else { x with sent := x.sent ++ [item] }
      else x }

def route (r : FrameRouter) (packet : FramePacket) : FrameRouter :=
  r.send (· == packet.sessionHandle) (.frame packet)

def gap (r : FrameRouter) : FrameRouter := r.send (fun _ => true) .gap

def close (r : FrameRouter) : FrameRouter :=
  { r with closed := true, routes := r.routes.map fun x => { x with held := false } }

def prune (r : FrameRouter) : FrameRouter :=
  { r with
    routes := r.routes.mapIdx fun channel x =>
      { x with held := x.held && r.receiverCount channel != 0 } }

def listen (r : FrameRouter) (rx : Option Rx) : FrameRouter :=
  { r with subscriptions := r.subscriptions ++ [rx] }

def find (r : FrameRouter) (handle : Nat) : Option Nat :=
  r.routes.findIdx? fun x => x.held && x.sessionHandle == handle

def subscribe (r : FrameRouter) (handle : Nat) : FrameRouter :=
  if r.closed then r.listen none
  else
    match r.prune.find handle with
    | some channel =>
      r.prune.listen (some ⟨channel, (r.prune.routes[channel]?.elim [] Route.sent).length⟩)
    | none =>
      { r.prune.listen (some ⟨r.prune.routes.length, 0⟩) with
        routes := r.prune.routes ++ [{ sessionHandle := handle }] }

def goPast (r : FrameRouter) (n : Nat) : FrameRouter :=
  { r with passed := r.passed ++ r.ahead.take n, ahead := r.ahead.drop n }

/-- One turn of the routing task. -/
def turn (r : FrameRouter) : FrameRouter :=
  if r.closed then r
  else
    match Broadcast.recv r.hubCapacity r.ahead r.hubClosed 0 with
    | .item packet next => (r.route packet).goPast next
    | .lagged next => r.gap.goPast next
    | .closed => r.close
    | .waiting => r

def read (r : FrameRouter) (rx : Rx) : Broadcast.Read Routed :=
  match r.routes[rx.channel]? with
  | some x => Broadcast.recv ROUTE_CAPACITY x.sent (!x.held) rx.position
  | none => .closed

def moved (r : FrameRouter) (id : Nat) (rx : Option Rx) : FrameRouter :=
  { r with subscriptions := r.subscriptions.set id rx }

/-- A subscriber asks for its next frame: what it is answered, if it does not wait. -/
def recv (r : FrameRouter) (id : Nat) : FrameRouter × Option (Except FrameLoss FramePacket) :=
  match r.subscriptions[id]? with
  | some (some rx) =>
    match r.read rx with
    | .item item next => (r.moved id (some ⟨rx.channel, next⟩),
        some (item.packet?.elim (.error .lost) .ok))
    | .lagged next => (r.moved id (some ⟨rx.channel, next⟩), some (.error .lost))
    | .closed => (r, some (.error .closed))
    | .waiting => (r, none)
  | _ => (r, some (.error .closed))

inductive Op where
  | publish (packet : FramePacket)
  | closeHub
  | turn
  | drop
  | subscribe (handle : Nat)
  | recv (id : Nat)
  | unsubscribe (id : Nat)

def apply (r : FrameRouter) : Op → FrameRouter
  | .publish packet => if r.hubClosed then r else { r with ahead := r.ahead ++ [packet] }
  | .closeHub => { r with hubClosed := true }
  | .turn => r.turn
  | .drop => r.close
  | .subscribe handle => r.subscribe handle
  | .recv id => (r.recv id).1
  | .unsubscribe id => r.moved id none

/-- What an answer tells: a packet, or a loss. -/
def told : Option (Except FrameLoss FramePacket) → List (Option FramePacket)
  | some (.ok packet) => [some packet]
  | some (.error .lost) => [none]
  | _ => []

/-- A run since a subscription to a session's frames, with what the subscriber was told. -/
inductive Since (start : FrameRouter) (handle : Nat) :
    List (Option FramePacket) → FrameRouter → Prop
  | subscribe : Since start handle [] (start.subscribe handle)
  | recv {log : List (Option FramePacket)} {r : FrameRouter} : Since start handle log r →
      Since start handle (log ++ told (r.recv start.subscriptions.length).2)
        (r.recv start.subscriptions.length).1
  | op {log : List (Option FramePacket)} {r : FrameRouter} (op : Op) : Since start handle log r →
      op ≠ .recv start.subscriptions.length → op ≠ .unsubscribe start.subscriptions.length →
      Since start handle log (r.apply op)

/-- What a session's channel carries of what the router read off the hub. -/
def routed (handle : Nat) (marks : List (Option FramePacket)) : List Routed :=
  marks.filterMap fun m => m.elim (some .gap) fun packet =>
    if packet.sessionHandle = handle then some (.frame packet) else none

/-- The channel carries what the router read off the hub, with a gap wherever it fell behind, and
the subscriber was told what it read off the channel, with a loss wherever it fell behind. -/
structure Relayed (handle : Nat) (read : List FramePacket) (given waiting : List Routed)
    (log : List (Option FramePacket)) : Prop where
  hub : ∃ marks, Skims read marks ∧ routed handle marks = given ++ waiting
  channel : ∃ reads, Skims given reads ∧ log = reads.map fun m => m.bind Routed.packet?

/-- Where a subscription stands on its channel; one to a router that had closed has none. -/
inductive Stands (r : FrameRouter) (id handle : Nat) (given waiting : List Routed) : Prop
  | nowhere : r.closed = true → r.subscriptions[id]? = some none → waiting = [] →
      Stands r id handle given waiting
  | on (rx : Rx) (x : Route) (before : List Routed) : r.subscriptions[id]? = some (some rx) →
      r.routes[rx.channel]? = some x → x.sessionHandle = handle →
      x.sent = before ++ given ++ waiting → (before ++ given).length = rx.position →
      (r.closed = false → x.held = true) → Stands r id handle given waiting

variable {r r' start : FrameRouter} {handle id : Nat} {rx : Rx} {given waiting : List Routed}
  {log : List (Option FramePacket)} {read : List FramePacket}

theorem receiverCount_ne (h : r.subscriptions[id]? = some (some rx)) :
    r.receiverCount rx.channel ≠ 0 :=
  Nat.ne_of_gt (countP_pos_iff.mpr ⟨_, mem_of_getElem? h, by simp⟩)

/-- A step of others adds some items to the channel, and leaves the rest of it alone. -/
theorem Stands.later (h : r.Stands id handle given waiting) (items : List Routed)
    (hsub : ∀ rx, r.subscriptions[id]? = some rx → r'.subscriptions[id]? = some rx)
    (hclosed : r.closed = true → r'.closed = true ∧ items = [])
    (hroute : ∀ c x, r.routes[c]? = some x → x.sessionHandle = handle → r.receiverCount c ≠ 0 →
      (r.closed = false → x.held = true) →
      ∃ held, r'.routes[c]? = some { x with sent := x.sent ++ items, held := held } ∧
        (r'.closed = false → held = true)) :
    r'.Stands id handle given (waiting ++ items) := by
  cases h with
  | nowhere hc hnone hwaiting =>
    obtain ⟨hc', hitems⟩ := hclosed hc
    exact .nowhere hc' (hsub _ hnone) (by rw [hwaiting, hitems]; rfl)
  | on rx x before hrx hx hhandle hhas hplace hheld =>
    obtain ⟨held, hx', hheld'⟩ := hroute _ x hx hhandle (receiverCount_ne hrx) hheld
    exact .on rx _ before (hsub _ hrx) hx' hhandle (by rw [hhas, append_assoc]) hplace hheld'

/-- A step that leaves the routes and the router as they are. -/
theorem Stands.same (h : r.Stands id handle given waiting)
    (hsub : ∀ rx, r.subscriptions[id]? = some rx → r'.subscriptions[id]? = some rx)
    (hclosed : r'.closed = r.closed) (hroutes : r'.routes = r.routes) :
    r'.Stands id handle given waiting := by
  cases h with
  | nowhere hc hnone hwaiting => exact .nowhere (hclosed.trans hc) (hsub _ hnone) hwaiting
  | on rx x before hrx hx hhandle hhas hplace hheld =>
    exact .on rx x before (hsub _ hrx) (hroutes ▸ hx) hhandle hhas hplace (hclosed ▸ hheld)

theorem Stands.send (h : r.Stands id handle given waiting) (hopen : r.closed = false)
    (hears : Nat → Bool) (item : Routed) (next : Nat) :
    Stands ((r.send hears item).goPast next) id handle given
      (waiting ++ if hears handle then [item] else []) := by
  refine h.later _ (fun _ hrx => hrx) (fun hc => by rw [hopen] at hc; cases hc)
    fun c x hx hhandle hcount hheld => ⟨true, ?_, fun _ => rfl⟩
  subst hhandle
  show (r.routes.mapIdx _)[c]? = _
  rw [getElem?_mapIdx, hx, Option.map_some, hheld hopen, Bool.true_and]
  by_cases hh : hears x.sessionHandle = true
  · rw [if_pos hh, if_neg hcount, if_pos hh]
  · rw [if_neg hh, if_neg hh, append_nil, ← hheld hopen]

theorem Stands.close (h : r.Stands id handle given waiting) :
    r.close.Stands id handle given waiting := by
  have hlater : r.close.Stands id handle given (waiting ++ []) := h.later []
    (fun _ hrx => hrx) (fun _ => ⟨rfl, rfl⟩)
    fun c x hx _ _ _ => ⟨false, ?_, fun hopen => by cases hopen⟩
  · rwa [append_nil] at hlater
  · show (r.routes.map _)[c]? = _
    rw [getElem?_map, hx, append_nil]
    rfl

theorem Stands.prune (h : r.Stands id handle given waiting) :
    r.prune.Stands id handle given waiting := by
  have hlater : r.prune.Stands id handle given (waiting ++ []) := h.later []
    (fun _ hrx => hrx) (fun hc => ⟨hc, rfl⟩) fun c x hx _ hcount hheld => ⟨x.held, ?_, hheld⟩
  · rwa [append_nil] at hlater
  · show (r.routes.mapIdx _)[c]? = _
    rw [getElem?_mapIdx, hx, Option.map_some, append_nil, bne_iff_ne.mpr hcount, Bool.and_true]

theorem Stands.listen (h : r.Stands id handle given waiting) (new : Option Rx)
    (routes : List Route) :
    Stands { r.listen new with routes := r.routes ++ routes } id handle given waiting := by
  have hlater : Stands { r.listen new with routes := r.routes ++ routes } id handle given
      (waiting ++ []) := h.later []
    (fun _ hrx => ?_) (fun hc => ⟨hc, rfl⟩) fun c x hx _ _ hheld => ⟨x.held, ?_, hheld⟩
  · rwa [append_nil] at hlater
  · show (r.subscriptions ++ [new])[id]? = _
    rw [getElem?_append_left (List.getElem?_eq_some_iff.mp hrx).1, hrx]
  · show (r.routes ++ routes)[c]? = _
    rw [getElem?_append_left (List.getElem?_eq_some_iff.mp hx).1, hx, append_nil]

theorem Stands.subscribe (h : r.Stands id handle given waiting) (handle' : Nat) :
    (r.subscribe handle').Stands id handle given waiting := by
  unfold FrameRouter.subscribe
  split
  · have hlisten := h.listen none []
    rwa [append_nil] at hlisten
  · split
    · next channel _ =>
      have hlisten := h.prune.listen
        (some ⟨channel, (r.prune.routes[channel]?.elim [] Route.sent).length⟩) []
      rwa [append_nil] at hlisten
    · exact h.prune.listen _ _

/-- The subscriber's own place moves on along the channel. -/
theorem Stands.move {x : Route} {before skipped : List Routed} {next : Nat}
    (hrx : r.subscriptions[id]? = some (some rx)) (hx : r.routes[rx.channel]? = some x)
    (hhandle : x.sessionHandle = handle)
    (hhas : x.sent = before ++ given ++ (skipped ++ waiting))
    (hnext : (before ++ given ++ skipped).length = next)
    (hheld : r.closed = false → x.held = true) :
    (r.moved id (some ⟨rx.channel, next⟩)).Stands id handle (given ++ skipped) waiting := by
  refine .on ⟨rx.channel, next⟩ x before ?_ hx hhandle ?_ ?_ hheld
  · rw [moved, getElem?_set_self (List.getElem?_eq_some_iff.mp hrx).1]
  · rw [hhas]
    simp only [append_assoc]
  · rw [← append_assoc]
    exact hnext

theorem routed_append (l l' : List (Option FramePacket)) :
    routed handle (l ++ l') = routed handle l ++ routed handle l' := filterMap_append

theorem Relayed.nil : Relayed handle [] [] [] [] where
  hub := ⟨[], .nil, rfl⟩
  channel := ⟨[], .nil, rfl⟩

/-- A subscriber's read takes the next item, or passes over some. -/
theorem Relayed.take {item : Routed} (h : Relayed handle read given ([item] ++ waiting) log) :
    Relayed handle read (given ++ [item]) waiting (log ++ [item.packet?]) where
  hub := by
    rw [append_assoc]
    exact h.hub
  channel := by
    obtain ⟨reads, hskims, rfl⟩ := h.channel
    exact ⟨_, hskims.snoc item, by rw [map_append]; rfl⟩

theorem Relayed.lag {skipped : List Routed}
    (h : Relayed handle read given (skipped ++ waiting) log) (hne : skipped ≠ []) :
    Relayed handle read (given ++ skipped) waiting (log ++ [none]) where
  hub := by
    rw [append_assoc]
    exact h.hub
  channel := by
    obtain ⟨reads, hskims, rfl⟩ := h.channel
    exact ⟨_, hskims.snoc_passed hne, by rw [map_append]; rfl⟩

/-- The router read a packet, or passed over some. -/
theorem Relayed.route (h : Relayed handle read given waiting log) (packet : FramePacket) :
    Relayed handle (read ++ [packet]) given
      (waiting ++ if handle == packet.sessionHandle then [.frame packet] else []) log where
  hub := by
    obtain ⟨marks, hskims, hrouted⟩ := h.hub
    refine ⟨_, hskims.snoc packet, ?_⟩
    rw [routed_append, hrouted, append_assoc]
    by_cases hp : packet.sessionHandle = handle
    · simp [routed, hp]
    · simp [routed, hp, Ne.symm hp]
  channel := h.channel

theorem Relayed.gap {skipped : List FramePacket} (h : Relayed handle read given waiting log)
    (hne : skipped ≠ []) :
    Relayed handle (read ++ skipped) given (waiting ++ [.gap]) log where
  hub := by
    obtain ⟨marks, hskims, hrouted⟩ := h.hub
    refine ⟨_, hskims.snoc_passed hne, ?_⟩
    rw [routed_append, hrouted, append_assoc]
    rfl
  channel := h.channel

/-! ## Runs since a subscription -/

/-- How a run since the subscription stands to what the router read and the subscriber was told. -/
structure Follows (start : FrameRouter) (handle : Nat) (log : List (Option FramePacket))
    (r : FrameRouter) (read : List FramePacket) (given waiting : List Routed) : Prop where
  passed : r.passed = start.passed ++ read
  ahead : start.ahead <+: read ++ r.ahead
  relayed : Relayed handle read given waiting log
  stands : r.Stands start.subscriptions.length handle given waiting

theorem Follows.of_same (h : Follows start handle log r read given waiting)
    (hpassed : r'.passed = r.passed) (hahead : r'.ahead = r.ahead)
    (hstands : r'.Stands start.subscriptions.length handle given waiting) :
    Follows start handle log r' read given waiting where
  passed := hpassed.trans h.passed
  ahead := by
    rw [hahead]
    exact h.ahead
  relayed := h.relayed
  stands := hstands

theorem same_subscribe (handle : Nat) : (r.subscribe handle).passed = r.passed ∧
    (r.subscribe handle).ahead = r.ahead := by
  unfold FrameRouter.subscribe
  split
  · exact ⟨rfl, rfl⟩
  · split <;> exact ⟨rfl, rfl⟩

/-- The subscriber stands at the end of its channel. -/
theorem Follows.first (start : FrameRouter) (handle : Nat) :
    Follows start handle [] (start.subscribe handle) [] [] [] := by
  obtain ⟨hpassed, hahead⟩ := same_subscribe (r := start) handle
  refine ⟨by rw [hpassed, append_nil], by rw [hahead]; exact prefix_rfl, .nil, ?_⟩
  have hlast : ∀ new, (start.subscriptions ++ [new])[start.subscriptions.length]? = some new :=
    fun _ => getElem?_concat_length
  unfold FrameRouter.subscribe
  split
  · next hc => exact .nowhere hc (hlast _) rfl
  · split
    · next channel hfind =>
      obtain ⟨hlt, hp, -⟩ := findIdx?_eq_some_iff_getElem.mp hfind
      rw [Bool.and_eq_true, beq_iff_eq] at hp
      have hx := getElem?_eq_getElem hlt
      refine .on _ _ _ (hlast _) hx hp.2 (by rw [append_nil, append_nil]) ?_ fun _ => hp.1
      rw [append_nil, hx]
      rfl
    · exact .on _ _ [] (hlast _) getElem?_concat_length rfl rfl rfl fun _ => rfl

/-- A reader told that it lags passes over the first of what it has yet to read. -/
theorem take_of_lag {α : Type} {l rest : List α} {place n : Nat} (hrest : l.drop place = rest)
    (hlt : 0 < n) (hle : place + n ≤ l.length) :
    (rest.take n).length = n ∧ rest.take n ≠ [] := by
  have hlength : (rest.take n).length = n := by
    rw [length_take, ← hrest, length_drop]
    omega
  refine ⟨hlength, fun he => ?_⟩
  rw [he] at hlength
  exact absurd hlength (Nat.ne_of_lt hlt)

theorem Follows.goPast (h : Follows start handle log r read given waiting) {n : Nat}
    {waiting' : List Routed} (hr' : r'.passed = r.passed ∧ r'.ahead = r.ahead)
    (hrelayed : Relayed handle (read ++ r.ahead.take n) given waiting' log)
    (hstands : (r'.goPast n).Stands start.subscriptions.length handle given waiting') :
    Follows start handle log (r'.goPast n) (read ++ r.ahead.take n) given waiting' where
  passed := by
    rw [FrameRouter.goPast, hr'.1, hr'.2, h.passed, append_assoc]
  ahead := by
    rw [FrameRouter.goPast, hr'.2, append_assoc, take_append_drop]
    exact h.ahead
  relayed := hrelayed
  stands := hstands

/-- A turn reads one packet, or passes over some, or nothing. -/
theorem Follows.turn (h : Follows start handle log r read given waiting) :
    ∃ read waiting, Follows start handle log r.turn read given waiting := by
  unfold FrameRouter.turn
  cases hc : r.closed with
  | true =>
    rw [if_pos rfl]
    exact ⟨read, waiting, h⟩
  | false =>
    rw [if_neg Bool.false_ne_true]
    split
    · next packet next hread =>
      obtain ⟨rfl, hitem⟩ := Broadcast.of_recv_item hread
      have htake : r.ahead.take 1 = [packet] := by
        rw [← drop_zero (l := r.ahead), hitem]
        rfl
      exact ⟨_, _, h.goPast ⟨rfl, rfl⟩ (htake ▸ h.relayed.route packet)
        (h.stands.send hc _ _ _)⟩
    · next next hread =>
      obtain ⟨hlt, hle⟩ := Broadcast.lt_of_recv_lagged hread
      have hne := (take_of_lag (drop_zero (l := r.ahead)) hlt (by omega)).2
      exact ⟨_, _, h.goPast ⟨rfl, rfl⟩ (h.relayed.gap hne) (h.stands.send hc _ _ _)⟩
    · exact ⟨read, waiting, h.of_same rfl rfl h.stands.close⟩
    · exact ⟨read, waiting, h⟩

/-- A subscriber's read moves it alone. -/
theorem recv_moved (r : FrameRouter) (id : Nat) :
    (r.recv id).1 = r ∨ ∃ rx, (r.recv id).1 = r.moved id rx := by
  unfold recv
  split
  · split
    · exact .inr ⟨_, rfl⟩
    · exact .inr ⟨_, rfl⟩
    · exact .inl rfl
    · exact .inl rfl
  · exact .inl rfl

theorem Follows.moved (h : Follows start handle log r read given waiting) {other : Nat}
    (hne : other ≠ start.subscriptions.length) (rx : Option Rx) :
    Follows start handle log (r.moved other rx) read given waiting :=
  h.of_same rfl rfl
    (h.stands.same (fun _ hrx => (getElem?_set_ne hne).trans hrx) rfl rfl)

/-- What others do. -/
theorem Follows.apply (h : Follows start handle log r read given waiting) (op : Op)
    (hrecv : op ≠ .recv start.subscriptions.length)
    (hleft : op ≠ .unsubscribe start.subscriptions.length) :
    ∃ read waiting, Follows start handle log (r.apply op) read given waiting := by
  cases op with
  | publish packet =>
    rw [FrameRouter.apply]
    split
    · exact ⟨read, waiting, h⟩
    · refine ⟨read, waiting, h.passed, ?_, h.relayed,
        h.stands.same (fun _ hrx => hrx) rfl rfl⟩
      rw [← append_assoc]
      exact h.ahead.trans (prefix_append _ _)
  | closeHub =>
    exact ⟨read, waiting, h.of_same rfl rfl (h.stands.same (fun _ hrx => hrx) rfl rfl)⟩
  | turn => exact h.turn
  | drop => exact ⟨read, waiting, h.of_same rfl rfl h.stands.close⟩
  | subscribe handle' =>
    obtain ⟨hpassed, hahead⟩ := same_subscribe (r := r) handle'
    exact ⟨read, waiting, h.of_same hpassed hahead (h.stands.subscribe handle')⟩
  | recv other =>
    refine ⟨read, waiting, ?_⟩
    show Follows start handle log (r.recv other).1 _ _ _
    rcases recv_moved r other with he | ⟨rx, he⟩
    · rw [he]
      exact h
    · rw [he]
      exact h.moved (fun hid => hrecv (hid ▸ rfl)) rx
  | unsubscribe other =>
    exact ⟨read, waiting, h.moved (fun hid => hleft (hid ▸ rfl)) none⟩

/-- What the subscriber's own read gives it. -/
theorem Follows.recv (h : Follows start handle log r read given waiting) :
    ∃ given waiting, Follows start handle (log ++ told (r.recv start.subscriptions.length).2)
      (r.recv start.subscriptions.length).1 read given waiting := by
  have hquiet : log ++ [] = log := append_nil _
  unfold FrameRouter.recv
  cases h.stands with
  | nowhere hc hnone hwaiting =>
    rw [hnone]
    exact ⟨given, waiting, hquiet.symm ▸ h⟩
  | on rx x before hrx hx hhandle hhas hplace hheld =>
    rw [hrx]
    have hwaiting : x.sent.drop rx.position = waiting := by
      rw [← hplace, hhas, drop_left]
    have hreads : r.read rx = Broadcast.recv ROUTE_CAPACITY x.sent (!x.held) rx.position := by
      rw [FrameRouter.read, hx]
    have hmove : ∀ {n : Nat}, (waiting.take n).length = n →
        (r.moved start.subscriptions.length (some ⟨rx.channel, rx.position + n⟩)).Stands
          start.subscriptions.length handle (given ++ waiting.take n) (waiting.drop n) := by
      intro n hlength
      refine Stands.move hrx hx hhandle (by rw [take_append_drop]; exact hhas) ?_ hheld
      rw [length_append, hplace, hlength]
    have hrelayed : ∀ n, Relayed handle read given (waiting.take n ++ waiting.drop n) log :=
      fun n => by rw [take_append_drop]; exact h.relayed
    dsimp only
    split
    · next item next hread =>
      obtain ⟨rfl, hitem⟩ := Broadcast.of_recv_item (hreads ▸ hread)
      have htake : waiting.take 1 = [item] := by
        rw [← hwaiting, hitem]
        rfl
      have htold : told (some (item.packet?.elim (.error .lost) .ok)) = [item.packet?] := by
        cases item <;> rfl
      rw [htold]
      have hmoved := hmove (n := 1) (by rw [htake]; rfl)
      have htaken := hrelayed 1
      rw [htake] at hmoved htaken
      exact ⟨_, _, h.passed, h.ahead, htaken.take, hmoved⟩
    · next next hread =>
      obtain ⟨hlt, hle⟩ := Broadcast.lt_of_recv_lagged (hreads ▸ hread)
      obtain ⟨n, rfl⟩ := Nat.exists_eq_add_of_lt hlt
      obtain ⟨hlength, hne⟩ := take_of_lag hwaiting n.succ_pos hle
      exact ⟨_, _, h.passed, h.ahead, (hrelayed (n + 1)).lag hne, hmove hlength⟩
    · exact ⟨given, waiting, hquiet.symm ▸ h⟩
    · exact ⟨given, waiting, hquiet.symm ▸ h⟩

/-- A subscriber that waits, or is told that nothing more will come, has read its whole channel. -/
theorem Stands.drained (h : r.Stands id handle given waiting)
    (hquiet : (r.recv id).2 = none ∨ (r.recv id).2 = some (.error .closed)) : waiting = [] := by
  cases h with
  | nowhere _ _ hwaiting => exact hwaiting
  | on rx x before hrx hx hhandle hhas hplace =>
    have hread : r.read rx = .closed ∨ r.read rx = .waiting := by
      unfold recv at hquiet
      rw [hrx] at hquiet
      dsimp only at hquiet
      split at hquiet
      · next item _ _ =>
        cases item <;> rcases hquiet with hquiet | hquiet <;> cases hquiet
      · rcases hquiet with hquiet | hquiet <;> cases hquiet
      · next hread => exact .inl hread
      · next hread => exact .inr hread
    rw [FrameRouter.read, hx] at hread
    have hle := Broadcast.drained_of_recv hread
    rw [hhas, length_append, hplace] at hle
    exact eq_nil_of_length_eq_zero (by omega)

theorem Since.follows (h : Since start handle log r) :
    ∃ read given waiting, Follows start handle log r read given waiting := by
  induction h with
  | subscribe => exact ⟨[], [], [], .first start handle⟩
  | recv _ ih =>
    obtain ⟨read, given, waiting, hfollows⟩ := ih
    exact ⟨read, hfollows.recv⟩
  | op op _ hrecv hleft ih =>
    obtain ⟨read, given, waiting, hfollows⟩ := ih
    obtain ⟨read, waiting, hfollows⟩ := hfollows.apply op hrecv hleft
    exact ⟨read, given, waiting, hfollows⟩

end FrameRouter
end VibeField.Tp.Frames
