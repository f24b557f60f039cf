import VibeField.Base.Machine
import VibeField.Freeway.Order
import VibeField.Freeway.Queues

/-!
# Messages across a link

A `Carriage` is one side's writer with a record of what was queued on each stream and
the frames it emitted.  The peer decodes every frame and gathers each stream's TEXT
and BINARY frames into messages.  At every moment what it has of a stream, followed by
what the writer still holds of it, is what was queued there before the stream's end.
-/

namespace VibeField.Freeway

open List Option
open Peers (framesOf framesOf_append)

/-! ## What a peer gathers -/

def Reassembly.gatherOne (g : Reassembly × List (Except ReassemblyError Message)) (f : Frame) :
    Reassembly × List (Except ReassemblyError Message) :=
  match g.1.push f with
  | (r, .ok none) => (r, g.2)
  | (r, .ok (some m)) => (r, g.2 ++ [.ok m])
  | (r, .error e) => (r, g.2 ++ [.error e])

def Reassembly.gather (bound : Nat) (fs : List Frame) :
    Reassembly × List (Except ReassemblyError Message) :=
  (fs.filter fun f => f.kind.fragments).foldl gatherOne (.new bound, [])

def Frame.last (f : Frame) : Bool := f.kind = .close || f.kind = .openRefused

def Queued.message (q : Queued) : Option Message :=
  match q.kind with
  | .text => (String.fromUTF8? (ByteArray.mk q.payload.toArray)).map .text
  | .binary => some (.binary q.payload)
  | _ => none

/-- A message within the bound, UTF-8 if it is text. -/
def Queued.Fits (q : Queued) (bound : Nat) : Prop :=
  q.kind.fragments = true → q.payload.length ≤ bound ∧ q.message.isSome = true

def messagesOf (qs : List Queued) : List Message :=
  (qs.takeWhile fun q => !q.last).filterMap Queued.message

def Queued.whole (q : Queued) : Queued := { q with sent := 0 }

theorem messagesOf_map_whole (qs : List Queued) : messagesOf (qs.map .whole) = messagesOf qs := by
  rw [messagesOf, takeWhile_map, filterMap_map]
  rfl

theorem messagesOf_append {done : List Queued} (h : ∀ q ∈ done, q.last = false)
    (qs : List Queued) :
    messagesOf (done ++ qs) = done.filterMap Queued.message ++ messagesOf qs := by
  have hall : ∀ q ∈ done, (!q.last) = true := fun q hq => by rw [h q hq]; rfl
  rw [messagesOf, takeWhile_append_of_pos hall, filterMap_append]
  rfl

namespace Reassembly

def Holds (r : Reassembly) : Option Queued → Prop
  | some q =>
    if q.kind.fragments = true then
      r.bytes = q.payload.take q.sent ∧ ∀ kind ∈ r.kind, kind = q.kind
    else r.bytes = [] ∧ r.kind = none
  | none => r.bytes = [] ∧ r.kind = none

theorem Holds.of_clean {r : Reassembly} (hbytes : r.bytes = []) (hkind : r.kind = none)
    {q : Option Queued} (hsent : ∀ q' ∈ q, q'.sent = 0) : r.Holds q := by
  cases q with
  | none => exact ⟨hbytes, hkind⟩
  | some q =>
    unfold Holds
    dsimp only
    split
    · rw [hsent q rfl, hkind]
      exact ⟨hbytes, fun _ h => by cases h⟩
    · exact ⟨hbytes, hkind⟩

theorem gatherOne_cut {g : Reassembly × List (Except ReassemblyError Message)} {q : Queued}
    (hholds : g.1.Holds (some q)) (hfrag : q.kind.fragments = true) (hfits : q.Fits g.1.bound)
    {v : Writer} {stop : Nat} (hstop : stop = min (q.sent + v.fragmentBytes) q.payload.length)
    (x : StreamId) :
    gatherOne g (v.cut x q).1 =
      if stop < q.payload.length then
        ({ g.1 with bytes := q.payload.take stop, kind := some q.kind }, g.2)
      else ({ g.1 with bytes := [], kind := none }, g.2 ++ q.message.toList.map .ok) := by
  obtain ⟨r, ms⟩ := g
  have hheld : r.bytes = q.payload.take q.sent ∧ ∀ kind ∈ r.kind, kind = q.kind := by
    simpa only [Holds, if_pos hfrag] using hholds
  obtain ⟨hbytes, hkind⟩ := hheld
  obtain ⟨hlength, hmessage⟩ := hfits hfrag
  have hcut : (v.cut x q).1 =
      { kind := q.kind
        fragment := decide (stop < q.payload.length)
        stream := x
        payload := (q.payload.take stop).drop q.sent } := by
    unfold Writer.cut
    rw [if_pos (FrameType.fragments_iff.mp hfrag), hstop]
  have hany : r.kind.any (fun first => decide (first ≠ q.kind)) = false := by
    cases hr : r.kind with
    | none => rfl
    | some kind => simp [hkind kind hr]
  have hjoin : q.payload.take q.sent ++ (q.payload.take stop).drop q.sent =
      if stop < q.payload.length then q.payload.take stop else q.payload := by
    split
    · next hlt =>
      have hle : q.sent ≤ stop := by omega
      rw [show q.payload.take q.sent = (q.payload.take stop).take q.sent by
        rw [take_take, Nat.min_eq_left hle], take_append_drop]
    · next hge =>
      have hall : stop = q.payload.length := by omega
      rw [hall, take_length, take_append_drop]
  have hbound : r.bytes.length + ((q.payload.take stop).drop q.sent).length ≤ r.bound := by
    rw [hbytes, ← length_append, hjoin]
    split
    · exact Nat.le_trans (by simp) hlength
    · exact hlength
  have hpush : r.push (v.cut x q).1 =
      if stop < q.payload.length then
        ({ r with bytes := q.payload.take stop, kind := some q.kind }, .ok none)
      else ({ r with bytes := [], kind := none }, .ok q.message) := by
    rw [hcut, push]
    simp only [hfrag, Bool.not_true, Bool.false_eq_true, if_false, hany, Nat.not_lt.mpr hbound,
      decide_eq_true_eq]
    rw [hbytes, hjoin]
    split
    · rfl
    · rcases FrameType.fragments_iff.mp hfrag with hk | hk
      · simp only [hk, Queued.message, Queued.message] at hmessage ⊢
        cases htext : String.fromUTF8? (ByteArray.mk q.payload.toArray) with
        | none => rw [htext] at hmessage; cases hmessage
        | some text => rfl
      · simp [hk, Queued.message]
  unfold gatherOne
  rw [hpush]
  obtain ⟨m, hm⟩ := isSome_iff_exists.mp hmessage
  split
  · next heq => split at heq <;> simp_all
  · next heq => split at heq <;> simp_all
  · next heq => split at heq <;> simp_all

end Reassembly
/-! ## A writer and what it carried -/

structure Carriage where
  writer : Writer
  /-- the streams that have begun -/
  begun : List StreamId
  /-- everything queued on a stream that has begun -/
  queued : StreamId → List Queued
  /-- the frames emitted -/
  wire : List Bytes

namespace Carriage

inductive Event where
  | openStream (stream : StreamId) (cls : Class) (windowed : Bool)
  | queue (stream : StreamId) (kind : FrameType) (payload : Bytes)
  | queueLink (payload : Bytes)
  | reclass (stream : StreamId) (cls : Class)
  | grant (stream : StreamId) (bytes : Nat)
  | setCap (bytes : Nat)
  | setFragmentBytes (bytes : Nat)
  | acked (delivered : Nat)
  | nextFrame

/-- An id is a nonzero word, and no stream takes another's. -/
def next (s : Carriage) : Event → Option Carriage
  | .openStream x cls windowed =>
    if x ≠ 0 ∧ x < 2 ^ 64 ∧ x ∉ s.begun then
      some { s with writer := s.writer.openStream x cls windowed, begun := x :: s.begun }
    else none
  | .queue x kind payload =>
    some { s with
      writer := s.writer.queue x kind payload
      queued :=
        if x ∈ s.begun then
          Function.update s.queued x
            (s.queued x ++ [{ kind := kind, payload := payload, sent := 0 }])
        else s.queued }
  | .queueLink payload =>
    match encode { kind := .link, fragment := false, stream := 0, payload := payload } with
    | .error _ => none
    | .ok frame => some { s with writer := s.writer.queueLink frame }
  | .reclass x cls => some { s with writer := s.writer.reclass x cls }
  | .grant x bytes => some { s with writer := s.writer.grant x bytes }
  | .setCap bytes => some { s with writer := s.writer.setCap bytes }
  | .setFragmentBytes bytes => some { s with writer := s.writer.setFragmentBytes bytes }
  | .acked delivered => some { s with writer := s.writer.acked delivered }
  | .nextFrame =>
    match s.writer.nextFrame with
    | (w, none) => some { s with writer := w }
    | (w, some frame) => some { s with writer := w, wire := s.wire ++ [frame] }

def machine : Machine Carriage Event where
  start := { writer := .new, begun := [], queued := fun _ => [], wire := [] }
  next := next

def frames (s : Carriage) (x : StreamId) : List Frame :=
  (framesOf s.wire).filter fun f => f.stream = x

def received (s : Carriage) (x : StreamId) (bound : Nat) :
    List (Except ReassemblyError Message) :=
  (Reassembly.gather bound (s.frames x)).2

def held (s : Carriage) (x : StreamId) : List Message :=
  messagesOf ((s.writer.queueOf x).getD [])

variable {s s' : Carriage} {x : StreamId} {bound : Nat}

/-! ## Where a stream stands -/

/-- The frames gathered so far made the messages that are done, and the reassembly
holds what was sent of the next. -/
structure Gathered (bound : Nat) (fs : List Frame) (done : List Queued)
    (front : Option Queued) : Prop where
  limit : (Reassembly.gather bound fs).1.bound = bound
  made : (Reassembly.gather bound fs).2 = (done.filterMap Queued.message).map .ok
  holds : (Reassembly.gather bound fs).1.Holds front

/-- How a stream's frames stand to what was queued and what its writer has left.  What
the peer gathered is known where the bound admits what was queued. -/
inductive Stands (bound : Nat) (queued : List Queued) (fs : List Frame) :
    Option (List Queued) → Prop
  | live {done queue : List Queued} :
      queued = done ++ queue.map .whole → (∀ q ∈ done, q.last = false) →
        (∀ f ∈ fs, f.last = false) → (∀ q ∈ queue.tail, q.sent = 0) →
          ((∀ q ∈ queued, q.Fits bound) → Gathered bound fs done queue.head?) →
            Stands bound queued fs (some queue)
  | ended {done rest : List Queued} {l : Queued} {pre : List Frame} {f : Frame} :
      queued = done ++ l :: rest → (∀ q ∈ done, q.last = false) → l.last = true →
        fs = pre ++ [f] → (∀ f ∈ pre, f.last = false) → f.last = true →
          ((∀ q ∈ queued, q.Fits bound) → Gathered bound fs done none) →
            Stands bound queued fs none

theorem gather_append (bound : Nat) (fs : List Frame) (f : Frame) :
    Reassembly.gather bound (fs ++ [f]) =
      if f.kind.fragments then Reassembly.gatherOne (Reassembly.gather bound fs) f
      else Reassembly.gather bound fs := by
  unfold Reassembly.gather
  rw [filter_append, foldl_append]
  cases hf : f.kind.fragments <;> simp [hf]

variable {behind done queued : List Queued} {f : Frame} {fs : List Frame} {head q : Queued}
  {v w : Writer} {x : StreamId}

theorem Gathered.front (h : Gathered bound fs done none) {front : Option Queued}
    (hsent : ∀ q ∈ front, q.sent = 0) : Gathered bound fs done front :=
  ⟨h.limit, h.made, .of_clean h.holds.1 h.holds.2 hsent⟩

theorem Gathered.control {front : Option Queued} (h : Gathered bound fs done front)
    (hf : f.kind.fragments = false) : Gathered bound (fs ++ [f]) done front := by
  have heq : Reassembly.gather bound (fs ++ [f]) = Reassembly.gather bound fs := by
    rw [gather_append, hf, if_neg Bool.false_ne_true]
  exact ⟨heq ▸ h.limit, heq ▸ h.made, heq ▸ h.holds⟩

theorem Gathered.settled (h : Gathered bound fs done (some q)) (hq : q.kind.fragments = false) :
    Gathered bound fs done none :=
  ⟨h.limit, h.made,
    by simpa only [Reassembly.Holds, hq, Bool.false_eq_true, if_false] using h.holds⟩

theorem Gathered.done_control {front : Option Queued} (h : Gathered bound fs done front)
    (hq : q.kind.fragments = false) : Gathered bound fs (done ++ [q]) front := by
  have hmessage : q.message = none := by
    unfold Queued.message
    cases hk : q.kind <;> simp_all [FrameType.fragments]
  refine ⟨h.limit, ?_, h.holds⟩
  rw [h.made, filterMap_append, filterMap_cons_none hmessage, filterMap_nil,
    append_nil]

theorem last_cut (v : Writer) (x : StreamId) (q : Queued) : (v.cut x q).1.last = q.last := by
  unfold Frame.last Queued.last
  rw [Writer.cut_kind]

theorem Queued.last_eq_false (h : q.kind.fragments = true) : q.last = false := by
  rcases FrameType.fragments_iff.mp h with hk | hk <;> simp [Queued.last, hk]

theorem forall_append_singleton {α : Type} {p : α → Prop} {l : List α} {a : α}
    (hl : ∀ b ∈ l, p b) (ha : p a) : ∀ b ∈ l ++ [a], p b := fun b hb =>
  (mem_append.mp hb).elim (hl b) fun hb => mem_singleton.mp hb ▸ ha

theorem Stands.dropped (h : Stands bound queued fs (some (head :: behind)))
    (hfrag : head.kind.fragments = false) (hend : head.last = false) :
    Stands bound queued fs (some behind) := by
  cases h with
  | @live done _ hqueued hdone hfs htail hgathered =>
    have hsplit : queued = (done ++ [head.whole]) ++ behind.map .whole := by rw [hqueued]; simp
    refine .live hsplit (forall_append_singleton hdone hend) hfs
      (fun q hq => htail q (mem_of_mem_tail hq)) ?_
    exact fun hfits =>
      (((hgathered hfits).settled hfrag).done_control (q := head.whole) hfrag).front fun q hq =>
        htail q (List.mem_of_mem_head? hq)

theorem Stands.control {queued queue : List Queued} (h : Stands bound queued fs (some queue))
    (hfrag : f.kind.fragments = false) (hend : f.last = false) :
    Stands bound queued (fs ++ [f]) (some queue) := by
  cases h with
  | @live done _ hqueued hdone hfs htail hgathered =>
    exact .live hqueued hdone (forall_append_singleton hfs hend) htail
      fun hfits => (hgathered hfits).control hfrag

theorem leftover_control (hfrag : head.kind.fragments = false) :
    v.leftover x head behind = behind :=
  if_pos (Writer.cut_rest_sent hfrag)

theorem leftover_message (hfrag : head.kind.fragments = true) :
    v.leftover x head behind =
      if min (head.sent + v.fragmentBytes) head.payload.length < head.payload.length then
        { head with sent := min (head.sent + v.fragmentBytes) head.payload.length } :: behind
      else behind := by
  have hrest : (v.cut x head).2.1 =
      { head with sent := min (head.sent + v.fragmentBytes) head.payload.length } := by
    unfold Writer.cut
    rw [if_pos (FrameType.fragments_iff.mp hfrag)]
  unfold Writer.leftover
  rw [hrest]
  dsimp only
  split
  · next hge => rw [if_neg (Nat.not_lt.mpr hge)]
  · next hlt => rw [if_pos (Nat.lt_of_not_le hlt)]

theorem Gathered.fragment (h : Gathered bound fs done (some head)) (hfits : head.Fits bound)
    (hfrag : head.kind.fragments = true) {stop : Nat}
    (hstop : stop = min (head.sent + v.fragmentBytes) head.payload.length) (x : StreamId) :
    if stop < head.payload.length then
      Gathered bound (fs ++ [(v.cut x head).1]) done (some { head with sent := stop })
    else Gathered bound (fs ++ [(v.cut x head).1]) (done ++ [head.whole]) none := by
  have hgather := gather_append bound fs (v.cut x head).1
  rw [Writer.cut_kind, if_pos hfrag, Reassembly.gatherOne_cut h.holds hfrag
    (by rw [h.limit]; exact hfits) hstop x] at hgather
  split
  · next hlt =>
    rw [if_pos hlt] at hgather
    refine ⟨?_, ?_, ?_⟩
    · rw [hgather]
      exact h.limit
    · rw [hgather]
      exact h.made
    · rw [hgather]
      simp [Reassembly.Holds, hfrag]
  · next hge =>
    rw [if_neg hge] at hgather
    obtain ⟨m, hm⟩ := isSome_iff_exists.mp (hfits hfrag).2
    refine ⟨?_, ?_, ?_⟩
    · rw [hgather]
      exact h.limit
    · rw [hgather, h.made, filterMap_append, map_append,
        filterMap_cons_some (a := head.whole) (b := m) hm, hm]
      rfl
    · rw [hgather]
      exact ⟨rfl, rfl⟩

theorem Stands.fragment (h : Stands bound queued fs (some (head :: behind)))
    (hfrag : head.kind.fragments = true) (v : Writer) (x : StreamId) :
    Stands bound queued (fs ++ [(v.cut x head).1]) (some (v.leftover x head behind)) := by
  cases h with
  | @live done _ hqueued hdone hfs htail hgathered =>
    have hend : head.last = false := Queued.last_eq_false hfrag
    have hframes := forall_append_singleton hfs ((last_cut v x head).trans hend)
    obtain ⟨stop, hstop⟩ : ∃ stop, stop = min (head.sent + v.fragmentBytes) head.payload.length :=
      ⟨_, rfl⟩
    have hfragment := fun hfits : ∀ q ∈ queued, q.Fits bound =>
      (hgathered hfits).fragment (hfits head.whole (by rw [hqueued]; simp)) hfrag hstop x
    rw [leftover_message hfrag, ← hstop]
    split
    · next hlt =>
      simp only [if_pos hlt] at hfragment
      exact .live hqueued hdone hframes htail hfragment
    · next hge =>
      simp only [if_neg hge] at hfragment
      have hsplit : queued = (done ++ [head.whole]) ++ behind.map .whole := by rw [hqueued]; simp
      refine .live hsplit (forall_append_singleton hdone hend) hframes
        (fun q hq => htail q (mem_of_mem_tail hq)) fun hfits => ?_
      exact (hfragment hfits).front fun q hq => htail q (List.mem_of_mem_head? hq)

theorem Stands.sent (h : Stands bound queued fs (some (head :: behind))) (v : Writer)
    (x : StreamId) :
    Stands bound queued (fs ++ [(v.cut x head).1])
      (if head.last then none else some (v.leftover x head behind)) := by
  cases hfrag : head.kind.fragments with
  | true =>
    rw [Queued.last_eq_false hfrag, if_neg Bool.false_ne_true]
    exact h.fragment hfrag v x
  | false =>
    have hcontrol : (v.cut x head).1.kind.fragments = false := by
      rw [Writer.cut_kind]
      exact hfrag
    cases hend : head.last with
    | true =>
      cases h with
      | @live done _ hqueued hdone hfs htail hgathered =>
        exact .ended (l := head.whole) hqueued hdone hend rfl hfs ((last_cut v x head).trans hend)
          fun hfits => ((hgathered hfits).settled hfrag).control hcontrol
    | false =>
      rw [if_neg Bool.false_ne_true, leftover_control hfrag]
      exact (h.control hcontrol ((last_cut v x head).trans hend)).dropped hfrag hend

theorem Stands.queue {queued queue : List Queued} (h : Stands bound queued fs (some queue))
    (q : Queued) (hq : q.sent = 0) : Stands bound (queued ++ [q]) fs (some (queue ++ [q])) := by
  have hwhole : q.whole = q := by rw [Queued.whole, ← hq]
  cases h with
  | @live done _ hqueued hdone hfs htail hgathered =>
    have hsplit : queued ++ [q] = done ++ (queue ++ [q]).map .whole := by
      rw [hqueued]
      simp [hwhole]
    refine .live hsplit hdone hfs ?_ ?_
    · cases queue with
      | nil => exact fun _ h => by cases h
      | cons head behind => exact forall_append_singleton htail hq
    · intro hfits
      have hold := hgathered fun q hq => hfits q (mem_append_left _ hq)
      cases queue with
      | nil => exact hold.front fun q' hq' => by cases hq'; exact hq
      | cons head behind => exact hold

theorem Stands.queue_ended (h : Stands bound queued fs none) (q : Queued) :
    Stands bound (queued ++ [q]) fs none := by
  cases h with
  | @ended done rest l pre f hqueued hdone hl hfs hpre hf hgathered =>
    have hsplit : queued ++ [q] = done ++ l :: (rest ++ [q]) := by rw [hqueued]; simp
    exact .ended hsplit hdone hl hfs hpre hf
      fun hfits => hgathered fun q hq => hfits q (mem_append_left _ hq)

theorem Stands.start (bound : Nat) : Stands bound [] [] (some []) :=
  .live (append_nil []).symm (fun _ h => by cases h) (fun _ h => by cases h)
    (fun _ h => by cases h) fun _ => ⟨rfl, rfl, .of_clean rfl rfl fun _ h => by cases h⟩

/-! ## The whole link -/

/-- Every stream stands as it should, and what has not begun has neither a queue nor
frames. -/
structure Kept (s : Carriage) : Prop where
  ids : ∀ x ∈ s.begun, x ≠ 0 ∧ x < 2 ^ 64
  links : ∀ m ∈ s.writer.link, ∃ payload,
    decode m = .ok { kind := .link, fragment := false, stream := 0, payload := payload }
  decoded : ∀ m ∈ s.wire, ∃ f, decode m = .ok f
  fresh : ∀ x, x ∉ s.begun →
    s.writer.queueOf x = none ∧ s.queued x = [] ∧ (x ≠ 0 → s.frames x = [])
  stands : ∀ x ∈ s.begun, ∀ bound,
    Stands bound (s.queued x) (s.frames x) (s.writer.queueOf x)

theorem frames_append (s : Carriage) (w : Writer) {message : Bytes} (h : decode message = .ok f)
    (x : StreamId) :
    ({ s with writer := w, wire := s.wire ++ [message] } : Carriage).frames x =
      s.frames x ++ if f.stream = x then [f] else [] := by
  show (framesOf (s.wire ++ [message])).filter _ = _
  rw [framesOf_append h, filter_append]
  congr 1
  by_cases hx : f.stream = x <;> simp [hx]

theorem Kept.idle (h : s.Kept) (hi : s.writer.Idle w) : Kept { s with writer := w } :=
  ⟨h.ids, by rw [hi.link]; exact h.links, h.decoded,
    fun x hx => ⟨(hi.queues x).trans (h.fresh x hx).1, (h.fresh x hx).2⟩,
    fun x hx bound => by
      rw [show ({ s with writer := w } : Carriage).writer.queueOf x = _ from hi.queues x]
      exact h.stands x hx bound⟩

theorem Kept.gives (h : s.Kept) {frame : Frame} (hg : s.writer.Gives w frame) :
    (∀ message, encode frame = .ok message →
      Kept { s with writer := w, wire := s.wire ++ [message] }) ∧
    ∀ e, encode frame = .error e → Kept { s with writer := w } := by
  obtain ⟨v, x, head, behind, hx, rfl, hqueues⟩ := hg.queues
  have hbegun : x ∈ s.begun := by
    by_contra hnot
    rw [(h.fresh x hnot).1] at hx
    cases hx
  obtain ⟨hne, hlt⟩ := h.ids x hbegun
  have hfresh : ∀ y, y ∉ s.begun → y ≠ x := fun y hy he => hy (he ▸ hbegun)
  have hstream : (v.cut x head).1.stream = x := Writer.cut_stream _ _ _
  constructor
  · intro message hencode
    have hdecode : decode message = .ok (v.cut x head).1 :=
      decode_encode (by rw [hstream]; exact hlt) hencode
    refine ⟨h.ids, by rw [hg.link]; exact h.links, forall_append_singleton h.decoded ⟨_, hdecode⟩,
      fun y hy => ?_, fun y hy bound => ?_⟩
    · obtain ⟨hqueue, hqueued, hframes⟩ := h.fresh y hy
      refine ⟨by rw [hqueues, if_neg (hfresh y hy)]; exact hqueue, hqueued, fun hy0 => ?_⟩
      rw [frames_append s w hdecode, hframes hy0, hstream, if_neg (hfresh y hy).symm]
      rfl
    · rw [frames_append s w hdecode, hstream]
      have hstands := h.stands y hy bound
      by_cases hxy : y = x
      · subst hxy
        rw [if_pos rfl, hqueues, if_pos rfl]
        rw [hx] at hstands
        exact hstands.sent v y
      · rw [if_neg (Ne.symm hxy), append_nil, hqueues, if_neg hxy]
        exact hstands
  · intro e hencode
    -- only a LINK or a bad WINDOW queued on a stream is refused
    have hkind : head.kind = .link ∨ head.kind = .window := by
      by_contra hnot
      rw [not_or] at hnot
      have hcheck : check (v.cut x head).1 = .ok () := by
        refine check_ok (by rwa [hstream]) (by rw [Writer.cut_kind]; exact hnot.1)
          (by rw [Writer.cut_kind]; exact hnot.2) ?_
        unfold Writer.cut
        split
        · next hm => exact fun _ => FrameType.fragments_iff.mpr hm
        · exact fun hf => by cases hf
      obtain ⟨message, hok⟩ := encode_ok hcheck
      rw [hok] at hencode
      cases hencode
    have hfrag : head.kind.fragments = false := by rcases hkind with hk | hk <;> rw [hk] <;> rfl
    have hend : head.last = false := by
      unfold Queued.last
      rcases hkind with hk | hk <;> rw [hk] <;> rfl
    refine ⟨h.ids, by rw [hg.link]; exact h.links, h.decoded, fun y hy => ?_,
      fun y hy bound => ?_⟩
    · obtain ⟨hqueue, hrest⟩ := h.fresh y hy
      exact ⟨by rw [hqueues, if_neg (hfresh y hy)]; exact hqueue, hrest⟩
    · have hstands := h.stands y hy bound
      show Stands bound (s.queued y) (s.frames y) (w.queueOf y)
      rw [hqueues]
      by_cases hxy : y = x
      · subst hxy
        rw [if_pos rfl, hend, if_neg Bool.false_ne_true, leftover_control hfrag]
        rw [hx] at hstands
        exact hstands.dropped hfrag hend
      · rw [if_neg hxy]
        exact hstands

def drawn (s : Carriage) (r : Writer × Option Bytes) : Carriage :=
  match r with
  | (w, none) => { s with writer := w }
  | (w, some frame) => { s with writer := w, wire := s.wire ++ [frame] }

theorem Kept.drew (h : s.Kept) {r : Writer × Option Bytes} (hd : Writer.Drew w r)
    (hw : s.writer = w) : (s.drawn r).Kept := by
  induction hd generalizing s with
  | nothing hi => exact h.idle (hw ▸ hi)
  | found hg he => exact (h.gives (hw ▸ hg)).1 _ he
  | @dropped w w' frame e r hg he hr ih =>
    have hkept := ih ((h.gives (hw ▸ hg)).2 e he) rfl
    obtain ⟨_, _ | _⟩ := r <;> exact hkept

theorem Kept.link (h : s.Kept) {message : Bytes} {rest : List Bytes}
    (hlink : s.writer.link = message :: rest) (hrest : w.link = rest)
    (hqueues : ∀ y, w.queueOf y = s.writer.queueOf y) :
    Kept { s with writer := w, wire := s.wire ++ [message] } := by
  obtain ⟨payload, hdecode⟩ := h.links message (hlink ▸ mem_cons_self)
  have hframes : ∀ y, y ≠ 0 →
      ({ s with writer := w, wire := s.wire ++ [message] } : Carriage).frames y = s.frames y := by
    intro y hy
    rw [frames_append s w hdecode]
    dsimp only
    rw [if_neg (Ne.symm hy), append_nil]
  refine ⟨h.ids, fun m hm => h.links m (by rw [hlink]; exact mem_cons_of_mem _ (hrest ▸ hm)),
    forall_append_singleton h.decoded ⟨_, hdecode⟩, fun y hy => ?_, fun y hy bound => ?_⟩
  · obtain ⟨hqueue, hqueued, hnone⟩ := h.fresh y hy
    exact ⟨(hqueues y).trans hqueue, hqueued, fun hy0 => (hframes y hy0).trans (hnone hy0)⟩
  · rw [hframes y (h.ids y hy).1]
    rw [show ({ s with writer := w, wire := s.wire ++ [message] } : Carriage).writer.queueOf y = _
      from hqueues y]
    exact h.stands y hy bound

theorem Kept.queue (h : s.Kept) (x : StreamId) (kind : FrameType) (payload : Bytes) :
    Kept { s with
      writer := s.writer.queue x kind payload
      queued :=
        if x ∈ s.begun then
          Function.update s.queued x
            (s.queued x ++ [{ kind := kind, payload := payload, sent := 0 }])
        else s.queued } := by
  have hqueues := fun y => Writer.queueOf_queue s.writer x y kind payload
  have hqueued : ∀ y, y ≠ x → (if x ∈ s.begun then
      Function.update s.queued x (s.queued x ++ [{ kind := kind, payload := payload, sent := 0 }])
      else s.queued) y = s.queued y := by
    intro y hy
    split
    · exact Function.update_of_ne hy _ _
    · rfl
  refine ⟨h.ids, by rw [Writer.link_queue]; exact h.links, h.decoded, fun y hy => ?_,
    fun y hy bound => ?_⟩
  · obtain ⟨hqueue, hnone, hframes⟩ := h.fresh y hy
    refine ⟨?_, ?_, hframes⟩
    · rw [hqueues]
      split
      · next hxy => rw [← hxy, hqueue]; rfl
      · exact hqueue
    · by_cases hxy : y = x
      · subst hxy
        dsimp only
        rw [if_neg hy]
        exact hnone
      · exact (hqueued y hxy).trans hnone
  · by_cases hxy : y = x
    · subst hxy
      dsimp only
      rw [if_pos hy, Function.update_self]
      rw [hqueues, if_pos rfl]
      have hstands := h.stands y hy bound
      cases hqueue : s.writer.queueOf y with
      | none =>
        rw [hqueue] at hstands
        exact hstands.queue_ended _
      | some queue =>
        rw [hqueue] at hstands
        exact hstands.queue _ rfl
    · dsimp only
      rw [hqueued y hxy]
      rw [hqueues, if_neg hxy]
      exact h.stands y hy bound

theorem Kept.openStream (h : s.Kept) (hx : x ≠ 0 ∧ x < 2 ^ 64 ∧ x ∉ s.begun) (cls : Class)
    (windowed : Bool) :
    Kept { s with writer := s.writer.openStream x cls windowed, begun := x :: s.begun } := by
  have hqueues := fun y => Writer.queueOf_openStream s.writer x y cls windowed
  obtain ⟨hne, hlt, hnew⟩ := hx
  refine ⟨fun y hy => ?_, h.links, h.decoded, fun y hy => ?_, fun y hy bound => ?_⟩
  · rcases mem_cons.mp hy with rfl | hy
    · exact ⟨hne, hlt⟩
    · exact h.ids y hy
  · obtain ⟨hxy, hy⟩ := ne_and_not_mem_of_not_mem_cons hy
    obtain ⟨hqueue, hrest⟩ := h.fresh y hy
    exact ⟨by rw [hqueues, if_neg hxy]; exact hqueue, hrest⟩
  · dsimp only
    rw [hqueues]
    by_cases hxy : y = x
    · subst hxy
      obtain ⟨-, hqueued, hframes⟩ := h.fresh y hnew
      rw [if_pos rfl, hqueued]
      rw [show ({ s with writer := s.writer.openStream y cls windowed, begun := y :: s.begun } :
        Carriage).frames y = [] from hframes hne]
      exact .start bound
    · rw [if_neg hxy]
      exact h.stands y ((mem_cons.mp hy).resolve_left hxy) bound

theorem Kept.next (h : s.Kept) {e : Event} (hs : s.next e = some s') : s'.Kept := by
  cases e with
  | openStream x cls windowed =>
    simp only [Carriage.next] at hs
    split at hs
    · next hx =>
      obtain rfl := some.inj hs
      exact h.openStream hx cls windowed
    · cases hs
  | queue x kind payload =>
    obtain rfl := some.inj hs
    exact h.queue x kind payload
  | queueLink payload =>
    simp only [Carriage.next] at hs
    split at hs
    · cases hs
    · next frame hencode =>
      obtain rfl := some.inj hs
      have hdecode := decode_encode (Nat.two_pow_pos 64) hencode
      exact ⟨h.ids, forall_append_singleton h.links ⟨payload, hdecode⟩, h.decoded, h.fresh,
        h.stands⟩
  | reclass x cls =>
    obtain rfl := some.inj hs
    exact h.idle ⟨Writer.link_reclass _ _ _, fun y => Writer.queueOf_reclass _ _ _ _⟩
  | grant x bytes =>
    obtain rfl := some.inj hs
    exact h.idle ⟨Writer.link_grant _ _ _, fun y => Writer.queueOf_grant _ _ _ _⟩
  | setCap bytes | setFragmentBytes bytes | acked delivered =>
    obtain rfl := some.inj hs
    exact h.idle ⟨rfl, fun _ => rfl⟩
  | nextFrame =>
    have hdrawn : s.next .nextFrame = some (s.drawn s.writer.nextFrame) := by
      unfold Carriage.next drawn
      dsimp only
      split <;> rfl
    obtain rfl := some.inj (hdrawn.symm.trans hs)
    rcases s.writer.nextFrame_drew with ⟨message, rest, hlink, hout, hrest, hqueues⟩ | hdrew
    · rw [show s.writer.nextFrame = (s.writer.nextFrame.1, some message) from Prod.ext rfl hout]
      exact h.link hlink hrest hqueues
    · exact h.drew hdrew rfl

theorem Kept.start : machine.start.Kept :=
  ⟨fun _ h => (by cases h), fun _ h => (by cases h), fun _ h => (by cases h),
    fun _ _ => ⟨rfl, rfl, fun _ => rfl⟩, fun _ h => (by cases h)⟩

theorem Kept.reachable (h : machine.Reachable s) : s.Kept :=
  h.invariant (P := Kept) .start fun _ _ _ hs hnext => hs.next hnext

/-- Every stream's messages reach the peer in order, whole and once, and its end is its
last frame. -/
structure Carries (s : Carriage) : Prop where
  decoded : ∀ m ∈ s.wire, ∃ f, decode m = .ok f
  /-- what the peer has, followed by what the writer holds, is what was queued before the
  stream's end -/
  messages : ∀ x ∈ s.begun, ∀ bound, (∀ q ∈ s.queued x, q.Fits bound) →
    s.received x bound ++ (s.held x).map .ok = (messagesOf (s.queued x)).map .ok
  /-- nothing follows the frame that ends the stream -/
  ended : ∀ x ∈ s.begun, ∀ before f after, s.frames x = before ++ f :: after →
    f.last = true → after = []
  once : ∀ x ∈ s.begun, (s.frames x).countP Frame.last ≤ 1

theorem Stands.messages {queue : Option (List Queued)} (h : Stands bound queued fs queue)
    (hfits : ∀ q ∈ queued, q.Fits bound) :
    (Reassembly.gather bound fs).2 ++ (messagesOf (queue.getD [])).map .ok =
      (messagesOf queued).map .ok := by
  cases h with
  | live hqueued hdone hfs htail hgathered =>
    rw [(hgathered hfits).made, hqueued, messagesOf_append hdone, messagesOf_map_whole,
      map_append]
    rfl
  | @ended done rest l pre f hqueued hdone hl hfs hpre hf hgathered =>
    have hnone : messagesOf (l :: rest) = [] := by simp [messagesOf, hl]
    rw [(hgathered hfits).made, hqueued, messagesOf_append hdone, hnone, append_nil]
    exact append_nil _

theorem last_of_init {pre before after : List Frame} {f g : Frame}
    (hpre : ∀ f ∈ pre, f.last = false) (heq : pre ++ [g] = before ++ f :: after)
    (hf : f.last = true) : after = [] := by
  rcases append_eq_append_iff.mp heq with ⟨mid, -, hg⟩ | ⟨mid, hmid, hg⟩
  · cases mid with
    | nil => exact (List.cons.inj hg).2.symm
    | cons a mid => simpa using congrArg List.length hg
  · cases mid with
    | nil => exact (List.cons.inj hg).2
    | cons a mid =>
      obtain ⟨rfl, -⟩ := List.cons.inj hg
      rw [hpre f (by rw [hmid]; simp)] at hf
      cases hf

theorem Stands.ended_once {queue : Option (List Queued)} (h : Stands bound queued fs queue) :
    (∀ before f after, fs = before ++ f :: after → f.last = true → after = []) ∧
      fs.countP Frame.last ≤ 1 := by
  have hzero : ∀ {l : List Frame}, (∀ f ∈ l, f.last = false) → l.countP Frame.last = 0 :=
    fun hl => countP_eq_zero.mpr fun f hf => by simp [hl f hf]
  cases h with
  | live hqueued hdone hfs htail hgathered =>
    refine ⟨fun before f after heq hf => ?_, by rw [hzero hfs]; exact Nat.zero_le _⟩
    rw [hfs f (by rw [heq]; simp)] at hf
    cases hf
  | @ended done rest l pre f hqueued hdone hl hfs hpre hf hgathered =>
    refine ⟨fun before g after heq hg => last_of_init hpre (hfs.symm.trans heq) hg, ?_⟩
    rw [hfs, countP_append, hzero hpre, Nat.zero_add]
    exact countP_le_length

theorem carries_of_reachable (h : machine.Reachable s) : s.Carries := by
  have hs := Kept.reachable h
  exact ⟨hs.decoded, fun x hx bound => (hs.stands x hx bound).messages,
    fun x hx => (hs.stands x hx 0).ended_once.1, fun x hx => (hs.stands x hx 0).ended_once.2⟩

/-- Two streams in turn, of which one ends with a message queued past its end. -/
theorem carries_two_streams :
    ∃ s : Carriage, s.Carries ∧
      (framesOf s.wire).map (fun f => (f.stream, f.kind)) =
        [(1, .open), (3, .open), (1, .binary), (3, .text), (1, .close)] ∧
      s.received 1 8 = [.ok (.binary [7, 8])] := by
  obtain ⟨s, hreach, hp⟩ := Machine.exists_of_run (M := machine)
    (fun s => (framesOf s.wire).map (fun f => (f.stream, f.kind)) ==
        [(1, .open), (3, .open), (1, .binary), (3, .text), (1, .close)] &&
      decide (s.received 1 8 = [.ok (.binary [7, 8])]))
    [.openStream 1 .live true, .queue 1 .open [], .openStream 3 .live false, .queue 3 .open [],
      .queue 1 .binary [7, 8], .queue 3 .text [104], .queue 1 .close [], .queue 1 .binary [9],
      .nextFrame, .nextFrame, .nextFrame, .nextFrame, .nextFrame] (by decide)
  simp only [Bool.and_eq_true, beq_iff_eq, decide_eq_true_eq] at hp
  exact ⟨s, carries_of_reachable hreach, hp⟩

end Carriage
end VibeField.Freeway
