import Mathlib.Data.List.Induction
import VibeField.Tp.ScenePump

/-!
# The lineage of a pump's units

A `Replica` is what a reader of the units shows: the content of one of the engine's
frames, and a transfer it is receiving.  `Applies` says which unit it takes next: a
delta continues the content it shows with the engine's next frame, a transfer brings a
self-contained frame whole, and nothing comes between the units of a transfer.  A pump
emits only units that its reader takes.
-/

namespace VibeField.Tp

open List Option

/-! ## The reader of the units -/

/-- A transfer being received. -/
structure Incoming where
  frame : Nat
  transferId : String
  chunkCount : Nat
  chunks : Nat
  bytes : Packet

structure Replica where
  content : Option Nat
  incoming : Option Incoming

/-- Nothing the engine published between the two is a frame. -/
def NextFrame (published : List Packet) (i j : Nat) : Prop :=
  i < j ∧ ∀ k, i < k → k < j → ∃ packet, published[k]? = some packet ∧
    Trf1Header.parse packet = none

/-- The published packet is a frame. -/
def IsFrame (published : List Packet) (i : Nat) (packet : Packet) (header : Trf1Header) : Prop :=
  published[i]? = some packet ∧ Trf1Header.parse packet = some header

def Stamps (epoch : SceneEpoch) (published : List Packet) :
    Option Nat → Option SceneContentStamp → Prop
  | none, stamp => stamp = none
  | some i, stamp => ∃ packet header, IsFrame published i packet header ∧
      stamp = some { sceneEpoch := epoch, sceneRevision := header.revision }

inductive Applies (epoch : SceneEpoch) (published : List Packet) :
    Replica → Emitted → Replica → Prop
  /-- a delta on the content of the frame before it -/
  | delta {c : Nat} {u : Emitted} {base : Option SceneContentStamp}
      {result : SceneContentStamp} :
      u.unit.body = .trf1Frame base result → NextFrame published c u.frame →
        published[u.frame]? = some u.unit.payload → Stamps epoch published (some c) base →
          Stamps epoch published (some u.frame) (some result) →
            Applies epoch published ⟨some c, none⟩ u ⟨some u.frame, none⟩
  /-- the announcement of a self-contained frame -/
  | start {content : Option Nat} {u : Emitted} {base : Option SceneContentStamp}
      {result : SceneContentStamp} {t : TransferBegin} {packet : Packet} {header : Trf1Header} :
      u.unit.body = .transferBegin base result t → IsFrame published u.frame packet header →
        header.whole = true → t.totalBytes = packet.length → Stamps epoch published content base →
          Stamps epoch published (some u.frame) (some result) →
            Applies epoch published ⟨content, none⟩ u
              ⟨content, some ⟨u.frame, t.transferId, t.chunkCount, 0, []⟩⟩
  /-- the next chunk of the transfer -/
  | chunk {content : Option Nat} {u : Emitted} {i : Incoming} :
      u.unit.body = .transferChunk i.transferId i.chunks i.bytes.length → u.frame = i.frame →
        Applies epoch published ⟨content, some i⟩ u
          ⟨content, some { i with chunks := i.chunks + 1, bytes := i.bytes ++ u.unit.payload }⟩
  /-- the end of the transfer, once the whole frame is there -/
  | finish {content : Option Nat} {u : Emitted} {i : Incoming} :
      u.unit.body = .transferEnd i.transferId → u.frame = i.frame → i.chunks = i.chunkCount →
        published[i.frame]? = some i.bytes →
          Applies epoch published ⟨content, some i⟩ u ⟨some i.frame, none⟩

/-- The reader took the units, from nothing on. -/
inductive Held (epoch : SceneEpoch) (published : List Packet) : List Emitted → Replica → Prop
  | start : Held epoch published [] ⟨none, none⟩
  | next {us : List Emitted} {u : Emitted} {r r' : Replica} :
      Held epoch published us r → Applies epoch published r u r' →
        Held epoch published (us ++ [u]) r'

namespace Emitted

def delta (u : Emitted) : Bool :=
  match u.unit.body with
  | .trf1Frame _ _ => true
  | _ => false

def begins (u : Emitted) : Bool :=
  match u.unit.body with
  | .transferBegin _ _ _ => true
  | _ => false

def ends (u : Emitted) : Bool :=
  match u.unit.body with
  | .transferEnd _ => true
  | _ => false

end Emitted

section Taken

variable {epoch : SceneEpoch} {published : List Packet} {us vs : List Emitted} {u : Emitted}
  {r r' : Replica}

theorem Held.last (h : Held epoch published (us ++ [u]) r) :
    ∃ r₀, Held epoch published us r₀ ∧ Applies epoch published r₀ u r := by
  generalize heq : us ++ [u] = vs at h
  cases h with
  | start => simp at heq
  | next h ha =>
    obtain ⟨rfl, hu⟩ := append_inj' heq rfl
    cases hu
    exact ⟨_, h, ha⟩

theorem Held.of_append (h : Held epoch published (us ++ vs) r) :
    ∃ r₀, Held epoch published us r₀ := by
  induction vs using List.reverseRecOn generalizing r with
  | nil => exact ⟨r, by rwa [append_nil] at h⟩
  | append_singleton vs v ih =>
    rw [← append_assoc] at h
    obtain ⟨_, hvs, -⟩ := h.last
    exact ih hvs

theorem Applies.of_delta (h : Applies epoch published r u r') (hu : u.delta = true) :
    ∃ c, r = ⟨some c, none⟩ ∧ NextFrame published c u.frame := by
  unfold Emitted.delta at hu
  cases h with
  | delta hbody hnext => exact ⟨_, rfl, hnext⟩
  | start hbody => rw [hbody] at hu; cases hu
  | chunk hbody => rw [hbody] at hu; cases hu
  | finish hbody => rw [hbody] at hu; cases hu

theorem Applies.of_shown {c : Nat} (h : Applies epoch published r u ⟨some c, none⟩) :
    (u.delta = true ∨ u.ends = true) ∧ c = u.frame := by
  unfold Emitted.delta Emitted.ends
  cases h with
  | delta hbody => exact ⟨.inl (by rw [hbody]), rfl⟩
  | finish hbody hframe => exact ⟨.inr (by rw [hbody]), hframe.symm⟩

theorem Held.under_way {before between : List Emitted} {b : Emitted} (hb : b.begins = true)
    (h : Held epoch published (before ++ b :: between) r) :
    (∃ e ∈ between, e.ends = true ∧ e.frame = b.frame) ∨
      ∃ i, r.incoming = some i ∧ i.frame = b.frame := by
  induction between using List.reverseRecOn generalizing r with
  | nil =>
    obtain ⟨_, -, ha⟩ := h.last
    unfold Emitted.begins at hb
    cases ha with
    | delta hbody => rw [hbody] at hb; cases hb
    | start hbody => exact .inr ⟨_, rfl, rfl⟩
    | chunk hbody => rw [hbody] at hb; cases hb
    | finish hbody => rw [hbody] at hb; cases hb
  | append_singleton between v ih =>
    rw [← cons_append, ← append_assoc] at h
    obtain ⟨_, hbefore, ha⟩ := h.last
    rcases ih hbefore with ⟨e, he, hends⟩ | ⟨i, hi, hframe⟩
    · exact .inl ⟨e, mem_append_left _ he, hends⟩
    · cases ha with
      | delta => cases hi
      | start => cases hi
      | chunk hbody hframe' => cases hi; exact .inr ⟨_, rfl, hframe⟩
      | finish hbody hframe' =>
        cases hi
        refine .inl ⟨v, by simp, ?_, hframe'.trans hframe⟩
        rw [Emitted.ends, hbody]

end Taken

section Mono

variable {epoch : SceneEpoch} {published published' : List Packet}

/-- What was published stays. -/
def Extends (published published' : List Packet) : Prop :=
  ∀ (i : Nat) (packet : Packet), published[i]? = some packet → published'[i]? = some packet

theorem extends_append (published rest : List Packet) : Extends published (published ++ rest) :=
  fun i packet h => by
    obtain ⟨hlt, -⟩ := List.getElem?_eq_some_iff.mp h
    rw [List.getElem?_append_left hlt]
    exact h

theorem NextFrame.mono {i j : Nat} (h : NextFrame published i j)
    (he : Extends published published') : NextFrame published' i j :=
  ⟨h.1, fun k hi hj => (h.2 k hi hj).imp fun _ hp => ⟨he _ _ hp.1, hp.2⟩⟩

theorem IsFrame.mono {i : Nat} {packet : Packet} {header : Trf1Header}
    (h : IsFrame published i packet header) (he : Extends published published') :
    IsFrame published' i packet header :=
  ⟨he _ _ h.1, h.2⟩

theorem Stamps.mono {content : Option Nat} {stamp : Option SceneContentStamp}
    (h : Stamps epoch published content stamp) (he : Extends published published') :
    Stamps epoch published' content stamp := by
  cases content with
  | none => exact h
  | some i =>
    obtain ⟨packet, header, hframe, hstamp⟩ := h
    exact ⟨packet, header, hframe.mono he, hstamp⟩

theorem Applies.mono {r r' : Replica} {u : Emitted} (h : Applies epoch published r u r')
    (he : Extends published published') : Applies epoch published' r u r' := by
  cases h with
  | delta hbody hnext hpayload hbase hresult =>
    exact .delta hbody (hnext.mono he) (he _ _ hpayload) (hbase.mono he) (hresult.mono he)
  | start hbody hframe hwhole htotal hbase hresult =>
    exact .start hbody (hframe.mono he) hwhole htotal (hbase.mono he) (hresult.mono he)
  | chunk hbody hframe => exact .chunk hbody hframe
  | finish hbody hframe hcount hbytes => exact .finish hbody hframe hcount (he _ _ hbytes)

theorem Held.mono {us : List Emitted} {r : Replica} (h : Held epoch published us r)
    (he : Extends published published') : Held epoch published' us r := by
  induction h with
  | start => exact .start
  | next _ ha ih => exact ih.next (ha.mono he)

end Mono

theorem nextFrame_succ (published : List Packet) (i : Nat) : NextFrame published i (i + 1) :=
  ⟨Nat.lt_succ_self i, fun k hi hj => by omega⟩

theorem NextFrame.pass {published : List Packet} {i j : Nat} {packet : Packet}
    (h : NextFrame published i j) (hj : published[j]? = some packet)
    (hparse : Trf1Header.parse packet = none) : NextFrame published i (j + 1) := by
  refine ⟨Nat.lt_succ_of_lt h.1, fun k hi hk => ?_⟩
  rcases Nat.lt_or_eq_of_le (Nat.le_of_lt_succ hk) with hlt | rfl
  · exact h.2 k hi hlt
  · exact ⟨packet, hj, hparse⟩

namespace ScenePump

open Pump

/-! ## The feed as a reader has it -/

/-- What is still to be read at the position continues with the packet `first`. -/
def Reads (f : Feed) (position first : Nat) : Prop :=
  position ≤ f.route.length ∧ Unbroken Routed.number first (f.route.drop position) f.taken

/-- Routed frames are what was published under their numbers. -/
def Feed.Sound (f : Feed) : Prop :=
  ∀ index packet, .frame index packet ∈ f.route → f.published[index]? = some packet

section Feeding

variable {f f' : Feed} {position first : Nat}

theorem Reads.tail (f : Feed) : Reads f f.route.length f.taken :=
  ⟨Nat.le_refl _, by rw [drop_length]; rfl⟩

theorem Reads.routed (h : Reads f position first) {x : Routed} {taken : Nat}
    (hx : Unbroken Routed.number first (f.route.drop position ++ [x]) taken) :
    Reads { f with taken := taken, route := f.route ++ [x] } position first := by
  have hle := h.1
  refine ⟨by simp only [length_append]; omega, ?_⟩
  show Unbroken Routed.number first ((f.route ++ [x]).drop position) taken
  rw [drop_append_of_le_length h.1]
  exact hx

theorem Feed.Sound.next (h : Feed.Sound f) {e : Feed.Event} (hf : f.next e = some f') :
    Feed.Sound f' ∧ Extends f.published f'.published ∧
      ∀ position first, Reads f position first → Reads f' position first := by
  have hsame : Extends f.published f.published := fun _ _ h => h
  cases e with
  | publish packet =>
    obtain rfl := some.inj hf
    have he := extends_append f.published [packet]
    exact ⟨fun i p hmem => he _ _ (h i p hmem), he, fun _ _ hr => hr⟩
  | route =>
    simp only [Feed.next] at hf
    split at hf
    · cases hf
    · next packet hpacket =>
      split at hf
      · cases hf
      · obtain rfl := some.inj hf
        refine ⟨fun i p hmem => ?_, hsame, fun _ _ hr => hr.routed (hr.2.snoc rfl)⟩
        rcases mem_snoc.mp hmem with hmem | hmem
        · exact h i p hmem
        · cases hmem
          exact hpacket
  | lag lost =>
    simp only [Feed.next] at hf
    split at hf
    · cases hf
    · obtain rfl := some.inj hf
      refine ⟨fun i p hmem => ?_, hsame, fun _ _ hr => hr.routed (hr.2.snoc_gap rfl _)⟩
      rcases mem_snoc.mp hmem with hmem | hmem
      · exact h i p hmem
      · cases hmem
  | close =>
    obtain rfl := some.inj hf
    exact ⟨h, hsame, fun _ _ hr => hr⟩

theorem Reads.packet (h : Reads f position first) (hf : Feed.Sound f) {index next : Nat}
    {packet : Packet} (hr : f.recv position = .packet index packet next) :
    index = first ∧ f.published[index]? = some packet ∧ Reads f next (index + 1) := by
  unfold Feed.recv at hr
  split at hr
  · next heq =>
    cases hr
    obtain ⟨hnext, hdrop⟩ := Broadcast.of_recv_item heq
    have hle : next ≤ f.route.length := by
      have hlength := congrArg List.length hdrop
      simp only [length_drop, length_cons] at hlength
      omega
    have hunbroken := h.2
    rw [hdrop] at hunbroken
    obtain ⟨rfl, hrest⟩ := hunbroken.of_item rfl
    refine ⟨rfl, hf index packet ?_, hle, hrest⟩
    exact mem_of_mem_drop (hdrop ▸ mem_cons_self)
  · cases hr
  · cases hr
  · cases hr
  · cases hr

theorem Reads.lost (h : Reads f position first) {next : Nat}
    (hr : f.recv position = .lost next) : ∃ later, Reads f next later := by
  have hlater : position ≤ next → next ≤ f.route.length → ∃ later, Reads f next later := by
    intro hle hlength
    obtain ⟨later, hrest⟩ := h.2.drop (next - position)
    refine ⟨later, hlength, ?_⟩
    rwa [drop_drop, Nat.add_sub_cancel' hle] at hrest
  unfold Feed.recv at hr
  split at hr
  · cases hr
  · next heq =>
    cases hr
    obtain ⟨hnext, hdrop⟩ := Broadcast.of_recv_item heq
    have hlength := congrArg List.length hdrop
    simp only [length_drop, length_cons] at hlength
    exact hlater (by omega) (by omega)
  · next heq =>
    cases hr
    obtain ⟨hlt, hle⟩ := Broadcast.lt_of_recv_lagged heq
    exact hlater (Nat.le_of_lt hlt) hle
  · cases hr
  · cases hr

end Feeding

/-! ## A transfer on its way -/

variable {epoch : SceneEpoch} {start : PumpStart} {f : Feed} {p : Pump} {us : List Emitted}
  {r : Replica}

def chunkCount (chunkBytes : Nat) (packet : Packet) : Nat :=
  max ((packet.length + chunkBytes - 1) / chunkBytes) 1

def Transfer.incoming (t : Transfer) (chunkBytes chunks : Nat) : Incoming where
  frame := t.index
  transferId := t.transferId
  chunkCount := chunkCount chunkBytes t.packet
  chunks := chunks
  bytes := t.packet.take (chunks * chunkBytes)

def Transfer.after (t : Transfer) (chunkBytes : Nat) (content : Option Nat) : Replica :=
  match t.stage with
  | .start => ⟨content, some (t.incoming chunkBytes 0)⟩
  | .chunk index => ⟨content, some (t.incoming chunkBytes (index + 1))⟩
  | .finish => ⟨some t.index, none⟩

/-- The waiting unit is one the reader takes, under the last sequence spent. -/
structure Sending (f : Feed) (p : Pump) (us : List Emitted) (r : Replica) (t : Transfer) :
    Prop where
  frame : IsFrame f.published t.index t.packet t.header
  reads : ∃ position, p.subscription = some position ∧ Reads f position (t.index + 1)
  sequence : t.unit.activationSequence = p.activationSequence
  unspent : ∀ u ∈ us, u.unit.activationSequence < p.activationSequence
  within : ∀ index, t.stage = .chunk index → index * p.chunkBytes < t.packet.length
  applies : Applies p.start.sceneEpoch f.published r ⟨t.index, t.unit⟩
    (t.after p.chunkBytes r.content)

/-- The reader shows a content that the next packet to read continues. -/
def Tracks (f : Feed) (p : Pump) (r : Replica) : Prop :=
  ∃ c position first, r.content = some c ∧ p.subscription = some position ∧
    Reads f position first ∧ NextFrame f.published c first

/-- What holds where the pump waits. -/
def At (f : Feed) (p : Pump) (us : List Emitted) (r : Replica) : Prop :=
  match p.point with
  | .ended => True
  | .sending t => Sending f p us r t
  | .parked | .credit | .slot | .render | .forced => r.incoming = none ∧ p.needsFull = true
  | .head => r.incoming = none ∧ (p.needsFull = false → Tracks f p r)
  | .listening => r.incoming = none ∧ Tracks f p r

/-- The reader took everything the pump emitted, and the pump knows what it shows. -/
structure Knows (f : Feed) (p : Pump) (us : List Emitted) (r : Replica) : Prop where
  sound : Feed.Sound f
  held : Held p.start.sceneEpoch f.published us r
  increasing : us.Pairwise fun u v => u.unit.activationSequence < v.unit.activationSequence
  spent : ∀ u ∈ us, u.unit.activationSequence ≤ p.activationSequence
  stamps : Stamps p.start.sceneEpoch f.published r.content (p.lastSent.map p.stamp)
  unseeded : p.firstSeed = true → r.content = none
  reader : ∀ position, p.subscription = some position → ∃ first, Reads f position first

def Stands (f : Feed) (p : Pump) (us : List Emitted) (r : Replica) : Prop :=
  Knows f p us r ∧ At f p us r

theorem Stands.feed (h : Stands f p us r) {e : Feed.Event} {f' : Feed} (hf : f.next e = some f') :
    Stands f' p us r := by
  obtain ⟨hknows, hwaits⟩ := h
  obtain ⟨hsound, he, hreads⟩ := hknows.sound.next hf
  have htracks : Tracks f p r → Tracks f' p r := by
    rintro ⟨c, position, first, hc, hp, hr, hn⟩
    exact ⟨c, position, first, hc, hp, hreads _ _ hr, hn.mono he⟩
  refine ⟨⟨hsound, hknows.held.mono he, hknows.increasing, hknows.spent, hknows.stamps.mono he,
    hknows.unseeded, fun position hp => (hknows.reader position hp).imp fun first hr =>
      hreads _ _ hr⟩, ?_⟩
  unfold At at hwaits ⊢
  split at hwaits
  · trivial
  · obtain ⟨position, hp, hr⟩ := hwaits.reads
    exact ⟨hwaits.frame.mono he, ⟨position, hp, hreads _ _ hr⟩, hwaits.sequence, hwaits.unspent,
      hwaits.within, hwaits.applies.mono he⟩
  all_goals first
    | exact hwaits
    | exact ⟨hwaits.1, fun hn => htracks (hwaits.2 hn)⟩
    | exact ⟨hwaits.1, htracks hwaits.2⟩

variable {header : Trf1Header} {index position : Nat} {packet : Packet} {q : Pump} {t : Transfer}

theorem Knows.congr (h : Knows f p us r) (hstart : q.start = p.start)
    (hsequence : p.activationSequence ≤ q.activationSequence) (hlast : q.lastSent = p.lastSent)
    (hseed : q.firstSeed = p.firstSeed)
    (hreader : ∀ position, q.subscription = some position → ∃ first, Reads f position first) :
    Knows f q us r where
  __ := h
  held := by rw [hstart]; exact h.held
  spent u hu := Nat.le_trans (h.spent u hu) hsequence
  stamps := by
    have hstamp : q.stamp = p.stamp := by unfold Pump.stamp; rw [hstart]
    rw [hstart, hlast, hstamp]
    exact h.stamps
  unseeded hq := h.unseeded (hseed ▸ hq)
  reader := hreader

theorem Knows.moves (h : Knows f p us r) (point : Point) :
    Knows f { p with point := point } us r :=
  h.congr rfl (Nat.le_refl _) rfl rfl h.reader

theorem Knows.breaks (h : Knows f p us r) (point : Point) :
    Knows f { p with needsFull := true, point := point } us r :=
  h.congr rfl (Nat.le_refl _) rfl rfl h.reader

theorem Knows.reads (h : Knows f p us r) {position first : Nat} (hr : Reads f position first) :
    Knows f { p with subscription := some position } us r :=
  h.congr rfl (Nat.le_refl _) rfl rfl fun _ he => by
    cases he
    exact ⟨first, hr⟩

theorem Knows.emits (h : Knows f p us r) {u : Emitted} {r' : Replica}
    (hu : Applies p.start.sceneEpoch f.published r u r')
    (hfresh : ∀ v ∈ us, v.unit.activationSequence < u.unit.activationSequence)
    (hspent : u.unit.activationSequence ≤ q.activationSequence) (hstart : q.start = p.start)
    (hsub : q.subscription = p.subscription)
    (hstamps : Stamps p.start.sceneEpoch f.published r'.content (q.lastSent.map p.stamp))
    (hunseeded : q.firstSeed = true → r'.content = none) : Knows f q (us ++ [u]) r' where
  sound := h.sound
  held := by rw [hstart]; exact h.held.next hu
  increasing := pairwise_append.mpr ⟨h.increasing, pairwise_singleton _ _,
    fun v hv w hw => by rw [mem_singleton.mp hw]; exact hfresh v hv⟩
  spent v hv := by
    rcases mem_snoc.mp hv with hv | hv
    · exact Nat.le_trans (Nat.le_of_lt (hfresh v hv)) hspent
    · rw [hv]
      exact hspent
  stamps := by
    have hstamp : q.stamp = p.stamp := by unfold Pump.stamp; rw [hstart]
    rw [hstart, hstamp]
    exact hstamps
  unseeded := hunseeded
  reader := by rw [hsub]; exact h.reader

/-! ### Transfers -/

theorem Stands.enter (h : Knows f p us r) {stage : Stage}
    (hframe : IsFrame f.published t.index t.packet t.header)
    (hreads : ∃ position, p.subscription = some position ∧ Reads f position (t.index + 1))
    (hwithin : ∀ index, stage = .chunk index → index * p.chunkBytes < t.packet.length)
    (happlies : Applies p.start.sceneEpoch f.published r
      ⟨t.index, (p.stageUnit t.packet t.header t.transferId stage).2⟩
      (({ t with stage := stage } : Transfer).after p.chunkBytes r.content)) :
    Stands f (p.enter t stage) us r := by
  have hspent : ∀ u ∈ us, u.unit.activationSequence < p.activationSequence + 1 := fun u hu =>
    Nat.lt_succ_of_le (h.spent u hu)
  cases stage with
  | start | finish =>
    exact ⟨h.congr rfl (Nat.le_succ _) rfl rfl h.reader,
      hframe, hreads, rfl, hspent, fun _ he => (by cases he), happlies⟩
  | chunk index =>
    exact ⟨h.congr rfl (Nat.le_succ _) rfl rfl h.reader,
      hframe, hreads, rfl, hspent, hwithin, happlies⟩

theorem applies_start (h : Knows f p us r) (hin : r.incoming = none)
    (hframe : IsFrame f.published t.index t.packet t.header) (hwhole : t.header.whole = true) :
    Applies p.start.sceneEpoch f.published r
      ⟨t.index, (p.stageUnit t.packet t.header t.transferId .start).2⟩
      ⟨r.content, some (t.incoming p.chunkBytes 0)⟩ := by
  obtain ⟨content, incoming⟩ := r
  obtain rfl : incoming = none := hin
  have hbase : Stamps p.start.sceneEpoch f.published content
      (if p.firstSeed then none else p.lastSent.map p.stamp) := by
    cases hseed : p.firstSeed with
    | true =>
      obtain rfl : content = none := h.unseeded hseed
      rfl
    | false => exact h.stamps
  have hincoming : t.incoming p.chunkBytes 0 =
      ⟨t.index, t.transferId, chunkCount p.chunkBytes t.packet, 0, []⟩ := by
    rw [Transfer.incoming, Nat.zero_mul, take_zero]
  rw [hincoming]
  exact .start (t :=
    { transferId := t.transferId
      kind := if p.firstSeed then .seed else .catchup
      totalBytes := t.packet.length
      chunkCount := chunkCount p.chunkBytes t.packet
      cols := t.header.cols
      rows := t.header.rows
      scrollbackRows := (Trf1Header.scrollbackRows t.packet).getD 0
      checksum := crc32c t.packet }) rfl hframe hwhole rfl hbase ⟨t.packet, t.header, hframe, rfl⟩

theorem Stands.transfer (h : Knows f p us r) (hin : r.incoming = none)
    (hframe : IsFrame f.published index packet header) (hwhole : header.whole = true)
    (hsub : p.subscription = some position) (hreads : Reads f position (index + 1)) (asked : Bool) :
    Stands f (p.transfer index packet header asked) us r := by
  let q : Pump := { p with transferCounter := p.transferCounter + 1 }
  have hq : Knows f q us r := h.congr rfl (Nat.le_refl _) rfl rfl h.reader
  let t : Transfer :=
    { index := index
      packet := packet
      header := header
      transferId := p.start.activationId ++ "-" ++ toString (p.transferCounter + 1)
      asked := asked
      stage := .start
      unit := (q.stageUnit packet header
        (p.start.activationId ++ "-" ++ toString (p.transferCounter + 1)) .start).2 }
  exact Stands.enter (t := t) hq hframe ⟨position, hsub, hreads⟩
    (fun _ he => by cases he) (applies_start hq hin hframe hwhole)

theorem chunks_eq {chunkBytes index : Nat} (hpos : 0 < chunkBytes)
    (hlt : index * chunkBytes < packet.length) (hge : packet.length ≤ (index + 1) * chunkBytes) :
    index + 1 = chunkCount chunkBytes packet := by
  have hdiv : (packet.length + chunkBytes - 1) / chunkBytes = index + 1 := by
    rw [Nat.div_eq_iff hpos]
    constructor
    · rw [Nat.add_mul, Nat.one_mul]
      omega
    · omega
  rw [chunkCount, hdiv, Nat.max_eq_left (Nat.le_add_left 1 index)]

theorem chunkBytes_pos (p : Pump) : 0 < p.chunkBytes :=
  Nat.lt_of_lt_of_le Nat.zero_lt_one (Nat.le_max_right _ _)

theorem length_pos_of_parse (h : Trf1Header.parse packet = some header) : 0 < packet.length := by
  unfold Trf1Header.parse at h
  split at h
  · cases h
  · next hlong => exact Nat.lt_of_lt_of_le (by decide) (Nat.le_of_not_lt hlong)

theorem applies_chunk {content : Option Nat} (hlt : index * p.chunkBytes < t.packet.length) :
    Applies p.start.sceneEpoch f.published ⟨content, some (t.incoming p.chunkBytes index)⟩
      ⟨t.index, (p.stageUnit t.packet t.header t.transferId (.chunk index)).2⟩
      ⟨content, some (t.incoming p.chunkBytes (index + 1))⟩ := by
  have hgrown : t.incoming p.chunkBytes (index + 1) =
      { t.incoming p.chunkBytes index with
        chunks := index + 1
        bytes := t.packet.take (index * p.chunkBytes) ++
          (t.packet.drop (index * p.chunkBytes)).take p.chunkBytes } := by
    rw [Transfer.incoming, Nat.add_mul, Nat.one_mul, take_add]
    rfl
  rw [hgrown]
  refine .chunk ?_ rfl
  show UnitBody.transferChunk t.transferId index (index * p.chunkBytes) =
    .transferChunk t.transferId index (t.packet.take (index * p.chunkBytes)).length
  rw [length_take, Nat.min_eq_left (Nat.le_of_lt hlt)]

theorem applies_finish {content : Option Nat} (hpacket : f.published[t.index]? = some t.packet)
    (hlt : index * p.chunkBytes < t.packet.length)
    (hge : t.packet.length ≤ (index + 1) * p.chunkBytes) :
    Applies p.start.sceneEpoch f.published ⟨content, some (t.incoming p.chunkBytes (index + 1))⟩
      ⟨t.index, (p.stageUnit t.packet t.header t.transferId .finish).2⟩ ⟨some t.index, none⟩ := by
  refine .finish (i := t.incoming p.chunkBytes (index + 1)) rfl rfl
    (chunks_eq (chunkBytes_pos p) hlt hge) ?_
  show f.published[t.index]? = some (t.packet.take ((index + 1) * p.chunkBytes))
  rw [take_of_length_le hge]
  exact hpacket

theorem Stands.advance (h : Knows f p us r) (hs : Sending f p us r t) :
    ∃ r', Stands f (p.advance t) (us ++ [⟨t.index, t.unit⟩]) r' := by
  have hspent := Nat.le_of_eq hs.sequence
  have hfresh : ∀ v ∈ us, v.unit.activationSequence < t.unit.activationSequence := by
    rw [hs.sequence]
    exact hs.unspent
  have happlies := hs.applies
  unfold Pump.advance
  cases hstage : t.stage with
  | start =>
    simp only [Transfer.after, hstage] at happlies
    have hlength := length_pos_of_parse hs.frame.2
    have hzero : 0 * p.chunkBytes < t.packet.length := by omega
    have hnext := h.emits happlies hfresh hspent rfl rfl h.stamps h.unseeded
    refine ⟨_, Stands.enter hnext hs.frame hs.reads ?_ ?_⟩
    · intro index hindex
      rw [chunkOrEnd, if_pos hzero] at hindex
      cases hindex
      exact hzero
    · rw [chunkOrEnd, if_pos hzero]
      exact applies_chunk hzero
  | chunk index =>
    simp only [Transfer.after, hstage] at happlies
    have hlt := hs.within index hstage
    have hnext := h.emits happlies hfresh hspent rfl rfl h.stamps h.unseeded
    refine ⟨_, Stands.enter hnext hs.frame hs.reads ?_ ?_⟩
    · intro later hlater
      unfold chunkOrEnd at hlater
      split at hlater
      · next hmore =>
        cases hlater
        exact hmore
      · cases hlater
    · unfold chunkOrEnd
      split
      · next hmore => exact applies_chunk hmore
      · next hdone => exact applies_finish hs.frame.1 hlt (Nat.le_of_not_lt hdone)
  | finish =>
    simp only [Transfer.after, hstage] at happlies
    refine ⟨_, h.emits happlies hfresh hspent rfl rfl ⟨t.packet, t.header, hs.frame, rfl⟩
      (fun he => by cases he), rfl, fun _ => ?_⟩
    obtain ⟨position, hsub, hreads⟩ := hs.reads
    exact ⟨t.index, position, t.index + 1, rfl, hsub, hreads, nextFrame_succ _ _⟩

/-! ### Deltas -/

theorem Knows.delta (h : Knows f p us r) {c index position : Nat} (hr : r = ⟨some c, none⟩)
    (hnext : NextFrame f.published c index) (hframe : IsFrame f.published index packet header)
    (hsub : p.subscription = some position) {answer : Admission} {written : Bool} {unit : Envelope}
    (hdelta : p.delta packet header answer written = (q, .sent unit)) :
    Knows f q (us ++ [⟨index, unit⟩]) ⟨some index, none⟩ ∧ q.subscription = some position := by
  subst hr
  unfold Pump.delta at hdelta
  split at hdelta
  · cases hdelta
  · dsimp only [Pump.envelope] at hdelta
    split at hdelta
    · split at hdelta
      · cases hdelta
        refine ⟨h.emits (.delta rfl hnext hframe.1 h.stamps ⟨packet, header, hframe, rfl⟩)
          (fun v hv => Nat.lt_succ_of_le (h.spent v hv)) (Nat.le_refl _) rfl rfl
          ⟨packet, header, hframe, rfl⟩ (fun hseed => ?_), hsub⟩
        cases h.unseeded hseed
      · cases hdelta
    · cases hdelta
    · cases hdelta

theorem Knows.undelivered (h : Knows f p us r) {answer : Admission} {written : Bool} {d : Delta}
    (hdelta : p.delta packet header answer written = (q, d)) (hd : ∀ unit, d ≠ .sent unit) :
    Knows f q us r := by
  unfold Pump.delta at hdelta
  split at hdelta
  · cases hdelta
    exact h
  · have hspent : Knows f { p with activationSequence := p.activationSequence + 1 } us r :=
      h.congr rfl (Nat.le_succ _) rfl rfl h.reader
    dsimp only [Pump.envelope] at hdelta
    split at hdelta
    · split at hdelta
      · cases hdelta
        exact absurd rfl (hd _)
      · cases hdelta
        exact hspent
    · cases hdelta
      exact hspent
    · cases hdelta
      exact hspent

/-! ### Steps -/

theorem Stands.turn (h : Knows f p us r) (hin : r.incoming = none)
    (hat : p.needsFull = false → Tracks f p r) (hf : ∃ first, Reads f f.route.length first)
    (stop : Bool) (generation : Option Generation) :
    Stands f (p.turn f.route.length stop generation) us r := by
  unfold Pump.turn
  split
  · exact ⟨h.moves _, trivial⟩
  · -- the pump with what it makes of the generation
    obtain ⟨q, hq, hqk, hqat⟩ : ∃ q, (if generation ≠ p.lastSceneGeneration then
        { p with needsFull := true, lastSceneGeneration := generation } else p) = q ∧
        Knows f q us r ∧ (q.needsFull = false → Tracks f q r) := by
      split
      · exact ⟨_, rfl, h.congr rfl (Nat.le_refl _) rfl rfl h.reader, fun hn => by cases hn⟩
      · exact ⟨_, rfl, h, hat⟩
    rw [hq]
    dsimp only
    split
    · exact ⟨hqk.congr rfl (Nat.le_refl _) rfl rfl fun _ he => (by cases he), hin, rfl⟩
    · have hreader : ∀ position, some (q.subscription.getD f.route.length) = some position →
          ∃ first, Reads f position first := by
        intro position hposition
        cases hsub : q.subscription with
        | none =>
          rw [hsub] at hposition
          cases hposition
          exact hf
        | some current =>
          rw [hsub] at hposition
          cases hposition
          exact hqk.reader _ hsub
      refine ⟨hqk.congr rfl (Nat.le_refl _) rfl rfl hreader, ?_⟩
      unfold At
      dsimp only
      cases hneeds : q.needsFull with
      | true => exact ⟨hin, rfl⟩
      | false =>
        obtain ⟨c, position, first, hc, hsub, hreads, hnext⟩ := hqat hneeds
        exact ⟨hin, c, position, first, hc, by rw [hsub]; rfl, hreads, hnext⟩

theorem Stands.heard (h : Knows f p us r) (hin : r.incoming = none) {c index position : Nat}
    (hc : r.content = some c) (hnext : NextFrame f.published c index)
    (hpacket : f.published[index]? = some packet) (hsub : p.subscription = some position)
    (hreads : Reads f position (index + 1)) (generation : Option Generation) (answer : Admission)
    (written : Bool) :
    ∃ r', Stands f (p.heard index packet generation answer written).1
      (us ++ (p.heard index packet generation answer written).2.toList) r' := by
  have hbroken : ∀ q, Knows f q us r →
      Stands f { q with needsFull := true, point := .head } (us ++ []) r := fun q hq => by
    rw [append_nil]
    exact ⟨hq.breaks _, hin, fun hn => by cases hn⟩
  unfold Pump.heard
  split
  · exact ⟨r, hbroken p h⟩
  · split
    · next hparse =>
      refine ⟨r, ?_⟩
      dsimp only [Option.toList]
      rw [append_nil]
      exact ⟨h.moves _, hin, fun _ => ⟨c, position, index + 1, hc, hsub, hreads,
        hnext.pass hpacket hparse⟩⟩
    · next header hparse =>
      split
      · next hwhole =>
        refine ⟨r, ?_⟩
        dsimp only [Option.toList]
        rw [append_nil]
        exact Stands.transfer h hin ⟨hpacket, hparse⟩ hwhole.2 hsub hreads false
      · split
        · next q unit hdelta =>
          obtain ⟨hq, hqsub⟩ := h.delta (by rw [← hc, ← hin]) hnext ⟨hpacket, hparse⟩ hsub hdelta
          exact ⟨_, hq.moves _, rfl, fun _ =>
            ⟨index, position, index + 1, rfl, hqsub, hreads, nextFrame_succ _ _⟩⟩
        · next q hdelta => exact ⟨r, hbroken q (h.undelivered hdelta fun _ he => by cases he)⟩
        · next q hdelta =>
          refine ⟨r, ?_⟩
          dsimp only [Option.toList]
          rw [append_nil]
          exact ⟨(h.undelivered hdelta fun _ he => by cases he).moves _, trivial⟩

theorem Stands.awaited (h : Knows f p us r) (hin : r.incoming = none) (hneeds : p.needsFull = true)
    (hpoint : p.point = .forced) (hpacket : f.published[index]? = some packet)
    (hsub : p.subscription = some position) (hreads : Reads f position (index + 1)) :
    Stands f (p.awaited index packet) us r := by
  have hstays : Stands f p us r := ⟨h, by unfold At; rw [hpoint]; exact ⟨hin, hneeds⟩⟩
  unfold Pump.awaited
  split
  · exact hstays
  · next header hparse =>
    split
    · next hwhole => exact Stands.transfer h hin ⟨hpacket, hparse⟩ hwhole hsub hreads true
    · exact hstays

theorem Stands.quiet {out : Pump × Option Emitted} (h : Stands f q us r)
    (hout : some (q, none) = some out) : ∃ r', Stands f out.1 (us ++ out.2.toList) r' := by
  obtain rfl := some.inj hout
  exact ⟨r, by simpa using h⟩

theorem Knows.ended (h : Knows f p us r) : Stands f { p with point := .ended } us r :=
  ⟨h.moves .ended, trivial⟩

theorem Knows.awake (h : Knows f p us r) (hat : r.incoming = none ∧ p.needsFull = true) :
    Stands f { p with point := .head } us r := by
  refine ⟨h.moves .head, hat.1, fun hn => ?_⟩
  rw [hat.2] at hn
  cases hn

section Steps

variable {out : Pump × Option Emitted} {answer : Admission} {stop written : Bool}

theorem Stands.asked (h : Stands f p us r) (hstep : p.next f (.ask answer stop) = some out) :
    ∃ r', Stands f out.1 (us ++ out.2.toList) r' := by
  obtain ⟨hknows, hat⟩ := h
  unfold At at hat
  unfold Pump.next at hstep
  dsimp only at hstep
  split at hstep
  · next hpoint =>
    rw [hpoint] at hat
    refine Stands.quiet (q := { p with point := if p.firstSeed then .slot else .render })
      ⟨hknows.moves _, ?_⟩ hstep
    unfold At
    dsimp only
    cases p.firstSeed <;> exact hat
  · next hpoint =>
    rw [hpoint] at hat
    cases stop with
    | true => exact hknows.ended.quiet hstep
    | false => exact Stands.quiet ⟨hknows, by unfold At; rw [hpoint]; exact hat⟩ hstep
  · exact hknows.ended.quiet hstep
  · cases hstep

theorem Stands.slotted (h : Stands f p us r) {a : SlotAnswer}
    (hstep : p.next f (.slot a) = some out) : ∃ r', Stands f out.1 (us ++ out.2.toList) r' := by
  obtain ⟨hknows, hat⟩ := h
  unfold At at hat
  unfold Pump.next at hstep
  dsimp only at hstep
  split at hstep
  · next hpoint =>
    rw [hpoint] at hat
    exact Stands.quiet ⟨hknows.moves .render, hat⟩ hstep
  · exact hknows.ended.quiet hstep
  · next stop live hpoint =>
    rw [hpoint] at hat
    cases stop with
    | true => exact hknows.ended.quiet hstep
    | false =>
      cases live with
      | true => exact Stands.quiet ⟨hknows, by unfold At; rw [hpoint]; exact hat⟩ hstep
      | false => exact (hknows.awake hat).quiet hstep
  · cases hstep

theorem Stands.refreshed (h : Stands f p us r) {ok : Bool}
    (hstep : p.next f (.refresh ok) = some out) : ∃ r', Stands f out.1 (us ++ out.2.toList) r' := by
  obtain ⟨hknows, hat⟩ := h
  unfold At at hat
  unfold Pump.next at hstep
  dsimp only at hstep
  split at hstep
  · next hpoint =>
    rw [hpoint] at hat
    refine Stands.quiet (q := { p with point := if ok then .forced else .ended })
      ⟨hknows.moves _, ?_⟩ hstep
    unfold At
    dsimp only
    cases ok with
    | true => exact hat
    | false => trivial
  · cases hstep

theorem Stands.received (h : Stands f p us r) {generation : Option Generation}
    (hstep : p.next f (.read generation answer written) = some out) :
    ∃ r', Stands f out.1 (us ++ out.2.toList) r' := by
  obtain ⟨hknows, hat⟩ := h
  unfold At at hat
  unfold Pump.next at hstep
  dsimp only at hstep
  split at hstep
  · next position hpoint hsub =>
    rw [hpoint] at hat
    obtain ⟨hin, c, current, first, hc, hcurrent, hreads, hnext⟩ := hat
    obtain rfl := some.inj (hsub.symm.trans hcurrent)
    split at hstep
    · next index packet later hrecv =>
      obtain ⟨rfl, hpacket, hlater⟩ := hreads.packet hknows.sound hrecv
      obtain rfl := some.inj hstep
      exact Stands.heard (hknows.reads hlater) hin hc hnext hpacket rfl hlater generation answer
        written
    · next later hrecv =>
      obtain ⟨_, hlater⟩ := hreads.lost hrecv
      exact Stands.quiet ⟨(hknows.reads hlater).breaks .head, hin, fun hn => by cases hn⟩ hstep
    · exact hknows.ended.quiet hstep
    · cases hstep
  · next position hpoint hsub =>
    rw [hpoint] at hat
    obtain ⟨hin, hneeds⟩ := hat
    obtain ⟨first, hreads⟩ := hknows.reader _ hsub
    split at hstep
    · next index packet later hrecv =>
      obtain ⟨rfl, hpacket, hlater⟩ := hreads.packet hknows.sound hrecv
      exact (Stands.awaited (hknows.reads hlater) hin hneeds hpoint hpacket rfl hlater).quiet hstep
    · next later hrecv =>
      obtain ⟨_, hlater⟩ := hreads.lost hrecv
      refine Stands.quiet ⟨hknows.reads hlater, ?_⟩ hstep
      unfold At
      dsimp only
      rw [hpoint]
      exact ⟨hin, hneeds⟩
    · exact hknows.ended.quiet hstep
    · cases hstep
  · cases hstep

theorem Stands.sends (h : Stands f p us r)
    (hstep : p.next f (.send answer stop written) = some out) :
    ∃ r', Stands f out.1 (us ++ out.2.toList) r' := by
  obtain ⟨hknows, hat⟩ := h
  unfold At at hat
  unfold Pump.next at hstep
  dsimp only at hstep
  split at hstep
  · next t hpoint =>
    rw [hpoint] at hat
    cases written with
    | true =>
      obtain rfl := some.inj hstep
      exact Stands.advance hknows hat
    | false => exact hknows.ended.quiet hstep
  · next t hpoint =>
    cases stop with
    | true => exact hknows.ended.quiet hstep
    | false => exact Stands.quiet ⟨hknows, by unfold At; exact hat⟩ hstep
  · exact hknows.ended.quiet hstep
  · cases hstep

theorem Stands.next (h : Stands f p us r) {step : Step} (hstep : p.next f step = some out) :
    ∃ r', Stands f out.1 (us ++ out.2.toList) r' := by
  have hat := h.2
  unfold At at hat
  cases step with
  | turn stop generation =>
    unfold Pump.next at hstep
    dsimp only at hstep
    split at hstep
    · next hpoint =>
      rw [hpoint] at hat
      exact (Stands.turn h.1 hat.1 hat.2 ⟨_, Reads.tail f⟩ stop generation).quiet hstep
    · cases hstep
  | wake =>
    unfold Pump.next at hstep
    dsimp only at hstep
    split at hstep
    · next hpoint =>
      rw [hpoint] at hat
      exact (h.1.awake hat).quiet hstep
    · next hpoint =>
      rw [hpoint] at hat
      exact Stands.quiet ⟨h.1.moves .head, hat.1, fun _ => hat.2⟩ hstep
    · cases hstep
  | ask answer stop => exact h.asked hstep
  | slot a => exact h.slotted hstep
  | refresh ok => exact h.refreshed hstep
  | timeout =>
    unfold Pump.next at hstep
    dsimp only at hstep
    split at hstep
    · next hpoint =>
      rw [hpoint] at hat
      exact (h.1.awake hat).quiet hstep
    · cases hstep
  | read generation answer written => exact h.received hstep
  | send answer stop written => exact h.sends hstep

end Steps

/-! ## The lineage of a run -/

/-- The units of a run form a lineage. -/
structure Lineage (s : PumpRun) : Prop where
  /-- a reader takes them all, one after the other -/
  taken : ∃ r, Held s.pump.start.sceneEpoch s.feed.published s.units r
  increasing : s.units.Pairwise fun u v => u.unit.activationSequence < v.unit.activationSequence
  /-- a delta follows a whole unit, whose frame the engine followed by the delta's -/
  continued : ∀ before u v after, s.units = before ++ u :: v :: after → v.delta = true →
    (u.delta = true ∨ u.ends = true) ∧ NextFrame s.feed.published u.frame v.frame
  led : ∀ v after, s.units = v :: after → v.delta = false
  /-- no delta comes before the end of a transfer that has begun -/
  whole : ∀ before b between v after, s.units = before ++ b :: (between ++ v :: after) →
    b.begins = true → v.delta = true → ∃ e ∈ between, e.ends = true ∧ e.frame = b.frame

theorem lineage_of_stands {s : PumpRun} (h : Stands s.feed s.pump s.units r) : Lineage s := by
  obtain ⟨hknows, -⟩ := h
  have hheld := hknows.held
  refine ⟨⟨r, hheld⟩, hknows.increasing, fun before u v after heq hv => ?_,
    fun v after heq => ?_, fun before b between v after heq hb hv => ?_⟩
  · rw [heq, show before ++ u :: v :: after = before ++ [u] ++ [v] ++ after by simp] at hheld
    obtain ⟨_, hv'⟩ := hheld.of_append
    obtain ⟨_, hu, hav⟩ := hv'.last
    obtain ⟨c, rfl, hnext⟩ := hav.of_delta hv
    obtain ⟨_, -, hau⟩ := hu.last
    obtain ⟨hkind, rfl⟩ := hau.of_shown
    exact ⟨hkind, hnext⟩
  · rw [heq, show v :: after = [] ++ [v] ++ after by simp] at hheld
    obtain ⟨_, hv'⟩ := hheld.of_append
    obtain ⟨_, hnil, hav⟩ := hv'.last
    cases hv : v.delta with
    | false => rfl
    | true =>
      obtain ⟨c, rfl, -⟩ := hav.of_delta hv
      generalize hempty : ([] : List Emitted) = us at hnil
      cases hnil with
      | next => simp at hempty
  · rw [heq, show before ++ b :: (between ++ v :: after) =
      before ++ b :: between ++ [v] ++ after by simp] at hheld
    obtain ⟨_, hv'⟩ := hheld.of_append
    obtain ⟨_, hbetween, hav⟩ := hv'.last
    obtain ⟨c, rfl, -⟩ := hav.of_delta hv
    rcases hbetween.under_way hb with hend | ⟨i, hi, -⟩
    · exact hend
    · cases hi

theorem stands_of_reachable {s : PumpRun} (h : (PumpRun.machine start).Reachable s) :
    ∃ r, Stands s.feed s.pump s.units r := by
  refine h.invariant (P := fun s => ∃ r, Stands s.feed s.pump s.units r) ?_ ?_
  · refine ⟨⟨none, none⟩, ⟨?_, .start, .nil, ?_, rfl, fun _ => rfl, ?_⟩, rfl, fun hn => ?_⟩
    · intro _ _ hmem
      cases hmem
    · intro _ hmem
      cases hmem
    · intro _ he
      cases he
    · cases hn
  · rintro s e s' ⟨r, hs⟩ hnext
    cases e with
    | feed event =>
      obtain ⟨f', hf, rfl⟩ := map_eq_some_iff.mp hnext
      exact ⟨r, hs.feed hf⟩
    | pump step =>
      obtain ⟨out, hstep, rfl⟩ := map_eq_some_iff.mp hnext
      exact hs.next hstep

theorem lineage_of_reachable {s : PumpRun} (h : (PumpRun.machine start).Reachable s) :
    Lineage s :=
  (stands_of_reachable h).elim fun _ hs => lineage_of_stands hs

/-! ## A pump that seeds, loses frames and catches up -/

def sampleFrame (flags revision : UInt8) : Packet :=
  [0x54, 0x52, 0x46, 0x31, 1, 0, flags, 0] ++ List.replicate 40 0 ++
    [revision, 0, 0, 0, 0, 0, 0, 0] ++ List.replicate 8 0

def sampleStart : PumpStart where
  activationId := "a"
  sessionId := "s1"
  leaseEpoch := 1
  creditEpoch := 1
  sceneEpoch := ⟨"boot", 1⟩
  maxChunkBytes := 48
  maxUrgentUnitBytes := 64

theorem lineage_caught_up :
    ∃ s : PumpRun, Lineage s ∧ s.units.map (fun u => (u.frame, u.delta)) =
      [(0, false), (0, false), (0, false), (0, false), (1, true),
        (3, false), (3, false), (3, false), (3, false)] := by
  let send : PumpRun.Event := .pump (.send .admitted false true)
  let turn : PumpRun.Event := .pump (.turn false (some (1, 0)))
  let read : PumpRun.Event := .pump (.read (some (1, 0)) .admitted true)
  obtain ⟨s, hreach, hp⟩ := Machine.exists_of_run (M := PumpRun.machine sampleStart)
    (fun s => decide (s.units.map (fun u => (u.frame, u.delta)) =
      [(0, false), (0, false), (0, false), (0, false), (1, true),
        (3, false), (3, false), (3, false), (3, false)]))
    [turn, .pump (.ask .admitted false), .pump (.slot .acquired), .pump (.refresh true),
      .feed (.publish (sampleFrame 5 1)), .feed .route, read, send, send, send, send, turn,
      .feed (.publish (sampleFrame 0 2)), .feed .route, read, turn,
      .feed (.publish (sampleFrame 0 3)), .feed (.lag 1), read, turn,
      .pump (.ask .admitted false), .pump (.refresh true),
      .feed (.publish (sampleFrame 5 4)), .feed .route, read, send, send, send, send] (by decide)
  exact ⟨s, lineage_of_reachable hreach, of_decide_eq_true hp⟩

end ScenePump
end VibeField.Tp
