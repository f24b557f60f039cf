import Mathlib.Data.List.Basic

/-!
# Items cut from a stream

A framer looks at the bytes it holds and takes an item off their front, finds them malformed, or
waits for more.  It takes just the good items as they are written, and more bytes do not mend a
fault.  So the items of a stream, and whether it is malformed, do not depend on the pieces it came
in; but a reader that gives no item of the piece in which it finds a fault loses those that ended
there.
-/

namespace VibeField

open List

universe u v w

inductive Taken (β : Type u) (α : Type v) (ε : Type w) where
  | more
  | bad (e : ε)
  | item (a : α) (rest : List β)

structure Framer (β : Type u) (α : Type v) (ε : Type w) where
  take : List β → Taken β α ε
  wire : α → List β
  Good : α → Prop
  wire_ne_nil : ∀ a, wire a ≠ []
  take_wire : ∀ a rest, Good a → take (wire a ++ rest) = .item a rest
  item_wire : ∀ s a rest, take s = .item a rest → Good a ∧ s = wire a ++ rest
  bad_append : ∀ s t e, take s = .bad e → take (s ++ t) = .bad e

/-- The items off the front, the bytes they leave, and what is wrong there. -/
structure Drained (β : Type u) (α : Type v) (ε : Type w) where
  items : List α
  rest : List β
  fault : Option ε

namespace Framer

variable {β : Type u} {α : Type v} {ε : Type w} (f : Framer β α ε)

def drainFor : Nat → List β → Drained β α ε
  | 0, s => { items := [], rest := s, fault := none }
  | fuel + 1, s =>
    match f.take s with
    | .more => { items := [], rest := s, fault := none }
    | .bad e => { items := [], rest := s, fault := some e }
    | .item a rest =>
      let r := drainFor fuel rest
      { r with items := a :: r.items }

def drain (s : List β) : Drained β α ε := f.drainFor (s.length + 1) s

variable {f} {s t rest : List β} {a : α} {e : ε} {items : List α}

theorem rest_shorter (h : f.take s = .item a rest) : rest.length < s.length := by
  have hpos := length_pos_of_ne_nil (f.wire_ne_nil a)
  rw [(f.item_wire s a rest h).2, length_append]
  omega

theorem drainFor_congr {j k : Nat} (hj : s.length < j) (hk : s.length < k) :
    f.drainFor j s = f.drainFor k s := by
  induction j generalizing k s with
  | zero => exact absurd hj (Nat.not_lt_zero _)
  | succ j ih =>
    cases k with
    | zero => exact absurd hk (Nat.not_lt_zero _)
    | succ k =>
      rw [drainFor, drainFor]
      cases htake : f.take s with
      | more => rfl
      | bad e => rfl
      | item a rest =>
        have hlt := rest_shorter htake
        simp only [ih (k := k) (show rest.length < j by omega) (by omega)]

theorem drain_more (h : f.take s = .more) :
    f.drain s = { items := [], rest := s, fault := none } := by
  rw [drain, drainFor, h]

theorem drain_bad (h : f.take s = .bad e) :
    f.drain s = { items := [], rest := s, fault := some e } := by
  rw [drain, drainFor, h]

theorem drain_item (h : f.take s = .item a rest) :
    f.drain s = { f.drain rest with items := a :: (f.drain rest).items } := by
  have hlt := rest_shorter h
  rw [drain, drainFor, h]
  simp only [drainFor_congr (f := f) hlt (Nat.lt_succ_self _)]
  rfl

theorem drain_induction {P : List β → Prop} (hmore : ∀ s, f.take s = .more → P s)
    (hbad : ∀ s e, f.take s = .bad e → P s)
    (hitem : ∀ s a rest, f.take s = .item a rest → P rest → P s) (s : List β) : P s := by
  induction hlen : s.length using Nat.strongRecOn generalizing s with
  | ind len ih =>
    cases htake : f.take s with
    | more => exact hmore s htake
    | bad e => exact hbad s e htake
    | item a rest =>
      have hlt := rest_shorter htake
      exact hitem s a rest htake (ih rest.length (by omega) rest rfl)

theorem drain_wire (h : ∀ a ∈ items, f.Good a) (t : List β) :
    f.drain (items.flatMap f.wire ++ t) =
      { f.drain t with items := items ++ (f.drain t).items } := by
  induction items with
  | nil => rfl
  | cons a items ih =>
    have htake := f.take_wire a (items.flatMap f.wire ++ t) (h a mem_cons_self)
    rw [flatMap_cons, append_assoc, drain_item htake,
      ih fun b hb => h b (mem_cons_of_mem a hb)]
    rfl

theorem drain_eq (s : List β) : s = (f.drain s).items.flatMap f.wire ++ (f.drain s).rest ∧
    ∀ a ∈ (f.drain s).items, f.Good a := by
  induction s using drain_induction (f := f) with
  | hmore s h =>
    rw [drain_more h]
    exact ⟨rfl, by simp⟩
  | hbad s e h =>
    rw [drain_bad h]
    exact ⟨rfl, by simp⟩
  | hitem s a rest h ih =>
    obtain ⟨hgood, hs⟩ := f.item_wire s a rest h
    rw [drain_item h]
    refine ⟨?_, fun b hb => ?_⟩
    · rw [flatMap_cons, append_assoc, ← ih.1, hs]
    · rcases mem_cons.mp hb with rfl | hb
      · exact hgood
      · exact ih.2 b hb

theorem take_rest (s : List β) : f.take (f.drain s).rest =
    match (f.drain s).fault with
    | none => .more
    | some e => .bad e := by
  induction s using drain_induction (f := f) with
  | hmore s h => rwa [drain_more h]
  | hbad s e h => rwa [drain_bad h]
  | hitem s a rest h ih => rwa [drain_item h]

theorem drain_append (s t : List β) : f.drain (s ++ t) =
    { f.drain ((f.drain s).rest ++ t) with
      items := (f.drain s).items ++ (f.drain ((f.drain s).rest ++ t)).items } := by
  have hs := f.drain_eq s
  conv => lhs; rw [hs.1]
  rw [append_assoc, drain_wire hs.2]

theorem drain_append_fault (h : (f.drain s).fault = some e) (t : List β) :
    f.drain (s ++ t) =
      { items := (f.drain s).items, rest := (f.drain s).rest ++ t, fault := some e } := by
  have hrest := f.take_rest s
  rw [h] at hrest
  rw [drain_append, drain_bad (f.bad_append _ t e hrest), append_nil]

/-! ## Pieces -/

def feed (f : Framer β α ε) : List β → List (List β) → List α × Option ε
  | _, [] => ([], none)
  | held, piece :: pieces =>
    let r := f.drain (held ++ piece)
    match r.fault with
    | some e => ([], some e)
    | none =>
      let later := f.feed r.rest pieces
      (r.items ++ later.1, later.2)

theorem feed_fault {held : List β} (hheld : f.take held = .more) (pieces : List (List β)) :
    (f.feed held pieces).2 = (f.drain (held ++ pieces.flatten)).fault := by
  induction pieces generalizing held with
  | nil => rw [flatten_nil, append_nil, drain_more hheld, feed]
  | cons piece pieces ih =>
    rw [flatten_cons, ← append_assoc, feed]
    cases hfault : (f.drain (held ++ piece)).fault with
    | some e => rw [drain_append_fault hfault]
    | none =>
      have hrest := f.take_rest (held ++ piece)
      rw [hfault] at hrest
      simp only [ih hrest]
      rw [drain_append (held ++ piece)]

/-- After `k` pieces every item of the stream has come, and no fault has shown. -/
def Between (f : Framer β α ε) (held : List β) (pieces : List (List β)) (k : Nat) : Prop :=
  ((f.drain (held ++ pieces.flatten)).items.flatMap f.wire).length ≤
      (held ++ (pieces.take k).flatten).length ∧
    (f.drain (held ++ (pieces.take k).flatten)).fault = none

theorem between_succ {held piece : List β} {pieces : List (List β)} {k : Nat} :
    f.Between held (piece :: pieces) (k + 1) ↔
      f.Between (f.drain (held ++ piece)).rest pieces k := by
  have hfirst := congrArg List.length (f.drain_eq (held ++ piece)).1
  have hall := f.drain_append (held ++ piece) pieces.flatten
  have hpart := f.drain_append (held ++ piece) (pieces.take k).flatten
  rw [Between, Between, flatten_cons, take_succ_cons, flatten_cons,
    ← append_assoc, ← append_assoc, hall, hpart]
  simp only [flatMap_append, length_append] at hfirst ⊢
  rw [hfirst]
  constructor
  · exact fun h => ⟨by omega, h.2⟩
  · exact fun h => ⟨by omega, h.2⟩

theorem feed_items {held : List β} (hheld : f.take held = .more) (pieces : List (List β)) :
    (f.feed held pieces).1 = (f.drain (held ++ pieces.flatten)).items ↔
      (f.drain (held ++ pieces.flatten)).fault = none ∨ ∃ k, f.Between held pieces k := by
  induction pieces generalizing held with
  | nil =>
    rw [flatten_nil, append_nil, drain_more hheld]
    exact iff_of_true rfl (.inl rfl)
  | cons piece pieces ih =>
    have hassoc : held ++ (piece :: pieces).flatten = held ++ piece ++ pieces.flatten := by
      rw [flatten_cons, append_assoc]
    cases hfault : (f.drain (held ++ piece)).fault with
    | some e =>
      have hall := drain_append_fault hfault pieces.flatten
      have hfeed : (f.feed held (piece :: pieces)).1 = [] := by rw [feed, hfault]
      rw [hfeed, hassoc, hall]
      constructor
      · intro hnil
        refine .inr ⟨0, ?_, ?_⟩
        · rw [hassoc, hall, ← hnil]
          exact Nat.zero_le _
        · rw [take_zero, flatten_nil, append_nil, drain_more hheld]
      · rintro (hnone | ⟨k, hlen, hk⟩)
        · cases hnone
        · cases k with
          | succ k =>
            rw [take_succ_cons, flatten_cons, ← append_assoc,
              drain_append_fault hfault] at hk
            cases hk
          | zero =>
            rw [hassoc, hall, take_zero, flatten_nil, append_nil] at hlen
            cases hitems : (f.drain (held ++ piece)).items with
            | nil => rfl
            | cons a items =>
              -- The first item would have come with the bytes held before.
              obtain ⟨hs, hgood⟩ := f.drain_eq (held ++ piece)
              rw [hitems] at hs hgood hlen
              rw [flatMap_cons, append_assoc] at hs
              rw [flatMap_cons, length_append] at hlen
              have hprefix : held = f.wire a ++ held.drop (f.wire a).length := by
                have htake := congrArg (List.take (f.wire a).length) hs
                rw [take_append_of_le_length (by omega), take_left] at htake
                calc held = held.take (f.wire a).length ++ held.drop (f.wire a).length :=
                      (take_append_drop _ _).symm
                  _ = f.wire a ++ held.drop (f.wire a).length := by rw [htake]
              have hitem := f.take_wire a (held.drop (f.wire a).length)
                (hgood a mem_cons_self)
              rw [← hprefix, hheld] at hitem
              cases hitem
    | none =>
      have hrest := f.take_rest (held ++ piece)
      rw [hfault] at hrest
      have hfeed : (f.feed held (piece :: pieces)).1 =
          (f.drain (held ++ piece)).items ++ (f.feed (f.drain (held ++ piece)).rest pieces).1 := by
        rw [feed, hfault]
      rw [hfeed, hassoc, drain_append (held ++ piece), append_cancel_left_eq, ih hrest]
      refine or_congr_right ⟨fun ⟨k, hk⟩ => ⟨k + 1, between_succ.mpr hk⟩, fun ⟨k, hk⟩ => ?_⟩
      cases k with
      | succ k => exact ⟨k, between_succ.mp hk⟩
      | zero =>
        refine ⟨0, between_succ.mp ⟨Nat.le_trans hk.1 ?_, ?_⟩⟩
        · simp only [take_zero, flatten_nil, append_nil, length_append]
          exact Nat.le_add_right ..
        · rw [take_succ_cons, take_zero, flatten_singleton, hfault]

end Framer
end VibeField
