import VibeField.Base.CodePoints

/-!
# Percent-encoding of UTF-16 texts

A text of code units may hold surrogates that stand alone.  `encodeURIComponent` throws on such a
text; of any other it keeps the letters, the digits and nine marks, and writes every other character
as the escapes of its UTF-8.  `decodeURIComponent` reads the escapes back, character by character,
and keeps every other unit; it throws where an escape is malformed or the escaped bytes are no
UTF-8.
-/

namespace VibeField.UriUnits

open Utf16 List Option

/-! ## UTF-8 -/

def utf8 (point : Nat) : List Nat :=
  if point < 0x80 then [point]
  else if point < 0x800 then [0xC0 + point / 0x40, 0x80 + point % 0x40]
  else if point < 0x10000 then
    [0xE0 + point / 0x1000, 0x80 + point / 0x40 % 0x40, 0x80 + point % 0x40]
  else
    [0xF0 + point / 0x40000, 0x80 + point / 0x1000 % 0x40, 0x80 + point / 0x40 % 0x40,
      0x80 + point % 0x40]

/-- A character some of whose bytes have come. -/
structure Partial where
  /-- The bytes still to come, less one. -/
  more : Nat
  value : Nat
  /-- The least character of so many bytes. -/
  least : Nat

def lead (byte : Nat) : Option (Nat ⊕ Partial) :=
  if byte < 0x80 then some (.inl byte)
  else if byte < 0xC0 then none
  else if byte < 0xE0 then some (.inr ⟨0, byte - 0xC0, 0x80⟩)
  else if byte < 0xF0 then some (.inr ⟨1, byte - 0xE0, 0x800⟩)
  else if byte < 0xF8 then some (.inr ⟨2, byte - 0xF0, 0x10000⟩)
  else none

def Partial.next (p : Partial) (byte : Nat) : Option (Nat ⊕ Partial) :=
  if 0x80 ≤ byte && byte < 0xC0 then
    let value := p.value * 0x40 + (byte - 0x80)
    match p.more with
    | more + 1 => some (.inr ⟨more, value, p.least⟩)
    | 0 =>
      if p.least ≤ value && value < 0x110000 && !isSurrogate value then some (.inl value) else none
  else none

/-! ## Escapes -/

inductive Token where
  | unit (u : UInt16)
  | byte (b : Nat)

def hexValue (u : UInt16) : Option Nat :=
  let n := u.toNat
  if 48 ≤ n && n ≤ 57 then some (n - 48)
  else if 65 ≤ n && n ≤ 70 then some (n - 55)
  else if 97 ≤ n && n ≤ 102 then some (n - 87)
  else none

def percent : UInt16 := 37

/-- Reading an escape. -/
inductive Escape where
  | no
  | open
  | high (h : Nat)

def tokens : Escape → List UInt16 → Option (List Token)
  | .no, [] => some []
  | _, [] => none
  | .no, u :: rest =>
    if u = percent then tokens .open rest else (tokens .no rest).map fun l => .unit u :: l
  | .open, u :: rest => (hexValue u).bind fun h => tokens (.high h) rest
  | .high h, u :: rest =>
    (hexValue u).bind fun l => (tokens .no rest).map fun t => .byte (16 * h + l) :: t

def join : Option Partial → List Token → Option (List UInt16)
  | none, [] => some []
  | some _, [] => none
  | none, .unit u :: rest => (join none rest).map fun l => u :: l
  | some _, .unit _ :: _ => none
  | p, .byte b :: rest =>
    match p.elim (lead b) fun p => p.next b with
    | none => none
    | some (.inl point) => (join none rest).map fun l => unitsOf point ++ l
    | some (.inr p) => join (some p) rest

def decodeURIComponent (text : List UInt16) : Option (List UInt16) :=
  (tokens .no text).bind (join none)

def unreserved (byte : Nat) : Bool :=
  (65 ≤ byte && byte ≤ 90) || (97 ≤ byte && byte ≤ 122) || (48 ≤ byte && byte ≤ 57) ||
    [45, 95, 46, 33, 126, 42, 39, 40, 41].contains byte

def hexDigit (n : Nat) : UInt16 := UInt16.ofNat (if n < 10 then 48 + n else 55 + n)

def encodeByte (byte : Nat) : List UInt16 :=
  if unreserved byte then [UInt16.ofNat byte]
  else [percent, hexDigit (byte / 16), hexDigit (byte % 16)]

def encodeURIComponent (text : List UInt16) : Option (List UInt16) :=
  if wellFormed text then
    some ((codePoints text).flatMap fun point => (utf8 point).flatMap encodeByte)
  else none

variable {text : List UInt16} {point : Nat}

/-! ## Escapes are read back -/

variable {b n : Nat} {c : Char} {p : Partial} {u : UInt16}

theorem join_begin (h : lead b = some (.inr p)) (rest : List Token) :
    join none (.byte b :: rest) = join (some p) rest := by
  rw [join, elim_none, h]

theorem join_more {c more value least : Nat} (hc : c < 0x40) (rest : List Token) :
    join (some ⟨more + 1, value, least⟩) (.byte (0x80 + c) :: rest) =
      join (some ⟨more, value * 0x40 + c, least⟩) rest := by
  have hnext : (⟨more + 1, value, least⟩ : Partial).next (0x80 + c) =
      some (.inr ⟨more, value * 0x40 + c, least⟩) := by
    rw [Partial.next, if_pos (by simp; omega), Nat.add_sub_cancel_left]
  rw [join, elim_some, hnext]

theorem join_last {c value least : Nat} (hc : c < 0x40) (hpoint : value * 0x40 + c = point)
    (hleast : least ≤ point) (hlt : point < 0x110000) (hs : isSurrogate point = false)
    (rest : List Token) :
    join (some ⟨0, value, least⟩) (.byte (0x80 + c) :: rest) =
      (join none rest).map fun l => unitsOf point ++ l := by
  have hnext : (⟨0, value, least⟩ : Partial).next (0x80 + c) = some (.inl point) := by
    rw [Partial.next, if_pos (by simp; omega), Nat.add_sub_cancel_left]
    simp only [hpoint]
    rw [if_pos (by simp [hleast, hlt, hs])]
  rw [join, elim_some, hnext]

theorem lead_two (h : b < 0x20) : lead (0xC0 + b) = some (.inr ⟨0, b, 0x80⟩) := by
  rw [lead, if_neg (by omega), if_neg (by omega), if_pos (by omega), Nat.add_sub_cancel_left]

theorem lead_three (h : b < 0x10) : lead (0xE0 + b) = some (.inr ⟨1, b, 0x800⟩) := by
  rw [lead, if_neg (by omega), if_neg (by omega), if_neg (by omega), if_pos (by omega),
    Nat.add_sub_cancel_left]

theorem lead_four (h : b < 8) : lead (0xF0 + b) = some (.inr ⟨2, b, 0x10000⟩) := by
  rw [lead, if_neg (by omega), if_neg (by omega), if_neg (by omega), if_neg (by omega),
    if_pos (by omega), Nat.add_sub_cancel_left]

theorem join_utf8 (hpoint : point < 0x110000) (hs : isSurrogate point = false)
    (rest : List Token) : join none ((utf8 point).map .byte ++ rest) =
      (join none rest).map fun l => unitsOf point ++ l := by
  rw [utf8]
  split
  · next h =>
    have hlead : lead point = some (.inl point) := by rw [lead, if_pos h]
    rw [map_singleton, singleton_append, join, elim_none, hlead]
  split
  · show join none (.byte (0xC0 + point / 0x40) :: .byte (0x80 + point % 0x40) :: rest) = _
    rw [join_begin (lead_two (by omega)), join_last (by omega) (by omega) (by omega) hpoint hs]
  split
  · show join none (.byte (0xE0 + point / 0x1000) :: .byte (0x80 + point / 0x40 % 0x40) ::
      .byte (0x80 + point % 0x40) :: rest) = _
    rw [join_begin (lead_three (by omega)), join_more (by omega),
      join_last (by omega) (by omega) (by omega) hpoint hs]
  · show join none (.byte (0xF0 + point / 0x40000) :: .byte (0x80 + point / 0x1000 % 0x40) ::
      .byte (0x80 + point / 0x40 % 0x40) :: .byte (0x80 + point % 0x40) :: rest) = _
    rw [join_begin (lead_four (by omega)), join_more (by omega), join_more (by omega),
      join_last (by omega) (by omega) (by omega) hpoint hs]

theorem utf8_lt (hpoint : point < 0x110000) : ∀ b ∈ utf8 point, b < 256 := by
  rw [utf8]
  split
  · simp
    omega
  split
  · simp
    omega
  split
  · simp
    omega
  · simp
    omega

def tokenOf (b : Nat) : Token := if unreserved b then .unit (UInt16.ofNat b) else .byte b

theorem unreserved_lt (h : unreserved b = true) : b < 0x80 ∧ b ≠ 37 := by
  simp only [unreserved, Bool.or_eq_true, Bool.and_eq_true, decide_eq_true_eq,
    contains_iff_mem, mem_cons, not_mem_nil, or_false] at h
  omega

theorem toNat_ofNat_lt (h : n < 256) : (UInt16.ofNat n).toNat = n :=
  toNat_ofNat (by omega)

theorem hexValue_hexDigit (h : n < 16) : hexValue (hexDigit n) = some n := by
  rw [hexValue, hexDigit]
  split
  · next hlt =>
    rw [toNat_ofNat_lt (by omega), if_pos (by simp; omega), Nat.add_sub_cancel_left]
  · next hge =>
    rw [toNat_ofNat_lt (by omega), if_neg (by simp; omega), if_pos (by simp; omega),
      Nat.add_sub_cancel_left]

theorem tokens_encodeByte (hb : b < 256) (rest : List UInt16) :
    tokens .no (encodeByte b ++ rest) = (tokens .no rest).map fun l => tokenOf b :: l := by
  rw [encodeByte, tokenOf]
  split
  · next h =>
    have hne : UInt16.ofNat b ≠ percent := fun heq => (unreserved_lt h).2 (by
      have hnat := congrArg UInt16.toNat heq
      rwa [toNat_ofNat_lt hb] at hnat)
    rw [singleton_append, tokens, if_neg hne]
  · show tokens .no (percent :: hexDigit (b / 16) :: hexDigit (b % 16) :: rest) = _
    rw [tokens, if_pos rfl, tokens, hexValue_hexDigit (by omega), bind_some, tokens,
      hexValue_hexDigit (by omega), bind_some, Nat.div_add_mod]

theorem tokens_encode {bytes : List Nat} (hbytes : ∀ b ∈ bytes, b < 256) (rest : List UInt16) :
    tokens .no (bytes.flatMap encodeByte ++ rest) =
      (tokens .no rest).map fun l => bytes.map tokenOf ++ l := by
  induction bytes with
  | nil => exact (Option.map_id' ..).symm
  | cons b bytes ih =>
    obtain ⟨hb, hrest⟩ := forall_mem_cons.mp hbytes
    rw [flatMap_cons, append_assoc, tokens_encodeByte hb, ih hrest, Option.map_map]
    rfl

theorem join_tokenOf (hpoint : point < 0x110000) (hs : isSurrogate point = false)
    (rest : List Token) : join none ((utf8 point).map tokenOf ++ rest) =
      (join none rest).map fun l => unitsOf point ++ l := by
  by_cases h : point < 0x80
  · have hutf8 : utf8 point = [point] := if_pos h
    rw [hutf8, map_singleton, singleton_append, tokenOf]
    split
    · rw [join, unitsOf, if_pos (by omega)]
      rfl
    · rw [← singleton_append, ← map_singleton, ← hutf8]
      exact join_utf8 hpoint hs rest
  · have hbytes : (utf8 point).map tokenOf = (utf8 point).map .byte := by
      refine map_congr_left fun b hb => ?_
      rw [tokenOf, if_neg fun hun => ?_]
      have hlt := (unreserved_lt hun).1
      rw [utf8, if_neg h] at hb
      split at hb
      · simp at hb
        omega
      split at hb
      · simp at hb
        omega
      · simp at hb
        omega
    rw [hbytes, join_utf8 hpoint hs]

theorem join_points {points : List Nat} (hlt : ∀ point ∈ points, point < 0x110000)
    (hs : ∀ point ∈ points, isSurrogate point = false) :
    join none ((points.flatMap utf8).map tokenOf) = some (points.flatMap unitsOf) := by
  induction points with
  | nil => rfl
  | cons point points ih =>
    obtain ⟨hpoint, hlt⟩ := forall_mem_cons.mp hlt
    obtain ⟨hsingle, hs⟩ := forall_mem_cons.mp hs
    rw [flatMap_cons, map_append, join_tokenOf hpoint hsingle, ih hlt hs]
    rfl

theorem decode_encode {encoded : List UInt16} (h : encodeURIComponent text = some encoded) :
    decodeURIComponent encoded = some text := by
  rw [encodeURIComponent] at h
  split at h
  · next hwell =>
    cases h
    have hlt := codePoints_lt text
    have hs : ∀ point ∈ codePoints text, isSurrogate point = false := by
      simpa [wellFormed] using hwell
    have hbytes : ∀ b ∈ (codePoints text).flatMap utf8, b < 256 := fun b hb => by
      obtain ⟨point, hpoint, hin⟩ := mem_flatMap.mp hb
      exact utf8_lt (hlt point hpoint) b hin
    have htokens := tokens_encode hbytes []
    rw [append_nil, flatMap_assoc] at htokens
    rw [decodeURIComponent, htokens]
    show join none ((((codePoints text).flatMap utf8).map tokenOf) ++ []) = _
    rw [append_nil, join_points hlt hs, flatMap_unitsOf]
  · cases h

/-! ## What an encoded text is made of -/

theorem unreserved_hexDigit (h : n < 16) : unreserved (hexDigit n).toNat = true := by
  rw [hexDigit, toNat_ofNat_lt (by split <;> omega)]
  simp only [unreserved, Bool.or_eq_true, Bool.and_eq_true, decide_eq_true_eq]
  split
  · omega
  · omega

theorem mem_encodeByte (hb : b < 256) (h : u ∈ encodeByte b) :
    u = percent ∨ unreserved u.toNat = true := by
  rw [encodeByte] at h
  split at h
  · next hun =>
    rw [mem_singleton] at h
    rw [h, toNat_ofNat_lt hb]
    exact .inr hun
  · rcases mem_cons.mp h with rfl | h
    · exact .inl rfl
    rcases mem_pair.mp h with rfl | rfl
    · exact .inr (unreserved_hexDigit (by omega))
    · exact .inr (unreserved_hexDigit (by omega))

theorem mem_encode {encoded : List UInt16} (h : encodeURIComponent text = some encoded) :
    ∀ u ∈ encoded, u = percent ∨ unreserved u.toNat = true := by
  rw [encodeURIComponent] at h
  split at h
  · cases h
    intro u hu
    obtain ⟨point, hpoint, hu⟩ := mem_flatMap.mp hu
    obtain ⟨b, hb, hu⟩ := mem_flatMap.mp hu
    exact mem_encodeByte (utf8_lt (codePoints_lt text point hpoint) b hb) hu
  · cases h

theorem encode_isSome : (encodeURIComponent text).isSome = wellFormed text := by
  rw [encodeURIComponent]
  cases wellFormed text <;> rfl

/-! ## Texts of scalars -/

/-- The units come a scalar at a time. -/
inductive Scalars : List Token → Prop where
  | nil : Scalars []
  | byte (b : Nat) {rest : List Token} : Scalars rest → Scalars (.byte b :: rest)
  | scalar (c : Char) {rest : List Token} : Scalars rest →
      Scalars ((units c).map .unit ++ rest)

theorem hexValue_lt (h : hexValue u = some n) : u.toNat < 0x80 := by
  rw [hexValue] at h
  simp only [Bool.and_eq_true, decide_eq_true_eq] at h
  split at h
  · omega
  split at h
  · omega
  split at h
  · omega
  · cases h

theorem units_of_hex {more : List UInt16} (h : units c = u :: more) (hhex : hexValue u = some n) :
    more = [] := by
  have hlt := hexValue_lt hhex
  have hmem : u ∈ units c := by simp [h]
  have hc : c.toNat < 0x10000 := by
    rcases unit_of_mem hmem with hsame | ⟨hu, -⟩
    · omega
    · omega
  rw [units_of_lt hc] at h
  exact (List.cons.inj h).2.symm

theorem tokens_units (hu : 0xD800 ≤ u.toNat) (rest : List UInt16) :
    tokens .no (u :: rest) = (tokens .no rest).map fun l => .unit u :: l := by
  have hne : u ≠ percent := fun h => by
    rw [h] at hu
    exact absurd hu (by decide)
  rw [tokens, if_neg hne]

theorem tokens_scalar (hc : c.toNat ≠ 37) (rest : List UInt16) :
    tokens .no (units c ++ rest) =
      (tokens .no rest).map fun l => (units c).map .unit ++ l := by
  have hlt := toNat_lt c
  by_cases hplane : c.toNat < 0x10000
  · have hne : unit c ≠ percent := fun h => hc (by
      have hnat := congrArg UInt16.toNat h
      rwa [toNat_unit hplane] at hnat)
    rw [units_of_lt hplane, singleton_append, tokens, if_neg hne]
    rfl
  · rw [units, if_neg hplane, cons_append, singleton_append,
      tokens_units (by rw [toNat_ofNat (by omega)]; omega),
      tokens_units (by rw [toNat_ofNat (by omega)]; omega), Option.map_map]
    rfl

theorem tokens_scalars {t : List Char} {escape : Escape} {toks : List Token}
    (h : tokens escape (encode t) = some toks) : Scalars toks := by
  induction t generalizing escape toks with
  | nil =>
    cases escape with
    | no =>
      cases h
      exact .nil
    | «open» => cases h
    | high hi => cases h
  | cons c t ih =>
    rw [encode, flatMap_cons] at h
    cases escape with
    | no =>
      by_cases hc : c.toNat = 37
      · have hunit : units c = [percent] := by rw [units, if_pos (by omega), hc]; rfl
        rw [hunit, singleton_append, tokens, if_pos rfl] at h
        exact ih h
      · rw [tokens_scalar hc] at h
        obtain ⟨rest, hrest, rfl⟩ := map_eq_some_iff.mp h
        exact .scalar c (ih hrest)
    | «open» =>
      obtain ⟨u, more, hunits⟩ := exists_cons_of_ne_nil (units_ne c)
      rw [hunits, cons_append, tokens] at h
      obtain ⟨hi, hhex, h⟩ := bind_eq_some_iff.mp h
      rw [units_of_hex hunits hhex] at h
      exact ih h
    | high hi =>
      obtain ⟨u, more, hunits⟩ := exists_cons_of_ne_nil (units_ne c)
      rw [hunits, cons_append, tokens] at h
      obtain ⟨low, hhex, h⟩ := bind_eq_some_iff.mp h
      rw [units_of_hex hunits hhex] at h
      obtain ⟨rest, hrest, rfl⟩ := map_eq_some_iff.mp h
      exact .byte _ (ih hrest)

theorem lead_inl (h : lead b = some (.inl point)) : point < 0x80 := by
  rw [lead] at h
  split at h
  · cases h
    assumption
  · split at h
    · cases h
    · split at h
      · cases h
      · split at h
        · cases h
        · split at h <;> cases h

theorem next_inl (h : p.next b = some (.inl point)) :
    point < 0x110000 ∧ isSurrogate point = false := by
  rw [Partial.next] at h
  split at h
  · cases hmore : p.more with
    | succ more => simp [hmore] at h
    | zero =>
      simp only [hmore] at h
      split at h
      · next hok =>
        rw [some_inj, Sum.inl.injEq] at h
        rw [h, Bool.and_eq_true, Bool.and_eq_true, decide_eq_true_eq, decide_eq_true_eq,
          Bool.not_eq_true'] at hok
        exact ⟨hok.1.2, hok.2⟩
      · cases h
  · cases h

theorem unitsOf_scalar (hlt : point < 0x110000) (hs : isSurrogate point = false) :
    unitsOf point = units (Char.ofNat point) := by
  have hvalid : point.isValidChar := by
    have hp := isSurrogate_iff.mp hs
    rw [Nat.isValidChar]
    omega
  have hnat : (Char.ofNat point).toNat = point := by
    rw [Char.ofNat, dif_pos hvalid]
    rfl
  rw [units_eq, hnat]

theorem join_unit_none {rest : List Token} :
    join (some p) ((units c).map .unit ++ rest) = none := by
  obtain ⟨u, more, hunits⟩ := exists_cons_of_ne_nil (units_ne c)
  rw [hunits]
  rfl

theorem join_units (word : List UInt16) (rest : List Token) :
    join none (word.map .unit ++ rest) = (join none rest).map fun l => word ++ l := by
  induction word with
  | nil => exact (Option.map_id' ..).symm
  | cons u word ih =>
    rw [map_cons, cons_append, join, ih, Option.map_map]
    rfl

theorem join_scalars {toks : List Token} (h : Scalars toks) {p : Option Partial}
    {l : List UInt16} (hjoin : join p toks = some l) : ∃ t, l = encode t := by
  induction h generalizing p l with
  | nil =>
    cases p with
    | none =>
      cases hjoin
      exact ⟨[], rfl⟩
    | some p => cases hjoin
  | scalar c hrest ih =>
    cases p with
    | none =>
      rw [join_units] at hjoin
      obtain ⟨l, hl, rfl⟩ := map_eq_some_iff.mp hjoin
      obtain ⟨t, rfl⟩ := ih hl
      exact ⟨c :: t, rfl⟩
    | some p => rw [join_unit_none] at hjoin; cases hjoin
  | byte b hrest ih =>
    have hpoint : ∀ point, (p.elim (lead b) fun p => p.next b) = some (.inl point) →
        point < 0x110000 ∧ isSurrogate point = false := by
      intro point hp
      cases p with
      | none =>
        have hlt := lead_inl hp
        exact ⟨by omega, isSurrogate_iff.mpr (.inl (by omega))⟩
      | some p => exact next_inl hp
    rw [join] at hjoin
    split at hjoin
    · cases hjoin
    · next point hp =>
      obtain ⟨hlt, hs⟩ := hpoint point hp
      obtain ⟨l, hl, rfl⟩ := map_eq_some_iff.mp hjoin
      obtain ⟨t, rfl⟩ := ih hl
      exact ⟨Char.ofNat point :: t, by rw [unitsOf_scalar hlt hs]; rfl⟩
    · exact ih hjoin

theorem decode_scalars {t : List Char} {l : List UInt16}
    (h : decodeURIComponent (encode t) = some l) : ∃ s, l = encode s := by
  obtain ⟨toks, htoks, hjoin⟩ := bind_eq_some_iff.mp h
  exact join_scalars (tokens_scalars htoks) hjoin

end VibeField.UriUnits
