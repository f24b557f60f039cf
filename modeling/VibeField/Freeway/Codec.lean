import VibeField.Freeway.Frame

/-!
# The two halves of the frame codec

The writer and the reader hold a frame to the same limits: a fragment is of a message,
LINK is the frame of stream 0 and no other is, a WINDOW's payload is one numeral.  A
message is accepted when it is a type byte, a numeral of the stream's id, and the payload
of such a frame.  A numeral may be longer than need be; the writer's is not.
-/

namespace VibeField.Freeway

open List

/-- The limits a frame is held to. -/
structure WithinLimits (frame : Frame) : Prop where
  fragment : frame.fragment = true → frame.kind.fragments = true
  link : frame.kind = .link ↔ frame.stream = 0
  window : frame.kind = .window → ∃ bytes, Leb128.Spells frame.payload bytes

def Frame.typeByte (frame : Frame) : UInt8 :=
  frame.kind.byte ||| if frame.fragment then fragmentBit else 0

variable {frame : Frame} {message : Bytes}

/-! ## What is checked -/

theorem windowGrant_ok_iff {bytes : Nat} :
    windowGrant frame = .ok bytes ↔
      frame.kind = .window ∧ Leb128.Spells frame.payload bytes := by
  unfold windowGrant
  by_cases hkind : frame.kind = .window
  · rw [if_neg (not_not_intro hkind)]
    constructor
    · intro h
      refine ⟨hkind, ?_⟩
      split at h
      · cases h
      · next n used hread =>
        obtain ⟨numeral, rest, hpayload, hs, hused⟩ := Leb128.read_ok_iff.mp hread
        split at h
        · cases h
        · next hall =>
          obtain rfl := Except.ok.inj h
          have hlength := congrArg List.length hpayload
          rw [length_append] at hlength
          have hrest : rest = [] := length_eq_zero_iff.mp (by omega)
          rwa [hpayload, hrest, append_nil]
    · rintro ⟨_, hs⟩
      have hread := Leb128.read_of_spells hs []
      rw [append_nil] at hread
      rw [hread]
      simp
  · rw [if_pos hkind]
    simp [hkind]

theorem check_ok_iff : check frame = .ok () ↔ WithinLimits frame := by
  unfold check
  by_cases hfragment : (frame.fragment && !frame.kind.fragments) = true
  · rw [if_pos hfragment]
    constructor
    · intro h
      cases h
    · intro h
      rw [Bool.and_eq_true] at hfragment
      simp [h.fragment hfragment.1] at hfragment
  · rw [if_neg hfragment]
    have hmay : frame.fragment = true → frame.kind.fragments = true := by
      intro h
      simpa [h] using hfragment
    by_cases hlink : frame.kind = .link ∧ frame.stream ≠ 0
    · rw [if_pos hlink]
      constructor
      · intro h
        cases h
      · intro h
        exact absurd (h.link.mp hlink.1) hlink.2
    · rw [if_neg hlink]
      by_cases hzero : frame.kind ≠ .link ∧ frame.stream = 0
      · rw [if_pos hzero]
        constructor
        · intro h
          cases h
        · intro h
          exact absurd (h.link.mpr hzero.2) hzero.1
      · rw [if_neg hzero]
        have hiff : frame.kind = .link ↔ frame.stream = 0 := by
          constructor
          · intro h
            by_contra hne
            exact hlink ⟨h, hne⟩
          · intro h
            by_contra hne
            exact hzero ⟨hne, h⟩
        by_cases hwindow : frame.kind = .window
        · rw [if_pos hwindow]
          constructor
          · intro h
            split at h
            · cases h
            · next bytes hgrant =>
              exact ⟨hmay, hiff, fun _ => ⟨bytes, (windowGrant_ok_iff.mp hgrant).2⟩⟩
          · intro h
            obtain ⟨bytes, hs⟩ := h.window hwindow
            rw [windowGrant_ok_iff.mpr ⟨hwindow, hs⟩]
        · rw [if_neg hwindow]
          simp only [true_iff]
          exact ⟨hmay, hiff, fun h => absurd h hwindow⟩

/-! ## What is written -/

theorem encode_eq (h : WithinLimits frame) :
    encode frame = .ok (frame.typeByte :: (Leb128.write frame.stream ++ frame.payload)) := by
  unfold encode
  rw [check_ok_iff.mpr h]
  rfl

theorem encode_ok_iff : (∃ message, encode frame = .ok message) ↔ WithinLimits frame := by
  constructor
  · rintro ⟨message, h⟩
    unfold encode at h
    split at h
    · cases h
    · next hcheck => exact check_ok_iff.mp hcheck
  · intro h
    exact ⟨_, encode_eq h⟩

/-! ## What is read -/

theorem byte_of_fromByte {byte : UInt8} {kind : FrameType}
    (h : FrameType.fromByte byte = some kind) : kind.byte = byte := by
  unfold FrameType.fromByte at h
  split_ifs at h with h0 h1 h2 h3 h4 h5 h6 h7
  all_goals
    rw [← Option.some.inj h, FrameType.byte]
    symm
    assumption

theorem parts_of_byte (byte : UInt8) :
    ((byte &&& ~~~fragmentBit) ||| if byte &&& fragmentBit != 0 then fragmentBit else 0) =
      byte := by
  have hall : ∀ i : Fin 256,
      ((UInt8.ofFin i &&& ~~~fragmentBit) |||
        if UInt8.ofFin i &&& fragmentBit != 0 then fragmentBit else 0) = UInt8.ofFin i := by
    decide +kernel
  exact hall byte.toFin

theorem decode_ok_iff :
    decode message = .ok frame ↔
      WithinLimits frame ∧ ∃ numeral, Leb128.Spells numeral frame.stream ∧
        message = frame.typeByte :: (numeral ++ frame.payload) := by
  constructor
  · intro h
    cases message with
    | nil => cases h
    | cons first rest =>
      simp only [decode] at h
      split at h
      · cases h
      · next kind hkind =>
        split at h
        · cases h
        · next stream used hread =>
          obtain ⟨numeral, payload, rfl, hs, rfl⟩ := Leb128.read_ok_iff.mp hread
          rw [drop_left] at h
          split at h
          · cases h
          · next hcheck =>
            obtain rfl := Except.ok.inj h
            refine ⟨check_ok_iff.mp hcheck, numeral, hs, ?_⟩
            rw [Frame.typeByte, byte_of_fromByte hkind, parts_of_byte]
  · rintro ⟨hlimits, numeral, hs, rfl⟩
    have hkind : FrameType.fromByte (frame.typeByte &&& ~~~fragmentBit) = some frame.kind :=
      fromByte_typeByte frame.kind frame.fragment
    have hbit : (frame.typeByte &&& fragmentBit != 0) = frame.fragment :=
      fragment_typeByte frame.kind frame.fragment
    simp only [decode, hkind, Leb128.read_of_spells hs, drop_left, hbit,
      check_ok_iff.mpr hlimits]

/-- The writer and the reader hold a frame to the same limits, what is written is read back,
and what is read is read back from what is written for it.  The reader of ids is total: it
takes the numeral the bytes start with and not a byte more, and refuses with its own error
the bytes that end inside one and those whose numeral passes 64 bits or ten bytes. -/
theorem codec_total :
    (∀ frame : Frame, frame.stream < 2 ^ 64 →
      ((∃ message, encode frame = .ok message) ↔ WithinLimits frame) ∧
      ((∃ message, decode message = .ok frame) ↔ WithinLimits frame)) ∧
    (∀ (frame : Frame) (message : Bytes), frame.stream < 2 ^ 64 →
      encode frame = .ok message → decode message = .ok frame) ∧
    (∀ (message : Bytes) (frame : Frame), decode message = .ok frame →
      ∃ written, encode frame = .ok written ∧ decode written = .ok frame) ∧
    (∀ bytes : Bytes,
      (Leb128.readWord bytes).map (fun p => (p.1.toNat, p.2)) = Leb128.read bytes) ∧
    (∀ (bytes : Bytes) (n used : Nat), Leb128.read bytes = .ok (n, used) ↔
      ∃ numeral rest, bytes = numeral ++ rest ∧ Leb128.Spells numeral n ∧
        numeral.length = used) ∧
    (∀ bytes : Bytes, Leb128.read bytes = .error .truncated ↔ Leb128.Truncated bytes) ∧
    (∀ bytes : Bytes, Leb128.read bytes = .error .overflow ↔ Leb128.Overflows bytes) ∧
    (∀ n < 2 ^ 64, ∀ rest : Bytes,
      Leb128.read (Leb128.write n ++ rest) = .ok (n, (Leb128.write n).length)) := by
  refine ⟨?limits, ?written, ?again, Leb128.readWord_eq, ?read, ?cut, ?passed, ?reached⟩
  case limits =>
    intro frame hstream
    refine ⟨encode_ok_iff, ?_⟩
    constructor
    · rintro ⟨message, h⟩
      exact (decode_ok_iff.mp h).1
    · intro h
      exact ⟨_, decode_ok_iff.mpr ⟨h, _, Leb128.spells_write hstream, rfl⟩⟩
  case written =>
    intro frame message hstream h
    exact decode_encode hstream h
  case again =>
    intro message frame h
    obtain ⟨hlimits, numeral, hs, -⟩ := decode_ok_iff.mp h
    exact ⟨_, encode_eq hlimits, decode_encode hs.fits (encode_eq hlimits)⟩
  case read =>
    intro bytes n used
    exact Leb128.read_ok_iff
  case cut =>
    intro bytes
    exact Leb128.read_truncated_iff
  case passed =>
    intro bytes
    exact Leb128.read_overflow_iff
  case reached =>
    intro n hn rest
    exact Leb128.read_write hn rest

def topFrame : Frame where
  kind := .text
  fragment := false
  stream := 2 ^ 64 - 1
  payload := []

theorem codec_total_top :
    topFrame.stream < 2 ^ 64 ∧
      encode topFrame = .ok [3, 255, 255, 255, 255, 255, 255, 255, 255, 255, 1] ∧
      decode [3, 255, 255, 255, 255, 255, 255, 255, 255, 255, 1] = .ok topFrame := by
  have hencode : encode topFrame = .ok [3, 255, 255, 255, 255, 255, 255, 255, 255, 255, 1] := by
    decide +kernel
  have hstream : topFrame.stream < 2 ^ 64 := by decide
  exact ⟨hstream, hencode, codec_total.2.1 topFrame _ hstream hencode⟩

end VibeField.Freeway
