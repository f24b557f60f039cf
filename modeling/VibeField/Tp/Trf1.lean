/-!
# The header of an engine's frame

The fields the cell reads of a TRF1 packet, little-endian at fixed offsets, the
scrollback a transfer announces, and the transfer's checksum.  The text and the glyphs
are the renderer's.
-/

namespace VibeField.Tp

abbrev Packet := List UInt8

def leAt (bytes : Packet) (offset count : Nat) : Nat :=
  ((bytes.drop offset).take count).foldr (fun byte high => byte.toNat + 256 * high) 0

structure Trf1Header where
  fullSnapshot : Bool
  glyphCatalogReset : Bool
  sessionHandle : Nat
  viewHandle : Nat
  sessionEpoch : Nat
  layoutEpoch : Nat
  sequence : Nat
  revision : Nat
  cols : Nat
  rows : Nat
  deriving DecidableEq, Repr

namespace Trf1Header

def magic : Nat := 0x31465254
def headerBytes : Nat := 64

def parse (frame : Packet) : Option Trf1Header :=
  if frame.length < headerBytes then none
  else if leAt frame 0 4 ≠ magic ∨ leAt frame 4 2 ≠ 1 then none
  else some
    { fullSnapshot := (leAt frame 6 2).testBit 0
      glyphCatalogReset := (leAt frame 6 2).testBit 2
      sessionHandle := leAt frame 8 8
      viewHandle := leAt frame 16 8
      sessionEpoch := leAt frame 24 8
      layoutEpoch := leAt frame 32 8
      sequence := leAt frame 40 8
      revision := leAt frame 48 8
      cols := leAt frame 56 2
      rows := leAt frame 58 2 }

def whole (h : Trf1Header) : Bool := h.fullSnapshot && h.glyphCatalogReset

/-- The sections still to look at, from `index` on. -/
def scrollbackFrom (frame : Packet) (index : Nat) : Nat → Option Nat
  | 0 => none
  | left + 1 =>
    let start := headerBytes + index * 16
    if frame.length < start + 16 then none
    else if leAt frame start 2 ≠ 8 then scrollbackFrom frame (index + 1) left
    else
      let offset := leAt frame (start + 4) 4
      let length := leAt frame (start + 8) 4
      if length < 24 ∨ frame.length < offset + length then none
      else
        let total := leAt frame offset 8
        let visible := leAt frame (offset + 16) 8
        if total < visible then none else some (total - visible)

def scrollbackRows (frame : Packet) : Option Nat :=
  if (parse frame).isNone then none else scrollbackFrom frame 0 (leAt frame 60 2)

end Trf1Header

/-! ## The checksum -/

namespace Crc32c

def poly : UInt32 := 0x82F63B78

def shiftOut : Nat → UInt32 → UInt32
  | 0, crc => crc
  | n + 1, crc => shiftOut n (if crc &&& 1 = 1 then (crc >>> 1) ^^^ poly else crc >>> 1)

def table (index : UInt32) : UInt32 := shiftOut 8 index

def update (crc : UInt32) (bytes : Packet) : UInt32 :=
  bytes.foldl (fun crc b => table ((crc ^^^ b.toUInt32) &&& 0xFF) ^^^ (crc >>> 8)) crc

end Crc32c

def crc32c (bytes : Packet) : UInt32 := Crc32c.update 0xFFFFFFFF bytes ^^^ 0xFFFFFFFF

/-- The check value of the polynomial. -/
example : crc32c [0x31, 0x32, 0x33, 0x34, 0x35, 0x36, 0x37, 0x38, 0x39] = 0xE3069283 := by
  decide +kernel

end VibeField.Tp
