import Transceiver.Modulation

/-!
Time on air of a packet. The programmed preamble is followed by 4.25 symbols of its own, for SF5
and SF6 by 6.25, so symbols are counted in quarters. The payload comes in blocks of as many
symbols as a codeword has bits, the first of which is always sent in eight. All counts are exact;
only the result is narrowed to a word.
-/

namespace Transceiver

/-- A packet as far as its duration goes. Every packet carries a payload checksum. -/
structure Packet where
  /-- Programmed preamble in symbols, the regular one if not given. -/
  preamble : Option UInt8 := none
  explicitHeader : Bool
  length : UInt8
  deriving DecidableEq, Repr

/-- Preamble in symbols where no other is programmed. -/
def Packet.regularPreamble : UInt8 := 8

/-- A packet with a header, as a driver with this preamble sends and receives it. -/
def Packet.headed (preamble length : UInt8) : Packet where
  preamble := some preamble
  explicitHeader := true
  length

def divUp (a b : Nat) : Nat := (a + b - 1) / b

namespace Modulation

/-- SF5 and SF6 have a framing of their own, with a longer preamble and more room in the first
block. -/
def fast (m : Modulation) : Bool := m.spreading.toNat ≤ 6

def preambleSymbols (m : Modulation) (p : Packet) : Nat :=
  let symbols := (p.preamble.getD Packet.regularPreamble).toNat
  if m.fast then max symbols 12 else symbols

/-- Bits that the first block leaves for the others. Negative when it has room for all. -/
def payloadBits (m : Modulation) (p : Packet) : Int :=
  8 * p.length.toNat + 16 - 4 * m.spreading.toNat + (if p.explicitHeader then 20 else 0) +
    (if m.fast then 0 else 8)

/-- Bits of one block; the low data rate flag spares two of each symbol from SF7 on. -/
def blockBits (m : Modulation) : Nat :=
  4 * (if !m.fast && m.lowRate then m.spreading.toNat - 2 else m.spreading.toNat)

/-- Blocks after the first. -/
def payloadBlocks (m : Modulation) (p : Packet) : Nat :=
  divUp (m.payloadBits p).toNat m.blockBits

/-- Whole symbols of a packet: its blocks, the preamble, four symbols behind it and the eight of
the first block. -/
def wholeSymbols (m : Modulation) (p : Packet) : Nat :=
  m.payloadBlocks p * m.coding.codewordBits + m.preambleSymbols p + 12 + (if m.fast then 2 else 0)

/-- Chips of a packet; a quarter of a symbol comes on top of the whole ones. -/
def chips (m : Modulation) (p : Packet) : Nat :=
  (4 * m.wholeSymbols p + 1) <<< (m.spreading.toNat - 2)

/-- Time on air in microseconds, rounded up. -/
def airtime (m : Modulation) (p : Packet) : UInt32 :=
  (divUp (m.chips p * 1000000) m.bandwidth.hertz).toUInt32

end Modulation

end Transceiver
