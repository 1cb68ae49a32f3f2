/-!
The board that carries the radio chip: interrupt control of the processor, the lines by which the
chip interrupts it, the antenna switch and the supply of the chip's oscillator. A driver can give
orders to the board and has no way to read it.
-/

namespace Transceiver

inductive Antenna
  | off | receive | transmit
  deriving DecidableEq, Repr

structure Board where
  /-- How often interrupts have been disabled without being enabled again. -/
  depth : Int
  /-- Lines of the chip that may interrupt. -/
  mask : UInt8
  antenna : Antenna
  oscillator : Bool
  deriving DecidableEq, Repr

inductive BoardCall
  | disable
  | enable
  /-- Lets exactly these lines interrupt. -/
  | unmask (lines : UInt8)
  | antenna (position : Antenna)
  | oscillator (on : Bool)
  deriving DecidableEq, Repr

def BoardCall.apply (b : Board) : BoardCall → Board
  | disable => { b with depth := b.depth + 1 }
  | enable => { b with depth := b.depth - 1 }
  | unmask lines => { b with mask := lines }
  | antenna position => { b with antenna := position }
  | oscillator on => { b with oscillator := on }

end Transceiver
