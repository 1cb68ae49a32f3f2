import Transceiver.Operation

/-!
Windows of time in which an operation has to end. A window opens at some moment, and its deadline
leaves room for a fixed guard and for a packet on the air with a margin for clock drift.
-/

namespace Transceiver

structure Window where
  opens : Ticks
  guardMillis : UInt32
  /-- Length of the packet for which room is left. -/
  length : UInt8
  deriving DecidableEq, Repr

namespace Window

def sendGuardMillis : UInt32 := 20

def receiveGuardMillis : UInt32 := 5

def detectGuardMillis : UInt32 := 10

/-- The longest payload; it bounds what may be received. -/
def longestPayload : UInt8 := 255

/-- The frame of the operation is sent now. -/
def ofSend (now : Ticks) (op : Operation) : Window :=
  ⟨now, sendGuardMillis, op.length⟩

/-- The packet begins when the operation says. -/
def ofReceive (op : Operation) : Window :=
  ⟨op.receiveAt, receiveGuardMillis, longestPayload⟩

/-- A preamble that is found turns into the receipt of its packet. -/
def ofDetect (now : Ticks) : Window :=
  ⟨now, detectGuardMillis, longestPayload⟩

/-- The deadline of the window, for a clock of this rate and a packet of this time on the air. -/
def deadline (w : Window) (rate airtimeMicros : UInt32) : Ticks :=
  w.opens + Ticks.ofMillis rate w.guardMillis +
    Ticks.withMargin (Ticks.ofMicros rate airtimeMicros)

end Window

end Transceiver
