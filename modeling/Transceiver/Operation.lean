import Transceiver.Modulation
import Transceiver.Ticks

/-!
What the MAC layer asks of the radio: a mode of operation, and the descriptor of the operation
with the channel to work on.
-/

namespace Transceiver

inductive Mode
  /-- Put the radio to rest and drop what it was doing. -/
  | stop
  /-- Send the frame of the exchange. -/
  | transmit
  /-- Receive one frame in the window of the operation. -/
  | receive
  /-- Receive until stopped. -/
  | scan
  /-- Send an unmodulated carrier until stopped. -/
  | carrier
  /-- Measure whether the channel is clear. -/
  | assess
  /-- Reset the chip and calibrate it for the channel of the operation. -/
  | calibrate
  /-- Send modulated symbols until stopped. -/
  | stream
  /-- Look for a preamble and receive the frame behind it. -/
  | detect
  deriving DecidableEq, Repr

/-- A carrier in hertz and the modulation on it. -/
structure Channel where
  frequency : UInt32
  modulation : Modulation
  deriving DecidableEq, Repr

/-- Descriptor of the operation in flight. The MAC layer writes it and the controller reads it. -/
structure Operation where
  channel : Channel
  /-- Output power in dBm. -/
  power : Int8 := 14
  /-- Length of the frame to send. -/
  length : UInt8 := 0
  /-- Start of the receive window. -/
  receiveAt : Ticks := 0
  /-- Counter of the uplink that is being sent. -/
  uplinkCounter : UInt32 := 0
  /-- Whether the uplink asks for an acknowledgement of the data rate. -/
  rateAckRequested : Bool := false
  deriving DecidableEq, Repr

/-- Fields of a descriptor to write over, where given. -/
structure Operation.Patch where
  frequency : Option UInt32 := none
  modulation : Option Modulation := none
  power : Option Int8 := none
  length : Option UInt8 := none
  receiveAt : Option Ticks := none
  uplinkCounter : Option UInt32 := none
  rateAckRequested : Option Bool := none
  deriving DecidableEq, Repr

def Operation.amend (op : Operation) (p : Patch) : Operation where
  channel :=
    { frequency := p.frequency.getD op.channel.frequency
      modulation := p.modulation.getD op.channel.modulation }
  power := p.power.getD op.power
  length := p.length.getD op.length
  receiveAt := p.receiveAt.getD op.receiveAt
  uplinkCounter := p.uplinkCounter.getD op.uplinkCounter
  rateAckRequested := p.rateAckRequested.getD op.rateAckRequested

end Transceiver
