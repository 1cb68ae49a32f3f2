import Transceiver.Modulation.Format
import Transceiver.Operation

/-!
The written form of modes, channels and operation descriptors.
-/

namespace Transceiver

namespace Mode

def all : List Mode :=
  [stop, transmit, receive, scan, carrier, assess, calibrate, stream, detect]

def name : Mode → String
  | stop => "Stop"
  | transmit => "Tx"
  | receive => "Rx"
  | scan => "RxContinuous"
  | carrier => "TxContinuousWave"
  | assess => "ClearChannelAssessment"
  | calibrate => "Init"
  | stream => "TxContinuous"
  | detect => "ChannelActivityDetection"

def format : Format Mode := .named all name

end Mode

namespace Channel

def members : Members (UInt32 × Modulation × Unit) :=
  .cons "frequency" Format.uint32 <| .cons "bb" Modulation.format .none

def format : Format Channel :=
  .record members (fun (frequency, modulation, _) => ⟨frequency, modulation⟩)
    fun c => (c.frequency, c.modulation, ())

end Channel

namespace Operation

def members : Members (Channel × Int8 × UInt8 × UInt32 × UInt32 × Bool × Unit) :=
  .cons "rf" Channel.format <| .cons "tx_power" Format.int8 <| .cons "len" Format.uint8 <|
    .cons "rx_time" Format.uint32 <| .cons "fcnt_up" Format.uint32 <|
      .cons "adr_ack_req" Format.bool .none

def format : Format Operation :=
  .record members
    (fun (channel, power, length, receiveAt, uplinkCounter, rateAckRequested, _) =>
      { channel, power, length, receiveAt, uplinkCounter, rateAckRequested })
    fun op => (op.channel, op.power, op.length, op.receiveAt, op.uplinkCounter,
      op.rateAckRequested, ())

end Operation

end Transceiver
