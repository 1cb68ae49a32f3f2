import Transceiver.Agenda
import Transceiver.Driver
import Transceiver.Hex

/-!
The calls that leave the controller, in the order in which they are made, and their text.
-/

namespace Transceiver

inductive DriverCall
  | sleep
  | reset (calibrate : Bool) (exchange : Exchange)
  | start (activity : Start) (exchange : Exchange)
  | interpret (time : Ticks) (lines : UInt8)
  | airtime (modulation : Modulation) (length : UInt8)
  deriving DecidableEq, Repr

inductive Call
  | board (c : BoardCall)
  /-- A change of the frame, by the controller or by the driver. -/
  | edit (e : FrameEdit)
  | agenda (c : AgendaCall)
  | driver (c : DriverCall)
  deriving DecidableEq, Repr

def Act.call : Act → Call
  | edit e => .edit e
  | order c => .board c

/-! ### Text of a call -/

/-- A name with its arguments in parentheses; no parentheses without arguments. -/
def callText (name : String) : List String → String
  | [] => name
  | args => name ++ "(" ++ ",".intercalate args ++ ")"

def RadioJob.text : RadioJob → String
  | interrupt => "ProcessIrq"
  | watchdog => "Timeout"

def completionText (id : CompletionId) : String :=
  callText "Mac" [toString id.toNat]

def boolText (b : Bool) : String :=
  if b then "true" else "false"

def Antenna.text : Antenna → String
  | off => "Off"
  | receive => "Rx"
  | transmit => "Tx"

def BoardCall.text : BoardCall → String
  | disable => "disable_irqs"
  | enable => "enable_irqs"
  | unmask lines => callText "irq_mask" [toString lines.toNat]
  | antenna position => callText "antenna" [position.text]
  | oscillator on => callText "tcxo" [boolText on]

def FrameEdit.text : FrameEdit → String
  | write start data => callText "frame_mut" [toString start, Hex.encode data]
  | setLength n => callText "set_data_len" [toString n.toNat]

def AgendaCall.text : AgendaCall → String
  | post job => callText "post" ["Radio", job.text]
  | arm deadline job => callText "arm" ["Radio", toString deadline.toNat, job.text]
  | clear => callText "clear" ["Radio"]
  | complete id => callText "post" ["Mac", completionText id]

/-- A start names what matters to it: the channel, and the length of the frame or the time of the
window. -/
def startText (activity : Start) (x : Exchange) : String :=
  let frequency := toString x.operation.channel.frequency.toNat
  match activity with
  | .transmit continuous =>
    callText "start_tx" [boolText continuous, frequency, toString x.frame.size]
  | .receive continuous =>
    callText "start_rx" [boolText continuous, frequency, toString x.operation.receiveAt.toNat]
  | .carrier => "start_cw"
  | .assess => "start_cca"
  | .detect => "start_cad"

def DriverCall.text : DriverCall → String
  | sleep => "sleep"
  | reset calibrate x =>
    callText "init" [boolText calibrate, toString x.operation.channel.frequency.toNat]
  | start activity x => startText activity x
  | interpret time lines => callText "process_irq" [toString time.toNat, toString lines.toNat]
  | airtime modulation length =>
    callText "airtime" [toString modulation.spreading.toNat, toString length.toNat]

def Call.text : Call → String
  | board c => c.text
  | edit e => e.text
  | agenda c => c.text
  | driver c => c.text

end Transceiver
