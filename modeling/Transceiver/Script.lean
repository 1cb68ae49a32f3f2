import Transceiver.Step

/-!
A chip that follows a script: how often each routine is still to fail, and how it will interpret
the interrupts to come. Its routines give the orders that a chip needs, so that the controller can
be tried without one.
-/

namespace Transceiver

/-- A failure to come: how many more times, and with what message. -/
structure Failure where
  remaining : Nat := 0
  message : String := ""
  deriving DecidableEq, Repr

/-- Uses up one failure, if there is one. -/
def Failure.strike (f : Failure) : Failure × Except String Unit :=
  if f.remaining = 0 then (f, .ok ())
  else ({ f with remaining := f.remaining - 1 }, .error f.message)

structure Response where
  status : Status
  received : Option (List UInt8) := none
  /-- Length to which the frame is cut. -/
  length : Option UInt8 := none
  /-- Lines that are to interrupt from now on. -/
  lines : Option UInt8 := none
  deriving DecidableEq, Repr

structure Script where
  sleep : Failure := {}
  reset : Failure := {}
  start : Failure := {}
  responses : List Response := []
  /-- Airtime that a chip with a stated airtime reports. -/
  airtime : UInt32 := 0
  deriving DecidableEq, Repr

namespace Script

/-- Orders of a start that succeeds: oscillator, antenna, and the lines on which the activity
ends. -/
def startOrders : Start → List BoardCall
  | .transmit true => [.oscillator true, .antenna .transmit]
  | .transmit false => [.oscillator true, .antenna .transmit, .unmask 1]
  | .receive _ => [.oscillator true, .antenna .receive, .unmask 7]
  | .carrier => [.oscillator true, .antenna .transmit]
  | .assess => [.oscillator true, .antenna .receive]
  | .detect => [.oscillator true, .antenna .receive, .unmask 3]

def tryStart (activity : Start) (s : Script) : Reply Script String :=
  let (start, outcome) := s.start.strike
  { chip := { s with start }
    orders := if outcome.isOk then startOrders activity else []
    outcome }

def tryReset (s : Script) : Reply Script String :=
  let (reset, outcome) := s.reset.strike
  { chip := { s with reset }, outcome }

def trySleep (s : Script) : Script × Except String Unit :=
  let (sleep, outcome) := s.sleep.strike
  ({ s with sleep }, outcome)

/-- Follows the oldest response. Without one the operation is over. -/
def respond (s : Script) : Interpretation Script :=
  match s.responses with
  | [] => { chip := s, status := .complete }
  | r :: responses =>
    { chip := { s with responses }
      acts := (r.received.map (.edit <| .write 0 ·)).toList ++
        (r.length.map (.edit <| .setLength ·)).toList ++ (r.lines.map (.order <| .unmask ·)).toList
      status := r.status }

end Script

inductive Device
  /-- Airtime follows from the modulation and the preamble that the chip is programmed for. -/
  | programmed (preamble : UInt8)
  /-- Airtime is what the script states. -/
  | stated
  deriving DecidableEq, Repr

namespace Device

def driver : Device → Driver Script String
  | programmed preamble =>
    { sleep := Script.trySleep
      reset := fun _ _ s => s.tryReset
      start := fun activity _ s => s.tryStart activity
      interpret := fun _ _ _ s => s.respond
      preamble }
  | stated =>
    { sleep := Script.trySleep
      reset := fun _ _ s => s.tryReset
      start := fun activity _ s => s.tryStart activity
      interpret := fun _ _ _ s => s.respond
      airtime := fun s _ _ => s.airtime }

/-- Whether a call shows in the log of the device. The frame is not the device's, and only a chip
that states its airtime is asked for it. -/
def logs : Device → Call → Bool
  | _, .edit _ => false
  | programmed _, .driver (.airtime _ _) => false
  | _, _ => true

end Device

/-- The board on which a script is tried, with all lines unmasked and the oscillator running. -/
def Board.powered : Board where
  depth := 0
  mask := 255
  antenna := .receive
  oscillator := true

end Transceiver
