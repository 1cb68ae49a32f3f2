import Transceiver.System
import Transceiver.Window

/-!
The controller. It brings the radio to rest and starts it for what the MAC layer asks, captures
interrupts and interprets them in a job of the scheduler, and recovers from an operation that does
not end in time. The routines are pure: each maps a system to the system after it.
-/

namespace Transceiver

/-- An interrupt that came before the one ahead of it was interpreted. -/
structure Overrun where
  lines : UInt8
  /-- Lines of the interrupt that still waits. -/
  waiting : UInt8
  deriving DecidableEq, Repr

def Overrun.message (o : Overrun) : String :=
  "radio irq 0x" ++ Hex.encode [o.lines] ++ " while irq 0x" ++ Hex.encode [o.waiting] ++
    " is unprocessed"

namespace System

variable {σ ε : Type}

/-! ### Rest and watchdog -/

/-- Puts the chip to sleep. That it fails to is of no consequence, since all around it is switched
off as well. -/
def sleep (s : System σ) (d : Driver σ ε) : System σ :=
  { s.log (.driver .sleep) with chip := (d.sleep s.chip).1 }

/-- Brings the radio to rest: chip asleep, antenna and oscillator off, lines masked, nothing
deferred and no interrupt pending. -/
def quiesce (s : System σ) (d : Driver σ ε) : System σ :=
  s.shielded fun s =>
    let s := (s.sleep d).order (.antenna .off)
    let s := (s.order (.oscillator false)).order (.unmask 0)
    (s.defer none).notePending none

/-- Defers the watchdog to `deadline`, in place of what was deferred before. -/
def arm (s : System σ) (deadline : Ticks) : System σ :=
  s.shielded (·.defer (some (.watchdog deadline)))

/-- Arms the watchdog for the end of a window on the channel of the operation. -/
def watch (s : System σ) (d : Driver σ ε) (w : Window) : System σ :=
  let modulation := s.exchange.operation.channel.modulation
  let micros := d.airtime s.chip modulation w.length
  (s.log (.driver (.airtime modulation w.length))).arm (w.deadline s.clock.rate micros)

/-! ### Operations -/

def restart (s : System σ) (d : Driver σ ε) : System σ × Except ε Unit :=
  let reply := d.reset true s.exchange s.chip
  ((s.log (.driver (.reset true s.exchange))).settle reply.chip reply.acts, reply.outcome)

/-- Starts the chip and goes on with `next`. If the chip refuses, the radio is brought to rest. -/
def launch (s : System σ) (d : Driver σ ε) (activity : Start) (next : System σ → System σ) :
    System σ × Except ε Unit :=
  let reply := d.start activity s.exchange s.chip
  let s := (s.log (.driver (.start activity s.exchange))).settle reply.chip reply.acts
  match reply.outcome with
  | .ok () => (next s, .ok ())
  | .error e => (s.quiesce d, .error e)

/-- Carries out a request of the MAC layer, dropping whatever the radio was doing. Operations that
end with an interrupt are given a watchdog; a detection gets it before it starts. -/
def perform (s : System σ) (d : Driver σ ε) (mode : Mode) : System σ × Except ε Unit :=
  match mode with
  | .stop => (s.quiesce d, .ok ())
  | .calibrate => s.restart d
  | .transmit =>
    (s.quiesce d).launch d (.transmit false) fun s =>
      (s.noteSending true).watch d (.ofSend s.clock.now s.exchange.operation)
  | .receive =>
    (s.quiesce d).launch d (.receive false) fun s =>
      (s.noteSending false).watch d (.ofReceive s.exchange.operation)
  | .scan => ((s.quiesce d).noteSending false).launch d (.receive true) id
  | .carrier => (s.quiesce d).launch d .carrier id
  | .assess => (s.quiesce d).launch d .assess id
  | .stream => (s.quiesce d).launch d (.transmit true) id
  | .detect =>
    let s := (s.quiesce d).noteSending false
    (s.watch d (.ofDetect s.clock.now)).launch d .detect id

/-! ### Interrupts and jobs -/

/-- Notes an interrupt and defers its interpretation, in place of the watchdog. No second
interrupt may come before the first is interpreted. -/
def capture (s : System σ) (lines : UInt8) (time : Ticks) : System σ × Except Overrun Unit :=
  match s.control.pending with
  | some waiting => (s, .error { lines, waiting })
  | none =>
    let s := { s with control := { s.control with capturedAt := time, pending := some lines } }
    (s.defer (some .interrupt), .ok ())

/-- Has the driver interpret the captured interrupt, and is then open for the next one. A driver
that waits for more interrupts gives the watchdog a new deadline unless it may wait for ever. -/
def interpret (s : System σ) (d : Driver σ ε) : System σ :=
  let time := s.control.capturedAt
  let lines := s.control.pending.getD 0
  let found := d.interpret time lines s.exchange s.chip
  let s := (s.log (.driver (.interpret time lines))).settle found.chip found.acts
  let s :=
    match found.status with
    | .complete => (s.quiesce d).complete
    | .pending (some deadline) => s.arm deadline
    | .pending none => s
  s.shielded (·.notePending none)

/-- Ends an operation that is overdue. A chip that is stuck while it sends is in an unknown state
and is reset. The job was entered with interrupts disabled and enables them again. -/
def recover (s : System σ) (d : Driver σ ε) : System σ :=
  let s := s.quiesce d
  let s := if s.control.sending then (s.restart d).1 else s
  ((s.order .enable).editFrame (.setLength 0)).complete

/-- Runs a job that the scheduler hands back. One that lost its place in the cell has no effect
but to enable the interrupts that a watchdog is entered without. -/
def dispatch (s : System σ) (d : Driver σ ε) (job : RadioJob) : System σ :=
  let current := s.deferral.holds job
  let s := s.shielded (·.take job)
  match current, job with
  | true, .interrupt => s.interpret d
  | true, .watchdog => s.recover d
  | false, .interrupt => s
  | false, .watchdog => s.order .enable

end System

end Transceiver
