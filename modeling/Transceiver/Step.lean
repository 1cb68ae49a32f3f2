import Transceiver.Service

/-!
Runs of a system. A step is something that the MAC layer, the board, the scheduler or the passing
of time does to the controller, or a change of the chip behind the controller's back. Each step
has an answer.
-/

namespace Transceiver

inductive Step (σ : Type)
  | perform (mode : Mode)
  /-- An interrupt, captured now or at a stated time. -/
  | capture (lines : UInt8) (time : Option Ticks)
  /-- A job handed to the controller, whether or not the scheduler holds it, and whether or not it
  is entered with interrupts disabled. -/
  | dispatch (job : RadioJob) (guarded : Bool)
  /-- The scheduler runs all that is due and then hands over the completion. -/
  | drain
  /-- The scheduler takes the entry of the controller out if it is due, and forgets it. -/
  | dequeue
  | advance (ticks : Ticks)
  | setClock (now : Ticks)
  | arm (deadline : Ticks)
  | order (c : BoardCall)
  | update (u : Exchange.Update)
  | adjust (f : σ → σ)

inductive Answer (ε : Type)
  | none
  | done
  | refused (e : ε)
  | overrun (o : Overrun)
  | accepted (b : Bool)
  | drained (jobs : List RadioJob) (completion : Option CompletionId)
  | dequeued (job : Option RadioJob)
  deriving DecidableEq, Repr

namespace System

variable {σ ε : Type}

def setClock (s : System σ) (now : Ticks) : System σ :=
  { s with deferral := { s.deferral with agenda :=
    { s.deferral.agenda with clock := { s.clock with now } } } }

def handOver (s : System σ) : System σ :=
  { s with deferral := { s.deferral with agenda := { s.deferral.agenda with mac := none } } }

def step (s : System σ) (d : Driver σ ε) : Step σ → System σ × Answer ε
  | .perform mode =>
    match s.perform d mode with
    | (s, .ok ()) => (s, .done)
    | (s, .error e) => (s, .refused e)
  | .capture lines time =>
    match s.capture lines (time.getD s.clock.now) with
    | (s, .ok ()) => (s, .done)
    | (s, .error o) => (s, .overrun o)
  | .dispatch job guarded =>
    ((if guarded then s.order .disable else s).dispatch d job, .none)
  | .drain =>
    let (jobs, s) := s.drain d
    (s.handOver, .drained jobs s.deferral.agenda.mac)
  | .dequeue =>
    match s.dequeue? with
    | some (entry, s) => (s, .dequeued entry.job)
    | none => (s, .dequeued none)
  | .advance ticks => (s.setClock (s.clock.now + ticks), .none)
  | .setClock now => (s.setClock now, .none)
  | .arm deadline => (s.arm deadline, .none)
  | .order c => (s.order c, .none)
  | .update u =>
    ({ s with exchange := s.exchange.update u },
      match u with
      | .load _ => .accepted (s.exchange.accepts u)
      | _ => .none)
  | .adjust f => ({ s with chip := f s.chip }, .none)

def run (s : System σ) (d : Driver σ ε) (steps : List (Step σ)) : System σ :=
  steps.foldl (fun s step => (s.step d step).1) s

end System

end Transceiver
