import Transceiver.Exchange

/-!
The scheduler as the controller sees it: a clock and one entry for each of two handles. A new
entry takes the place of the old one. A guarded job is entered with interrupts disabled, and it is
the job that enables them again.
-/

namespace Transceiver

/-- Jobs that the controller leaves with the scheduler for itself. -/
inductive RadioJob
  /-- Interpret the captured interrupt. -/
  | interrupt
  /-- Recover from an operation that did not end in time. -/
  | watchdog
  deriving DecidableEq, Repr

/-- A job of the scheduler and when it may run. -/
inductive Entry
  | soon (job : RadioJob)
  | guardedAt (deadline : Ticks) (job : RadioJob)
  deriving DecidableEq, Repr

namespace Entry

def job : Entry → RadioJob
  | soon job => job
  | guardedAt _ job => job

/-- Whether the job is entered with interrupts disabled. -/
def guarded : Entry → Bool
  | soon _ => false
  | guardedAt _ _ => true

def deadline? : Entry → Option Ticks
  | soon _ => none
  | guardedAt deadline _ => some deadline

def due (now : Ticks) : Entry → Bool
  | soon _ => true
  | guardedAt deadline _ => Ticks.reached deadline now

end Entry

structure Agenda where
  clock : Clock := {}
  /-- Entry of the handle that belongs to the controller. -/
  radio : Option Entry := none
  /-- Entry of the handle of the MAC layer. -/
  mac : Option CompletionId := none
  /-- How often a completion was posted. -/
  completions : Nat := 0
  deriving DecidableEq, Repr

inductive AgendaCall
  | post (job : RadioJob)
  | arm (deadline : Ticks) (job : RadioJob)
  | clear
  | complete (id : CompletionId)
  deriving DecidableEq, Repr

def AgendaCall.apply (a : Agenda) : AgendaCall → Agenda
  | post job => { a with radio := some (.soon job) }
  | arm deadline job => { a with radio := some (.guardedAt deadline job) }
  | clear => { a with radio := none }
  | complete id => { a with mac := some id, completions := a.completions + 1 }

/-- The radio entry, if its time has come. -/
def Agenda.due? (a : Agenda) : Option Entry :=
  a.radio.filter (·.due a.clock.now)

end Transceiver
