import Transceiver.Agenda

/-!
The one action that the controller has put off. The interrupt job and the watchdog share a single
cell, and the last one written counts; the scheduler is told of each write. A job that the
scheduler took out before a later write is recognised by its kind when it asks for the cell.
-/

namespace Transceiver

/-- An action that waits for the scheduler. -/
inductive Deferred
  | interrupt
  | watchdog (deadline : Ticks)
  deriving DecidableEq, Repr

def Deferred.kind : Deferred → RadioJob
  | interrupt => .interrupt
  | watchdog _ => .watchdog

/-- The scheduler's entry for an action: the watchdog is guarded, the interrupt job is not. -/
def Deferred.entry : Deferred → Entry
  | interrupt => .soon .interrupt
  | watchdog deadline => .guardedAt deadline .watchdog

/-- The cell and the scheduler that is kept in step with it. -/
structure Deferral where
  held : Option Deferred := none
  agenda : Agenda := {}
  deriving DecidableEq, Repr

namespace Deferral

/-- What the scheduler is asked when the cell gets a content. -/
def request : Option Deferred → AgendaCall
  | none => .clear
  | some .interrupt => .post .interrupt
  | some (.watchdog deadline) => .arm deadline .watchdog

/-- Replaces the content of the cell and the entry of the scheduler. -/
def write (d : Deferral) (content : Option Deferred) : Deferral where
  held := content
  agenda := (request content).apply d.agenda

/-- Whether the cell holds an action of this kind. -/
def holds (d : Deferral) (job : RadioJob) : Bool :=
  d.held.map Deferred.kind = some job

/-- Empties the cell if it holds an action of this kind. The scheduler is not told. -/
def take (d : Deferral) (job : RadioJob) : Deferral :=
  if d.holds job then { d with held := none } else d

def isEmpty (d : Deferral) : Bool := d.held.isNone

/-- How many actions the cell holds. -/
def size (d : Deferral) : Nat := if d.isEmpty then 0 else 1

def holdsInterrupt (d : Deferral) : Bool := d.holds .interrupt

/-- Deadline of the watchdog that the cell holds. -/
def deadline? (d : Deferral) : Option Ticks :=
  match d.held with
  | some (.watchdog deadline) => some deadline
  | _ => none

inductive Use
  | write (content : Option Deferred)
  | take (job : RadioJob)
  deriving DecidableEq, Repr

def use (d : Deferral) : Use → Deferral
  | .write content => d.write content
  | .take job => d.take job

/-- What the scheduler is asked by a use. -/
def Use.requests : Use → List AgendaCall
  | write content => [request content]
  | take _ => []

@[simp] theorem write_held (d : Deferral) (content : Option Deferred) :
    (d.write content).held = content := rfl

@[simp] theorem write_radio (d : Deferral) (content : Option Deferred) :
    (d.write content).agenda.radio = content.map Deferred.entry := by
  rcases content with _ | _ | deadline <;> rfl

@[simp] theorem write_mac (d : Deferral) (content : Option Deferred) :
    (d.write content).agenda.mac = d.agenda.mac := by
  rcases content with _ | _ | deadline <;> rfl

@[simp] theorem write_completions (d : Deferral) (content : Option Deferred) :
    (d.write content).agenda.completions = d.agenda.completions := by
  rcases content with _ | _ | deadline <;> rfl

@[simp] theorem write_clock (d : Deferral) (content : Option Deferred) :
    (d.write content).agenda.clock = d.agenda.clock := by
  rcases content with _ | _ | deadline <;> rfl

/-- The last write counts. -/
@[simp] theorem write_write (d : Deferral) (first last : Option Deferred) :
    (d.write first).write last = d.write last := by
  rcases first with _ | _ | deadline <;> rcases last with _ | _ | deadline' <;> rfl

@[simp] theorem holds_none (d : Deferral) (job : RadioJob) (h : d.held = none) :
    d.holds job = false := by
  simp [holds, h]

@[simp] theorem take_agenda (d : Deferral) (job : RadioJob) : (d.take job).agenda = d.agenda := by
  unfold take
  split <;> rfl

theorem write_eq (d : Deferral) (content : Option Deferred) :
    d.write content =
      { held := content, agenda := { d.agenda with radio := content.map Deferred.entry } } := by
  rcases content with _ | _ | deadline <;> rfl

theorem holds_iff {d : Deferral} {job : RadioJob} :
    d.holds job = true ↔ ∃ a, d.held = some a ∧ a.kind = job := by
  simp [holds]

theorem holdsInterrupt_iff {d : Deferral} :
    d.holdsInterrupt = true ↔ d.held = some .interrupt := by
  rcases d with ⟨_ | _ | deadline, agenda⟩ <;> simp [holdsInterrupt, holds, Deferred.kind]

theorem take_of_holds {d : Deferral} {job : RadioJob} (h : d.holds job = true) :
    d.take job = { d with held := none } := if_pos h

theorem take_of_not_holds {d : Deferral} {job : RadioJob} (h : d.holds job = false) :
    d.take job = d := if_neg (Bool.eq_false_iff.mp h)

theorem size_of_none {d : Deferral} (h : d.held = none) : d.size = 0 := by
  simp [size, isEmpty, h]

theorem size_of_ne_none {d : Deferral} (h : d.held ≠ none) : d.size = 1 := by
  simp [size, isEmpty, h]

theorem size_congr {d e : Deferral} (h : e.held = d.held) : e.size = d.size := by
  simp [size, isEmpty, h]

theorem size_write (d : Deferral) (content : Option Deferred) :
    (d.write content).size = if content.isSome then 1 else 0 := by
  cases content <;> rfl

theorem size_le_one (d : Deferral) : d.size ≤ 1 := by
  rw [size]
  split <;> omega

end Deferral

end Transceiver
