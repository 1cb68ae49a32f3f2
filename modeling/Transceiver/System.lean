import Transceiver.Deferral
import Transceiver.Trace

/-!
The controller together with all that it drives: the chip, the board, the deferred action with the
scheduler, and the exchange. Each primitive effect changes the part that it addresses and leaves
its call at the end of the trace.
-/

namespace Transceiver

/-- What the controller remembers beside the deferred action. -/
structure Control where
  capturedAt : Ticks := 0
  /-- Lines of a captured interrupt that is not interpreted yet. -/
  pending : Option UInt8 := none
  /-- Whether the last operation that noted its direction sends. -/
  sending : Bool := false
  deriving DecidableEq, Repr

structure System (σ : Type) where
  chip : σ
  board : Board
  control : Control := {}
  deferral : Deferral := {}
  exchange : Exchange
  trace : List Call := []

namespace System

variable {σ ε : Type}

def clock (s : System σ) : Clock := s.deferral.agenda.clock

/-- No interrupt waits for its interpretation and no action is deferred. -/
def quiescent (s : System σ) : Bool :=
  s.control.pending.isNone && s.deferral.isEmpty

/-! ### Effects -/

def log (s : System σ) (c : Call) : System σ :=
  { s with trace := s.trace ++ [c] }

def order (s : System σ) (c : BoardCall) : System σ :=
  { s with board := c.apply s.board, trace := s.trace ++ [.board c] }

def editFrame (s : System σ) (e : FrameEdit) : System σ :=
  { s with exchange := s.exchange.edit e, trace := s.trace ++ [.edit e] }

def act (s : System σ) : Act → System σ
  | .edit e => s.editFrame e
  | .order c => s.order c

/-- Takes over the state of the chip and carries out what a driver routine does around it. -/
def settle (s : System σ) (chip : σ) (acts : List Act) : System σ :=
  acts.foldl act { s with chip }

def defer (s : System σ) (content : Option Deferred) : System σ :=
  { s with
    deferral := s.deferral.write content
    trace := s.trace ++ [.agenda (Deferral.request content)] }

/-- Empties the cell of the deferred action if it holds one of this kind. -/
def take (s : System σ) (job : RadioJob) : System σ :=
  { s with deferral := s.deferral.take job }

/-- Posts the completion job that the exchange names. -/
def complete (s : System σ) : System σ :=
  let call := AgendaCall.complete s.exchange.completion
  { s with
    deferral := { s.deferral with agenda := call.apply s.deferral.agenda }
    trace := s.trace ++ [.agenda call] }

def notePending (s : System σ) (lines : Option UInt8) : System σ :=
  { s with control := { s.control with pending := lines } }

def noteSending (s : System σ) (sending : Bool) : System σ :=
  { s with control := { s.control with sending } }

/-- Runs `body` with interrupts disabled once more than before. -/
def shielded (s : System σ) (body : System σ → System σ) : System σ :=
  (body (s.order .disable)).order .enable

/-! ### The scheduler's entry

Only a change of the deferred action touches the entry of the controller. -/

/-- The entry of the controller in the scheduler. -/
def scheduled (s : System σ) : Option Entry := s.deferral.agenda.radio

@[simp] theorem scheduled_log (s : System σ) (c : Call) : (s.log c).scheduled = s.scheduled := rfl

@[simp] theorem scheduled_order (s : System σ) (c : BoardCall) :
    (s.order c).scheduled = s.scheduled := rfl

@[simp] theorem scheduled_editFrame (s : System σ) (e : FrameEdit) :
    (s.editFrame e).scheduled = s.scheduled := rfl

@[simp] theorem scheduled_act (s : System σ) (a : Act) : (s.act a).scheduled = s.scheduled := by
  cases a <;> rfl

@[simp] theorem scheduled_settle (s : System σ) (chip : σ) (acts : List Act) :
    (s.settle chip acts).scheduled = s.scheduled := by
  suffices h : ∀ t : System σ, (acts.foldl act t).scheduled = t.scheduled from h _
  induction acts with
  | nil => intro t; rfl
  | cons a acts ih => intro t; simp [ih]

@[simp] theorem scheduled_defer (s : System σ) (content : Option Deferred) :
    (s.defer content).scheduled = content.map Deferred.entry :=
  Deferral.write_radio _ _

@[simp] theorem scheduled_take (s : System σ) (job : RadioJob) :
    (s.take job).scheduled = s.scheduled := by
  simp [scheduled, take]

@[simp] theorem scheduled_complete (s : System σ) : s.complete.scheduled = s.scheduled := rfl

@[simp] theorem scheduled_notePending (s : System σ) (lines : Option UInt8) :
    (s.notePending lines).scheduled = s.scheduled := rfl

@[simp] theorem scheduled_noteSending (s : System σ) (sending : Bool) :
    (s.noteSending sending).scheduled = s.scheduled := rfl

end System

end Transceiver
