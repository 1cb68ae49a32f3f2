import Transceiver.Board
import Transceiver.Exchange
import Transceiver.Modulation.Airtime

/-!
The driver of a radio chip, as a record of what it does in each state `σ` of the chip. A routine
reads the exchange, may give orders to the board, leaves the chip in a new state, and may fail
with an error of type `ε`. Only the interpretation of an interrupt may change the exchange, and of
it only the frame.
-/

namespace Transceiver

inductive Start
  | transmit (continuous : Bool)
  | receive (continuous : Bool)
  | carrier
  | assess
  | detect
  deriving DecidableEq, Repr

inductive Status
  /-- The operation is over; received bytes are in the frame buffer. -/
  | complete
  /-- More interrupts are to come, and the watchdog may want a new deadline. -/
  | pending (rearm : Option Ticks)
  deriving DecidableEq, Repr

/-- What a driver does around its chip. -/
inductive Act
  | edit (e : FrameEdit)
  | order (c : BoardCall)
  deriving DecidableEq, Repr

namespace Act

def edit? : Act → Option FrameEdit
  | edit e => some e
  | order _ => none

def order? : Act → Option BoardCall
  | edit _ => none
  | order c => some c

/-- The edits of the frame among some acts. -/
def edits (acts : List Act) : List FrameEdit := acts.filterMap edit?

/-- The orders to the board among some acts. -/
def orders (acts : List Act) : List BoardCall := acts.filterMap order?

@[simp] theorem edits_nil : edits [] = [] := rfl

@[simp] theorem orders_nil : orders [] = [] := rfl

@[simp] theorem edits_cons_edit (e : FrameEdit) (acts : List Act) :
    edits (.edit e :: acts) = e :: edits acts := rfl

@[simp] theorem edits_cons_order (c : BoardCall) (acts : List Act) :
    edits (.order c :: acts) = edits acts := rfl

@[simp] theorem orders_cons_edit (e : FrameEdit) (acts : List Act) :
    orders (.edit e :: acts) = orders acts := rfl

@[simp] theorem orders_cons_order (c : BoardCall) (acts : List Act) :
    orders (.order c :: acts) = c :: orders acts := rfl

end Act

structure Reply (σ ε : Type) where
  chip : σ
  orders : List BoardCall := []
  outcome : Except ε Unit := .ok ()

/-- A routine that may only read the exchange does nothing but give orders. -/
def Reply.acts {σ ε : Type} (r : Reply σ ε) : List Act := r.orders.map .order

@[simp] theorem Reply.edits_acts {σ ε : Type} (r : Reply σ ε) : Act.edits r.acts = [] := by
  simp [acts, Act.edits, List.filterMap_map, Function.comp_def, Act.edit?]

@[simp] theorem Reply.orders_acts {σ ε : Type} (r : Reply σ ε) :
    Act.orders r.acts = r.orders := by
  simp [acts, Act.orders, List.filterMap_map, Function.comp_def, Act.order?]

/-- Effect of the interpretation of an interrupt, which cannot fail. -/
structure Interpretation (σ : Type) where
  chip : σ
  /-- Edits of the frame and orders to the board, in the order in which they are made. -/
  acts : List Act := []
  status : Status

def Interpretation.edits {σ : Type} (found : Interpretation σ) : List FrameEdit :=
  Act.edits found.acts

def Interpretation.orders {σ : Type} (found : Interpretation σ) : List BoardCall :=
  Act.orders found.acts

structure Driver (σ ε : Type) where
  sleep : σ → σ × Except ε Unit
  /-- Resets the chip and, if asked to, calibrates it for the channel of the operation. -/
  reset : (calibrate : Bool) → Exchange → σ → Reply σ ε
  start : Start → Exchange → σ → Reply σ ε
  /-- Interprets the interrupt captured at a time on some lines. No lines are given by a board
  that cannot tell them apart. -/
  interpret : Ticks → (lines : UInt8) → Exchange → σ → Interpretation σ
  /-- Preamble in symbols that the driver programs. -/
  preamble : UInt8 := Packet.regularPreamble
  /-- Microseconds on the air of a packet of some length. -/
  airtime : σ → Modulation → UInt8 → UInt32 := fun _ m length =>
    m.airtime (.headed preamble length)

end Transceiver
