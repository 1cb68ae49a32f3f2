import Transceiver.Frame
import Transceiver.Operation

/-!
The state that the MAC layer shares with the controller: the descriptor of the operation, the
frame buffer, and the job to post when the operation ends. A data length of zero at the end of a
receive tells the MAC layer that nothing came.
-/

namespace Transceiver

/-- Names a job of the MAC layer. -/
abbrev CompletionId := UInt32

structure Exchange where
  operation : Operation
  frame : FrameBuffer
  /-- Posted once per operation, when the chip reports its end or the watchdog expires. -/
  completion : CompletionId := 0
  deriving DecidableEq, Repr

namespace Exchange

/-- Replaces the frame to send, and says whether it was accepted. A frame that the capacity or a
length byte does not allow is refused before anything is changed. The descriptor's length follows
the frame. -/
def load (x : Exchange) (data : List UInt8) : Exchange × Bool :=
  if x.frame.capacity < data.length ∨ 255 < data.length then (x, false)
  else
    let x := { x with frame := x.frame.emptied }
    match x.frame.extend? data with
    | none => (x, false)
    | some frame =>
      let x := { x with frame }
      ({ x with operation := { x.operation with length := UInt8.ofNat data.length } }, true)

def edit (x : Exchange) (e : FrameEdit) : Exchange :=
  { x with frame := x.frame.edit e }

def edits (x : Exchange) (es : List FrameEdit) : Exchange :=
  es.foldl edit x

end Exchange

/-- What the MAC layer may do to the exchange. -/
inductive Exchange.Update
  | load (data : List UInt8)
  | edit (e : FrameEdit)
  | register (completion : CompletionId)
  | amend (p : Operation.Patch)
  deriving DecidableEq, Repr

def Exchange.update (x : Exchange) : Update → Exchange
  | .load data => (x.load data).1
  | .edit e => x.edit e
  | .register completion => { x with completion }
  | .amend p => { x with operation := x.operation.amend p }

/-- Whether an update is carried out. Only the loading of a frame can be refused. -/
def Exchange.accepts (x : Exchange) : Update → Bool
  | .load data => (x.load data).2
  | _ => true

namespace Exchange

/-- A frame that passes the guard fits into the emptied buffer. -/
theorem load_of_le {x : Exchange} {data : List UInt8}
    (h : data.length ≤ min x.frame.capacity 255) :
    x.load data = ({ x with
      frame := { x.frame with bytes := data }
      operation := { x.operation with length := UInt8.ofNat data.length } }, true) := by
  have hroom : ¬ (x.frame.capacity < data.length ∨ 255 < data.length) := by omega
  have hfits : data.length ≤ x.frame.capacity := by omega
  simp only [load, if_neg hroom, FrameBuffer.extend?_emptied hfits]

theorem load_of_not_le {x : Exchange} {data : List UInt8}
    (h : ¬ data.length ≤ min x.frame.capacity 255) : x.load data = (x, false) := by
  rw [load, if_pos (by omega)]

theorem accepts_load_iff {x : Exchange} {data : List UInt8} :
    x.accepts (.load data) = true ↔ data.length ≤ min x.frame.capacity 255 := by
  by_cases h : data.length ≤ min x.frame.capacity 255
  · simp [accepts, load_of_le h, h]
  · simp [accepts, load_of_not_le h, h]

theorem update_of_refused {x : Exchange} {u : Update} (h : x.accepts u = false) :
    x.update u = x := by
  cases u with
  | load data =>
      have hlong : ¬ data.length ≤ min x.frame.capacity 255 :=
        fun hfits => Bool.eq_false_iff.mp h (accepts_load_iff.mpr hfits)
      rw [update, load_of_not_le hlong]
  | edit e | register completion | amend p => cases h

end Exchange

end Transceiver
