/-!
The frame buffer. It serves both directions: the MAC layer puts a frame to send into it, and a
driver opens it to its full size, writes what it received and cuts it to length. Bytes that come
into being by growth are zero, so nothing that was cut off comes back.
-/

namespace Transceiver

/-- Cuts or fills up with zeros to `n` bytes. -/
def resized (n : Nat) (bytes : List UInt8) : List UInt8 :=
  bytes.take n ++ List.replicate (n - bytes.length) 0

/-- Writes `data` over `bytes` from index `start`. What would go past the end is dropped. -/
def overwritten (start : Nat) (data bytes : List UInt8) : List UInt8 :=
  bytes.take start ++ data.take (bytes.length - start) ++ bytes.drop (start + data.length)

@[simp] theorem length_resized (n : Nat) (bytes : List UInt8) : (resized n bytes).length = n := by
  simp only [resized, List.length_append, List.length_take, List.length_replicate]
  omega

@[simp] theorem length_overwritten (start : Nat) (data bytes : List UInt8) :
    (overwritten start data bytes).length = bytes.length := by
  simp only [overwritten, List.length_append, List.length_take, List.length_drop]
  omega

/-- A buffer of a fixed capacity with the bytes in it. -/
structure FrameBuffer where
  capacity : Nat
  bytes : List UInt8 := []
  deriving DecidableEq, Repr

namespace FrameBuffer

def size (f : FrameBuffer) : Nat := f.bytes.length

def emptied (f : FrameBuffer) : FrameBuffer := { f with bytes := [] }

/-- Appends to the content, if the capacity allows. -/
def extend? (f : FrameBuffer) (data : List UInt8) : Option FrameBuffer :=
  if f.size + data.length ≤ f.capacity then some { f with bytes := f.bytes ++ data } else none

def opened (f : FrameBuffer) : FrameBuffer :=
  { f with bytes := resized f.capacity f.bytes }

def write (f : FrameBuffer) (start : Nat) (data : List UInt8) : FrameBuffer :=
  { f.opened with bytes := overwritten start data f.opened.bytes }

/-- Gives the content a length, or as much of it as the capacity allows. -/
def setLength (f : FrameBuffer) (n : UInt8) : FrameBuffer :=
  { f with bytes := resized (min n.toNat f.capacity) f.bytes }

theorem extend?_emptied {f : FrameBuffer} {data : List UInt8} (h : data.length ≤ f.capacity) :
    f.emptied.extend? data = some { f with bytes := data } := by
  simp [extend?, emptied, size, h]

theorem size_opened (f : FrameBuffer) : f.opened.size = f.capacity := by
  simp [size, opened]

theorem size_write (f : FrameBuffer) (start : Nat) (data : List UInt8) :
    (f.write start data).size = f.capacity := by
  simp [size, write, opened]

theorem size_setLength (f : FrameBuffer) (n : UInt8) :
    (f.setLength n).size = min n.toNat f.capacity := by
  simp [size, setLength]

end FrameBuffer

/-- What a driver may do to the frame buffer. -/
inductive FrameEdit
  | write (start : Nat) (data : List UInt8)
  | setLength (n : UInt8)
  deriving DecidableEq, Repr

def FrameBuffer.edit (f : FrameBuffer) : FrameEdit → FrameBuffer
  | .write start data => f.write start data
  | .setLength n => f.setLength n

end Transceiver
