import Transceiver.Document

/-!
Formats: how values of a type are written as documents and read back. A value out of a list of
named ones is spelled by its name, a whole number by itself, and a record by an object of its
members, in any order and among others, or by the array of exactly its members in their order.
-/

namespace Transceiver

structure Format (α : Type) where
  encode : α → Document
  decode? : Document → Option α

/-- How the members of a record are written and read, one after the other. -/
structure Members (α : Type) where
  encode : α → List (String × Document)
  ofObject? : List (String × Document) → Option α
  ofArray? : List Document → Option α

namespace Members

protected def none : Members Unit where
  encode _ := []
  ofObject? _ := some ()
  ofArray?
    | [] => some ()
    | _ :: _ => Option.none

/-- A member in front of others. -/
def cons {α β : Type} (name : String) (first : Format α) (rest : Members β) : Members (α × β) where
  encode x := (name, first.encode x.1) :: rest.encode x.2
  ofObject? members := do
    let a ← first.decode? (← members.lookup name)
    let b ← rest.ofObject? members
    pure (a, b)
  ofArray?
    | [] => Option.none
    | item :: items => do
      let a ← first.decode? item
      let b ← rest.ofArray? items
      pure (a, b)

end Members

namespace Format

/-- Values of a list, each with a name. -/
def named {α : Type} (all : List α) (name : α → String) : Format α where
  encode x := .text (name x)
  decode? d := d.name?.bind fun s => all.find? (name · == s)

/-- Whole numbers from `low` to `high`. -/
def integer {α : Type} (low high : Int) (toInt : α → Int) (ofInt : Int → α) : Format α where
  encode x := .integer (toInt x)
  decode?
    | .integer n => if low ≤ n ∧ n ≤ high then some (ofInt n) else none
    | _ => none

def uint8 : Format UInt8 :=
  integer 0 255 (fun n => n.toNat) (fun n => UInt8.ofNat n.toNat)

def uint32 : Format UInt32 :=
  integer 0 4294967295 (fun n => n.toNat) (fun n => UInt32.ofNat n.toNat)

def int8 : Format Int8 :=
  integer (-128) 127 Int8.toInt Int8.ofInt

def bool : Format Bool where
  encode := .bool
  decode?
    | .bool b => some b
    | _ => none

/-- Records whose members are `members`, put together by `make` and taken apart by `parts`. -/
def record {α β : Type} (members : Members α) (make : α → β) (parts : β → α) : Format β where
  encode x := .object (members.encode (parts x))
  decode?
    | .object ms => (members.ofObject? ms).map make
    | .array items => (members.ofArray? items).map make
    | _ => none

end Format

end Transceiver
