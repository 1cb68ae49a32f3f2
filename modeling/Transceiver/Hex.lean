/-!
Bytes as pairs of lower case hexadecimal digits.
-/

namespace Transceiver.Hex

def digit (n : Nat) : Char :=
  if n < 10 then Char.ofNat ('0'.toNat + n) else Char.ofNat ('a'.toNat + (n - 10))

def digit? (c : Char) : Option Nat :=
  if '0' ≤ c ∧ c ≤ '9' then some (c.toNat - '0'.toNat)
  else if 'a' ≤ c ∧ c ≤ 'f' then some (c.toNat - 'a'.toNat + 10)
  else none

/-- Both digits are always written. -/
def ofByte (b : UInt8) : List Char :=
  [digit (b.toNat / 16), digit (b.toNat % 16)]

def encode (bytes : List UInt8) : String :=
  String.ofList (bytes.flatMap ofByte)

/-- The byte of each pair of digits. An odd count of digits and any other character are refused. -/
def readPairs : List Char → Option (List UInt8)
  | [] => some []
  | [_] => none
  | high :: low :: rest => do
    let h ← digit? high
    let l ← digit? low
    let bytes ← readPairs rest
    pure (UInt8.ofNat (16 * h + l) :: bytes)

def decode? (text : String) : Option (List UInt8) :=
  readPairs text.toList

end Transceiver.Hex
