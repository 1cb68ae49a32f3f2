/-!
Documents: the data of a JSON text. Numbers that are written as integers are kept apart from those
with a fraction or an exponent, since only the former are accepted where an integer is called for.
-/

namespace Transceiver

inductive Document
  | null
  | bool (b : Bool)
  | integer (n : Int)
  /-- The number `mantissa * 10 ^ exponent`, written with a fraction or an exponent. -/
  | decimal (mantissa exponent : Int)
  | text (s : String)
  | array (items : List Document)
  | object (members : List (String × Document))
  deriving Inhabited, Repr

/-- The name that a document spells: a text, or an object whose one member has the name for its
key and nothing in it. -/
def Document.name? : Document → Option String
  | text s => some s
  | object [(key, null)] => some key
  | _ => none

end Transceiver
