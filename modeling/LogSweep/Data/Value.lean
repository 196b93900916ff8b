-- Values of data files: what a settings file or a report holds, whatever its notation.
namespace LogSweep.Data

inductive Value
  | null
  | bool (b : Bool)
  /-- A number as it is written. -/
  | number (text : String)
  | text (s : String)
  /-- A date, or what holds a text that is no Unicode: that text, or the table of which it is a key. -/
  | other
  | list (items : List Value)
  /-- Fields in the order they are written. A key may occur twice. -/
  | table (fields : List (String × Value))
  deriving Repr

namespace Value

def ofNat (n : Nat) : Value := .number (toString n)

/-- The text of a value that is one. -/
def text? : Value → Option String
  | .text s => some s
  | _ => none

def bool? : Value → Option Bool
  | .bool b => some b
  | _ => none

/-- The texts of a list that holds nothing else. -/
def texts? : Value → Option (List String)
  | .list items => items.mapM text?
  | _ => none

end Value

end LogSweep.Data
