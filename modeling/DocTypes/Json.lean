import DocTypes.Decimal.Binary64

/-!
# JSON values

Settings, records and the default values of properties are JSON values: null, a truth value, an
integer of any size, a floating-point number, a text, an array, or an object whose entries have an
order.

* `Json.isTruthy`  whether a value counts as given: null, false, zero and whatever is empty do not.
-/

namespace DocTypes

open Decimal (Binary64)

inductive Json where
  | null
  | bool (b : Bool)
  | int (n : Int)
  | float (x : Binary64)
  | text (s : String)
  | array (items : List Json)
  | object (entries : List (String × Json))

namespace Json

instance : Inhabited Json := ⟨null⟩

def isTruthy : Json → Bool
  | null => false
  | bool b => b
  | int n => n != 0
  | float x => !x.isZero
  | text s => !s.isEmpty
  | array items => !items.isEmpty
  | object entries => !entries.isEmpty

/-- the value of the first entry with a given key -/
def entry? (key : String) : Json → Option Json
  | object entries => entries.lookup key
  | _ => none

/-- the text of a value that is one -/
def text? : Json → Option String
  | text s => some s
  | _ => none

/-- the items of an array -/
def items : Json → List Json
  | array items => items
  | _ => []

/-- the text of an entry, or null -/
def textAt (key : String) (value : Json) : Option String := (value.entry? key).bind text?

/-- whether an entry is given and counts as such -/
def flagAt (key : String) (value : Json) : Bool := (value.entry? key).elim false isTruthy

/-- a text, or null for none -/
def ofText? : Option String → Json
  | none => null
  | some s => text s

end Json

end DocTypes
