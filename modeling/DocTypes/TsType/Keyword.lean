import DocTypes.Text.Letters
import DocTypes.TsType

/-!
# Keyword names

A name is a keyword if it is one in capitals; `bool` is another name of `boolean`.

* `Keyword.ofName?`  the keyword of a name;
* `Keyword.table`    the keyword types; `this` is not among them.
-/

namespace DocTypes.Keyword

/-- the name of a keyword in capitals -/
def label (k : Keyword) : String := Text.upper k.text

def ofCapitals? (name : String) : Option Keyword :=
  if name = "BOOL" then some boolean else all.find? fun k => k.label == name

def ofName? (name : String) : Option Keyword := ofCapitals? (Text.upper name)

def table : List (Keyword × TsType) := (all.filter (· ≠ this)).map fun k => (k, .keyword k)

end DocTypes.Keyword
