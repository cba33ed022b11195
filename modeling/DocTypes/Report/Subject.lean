import DocTypes.Doclet.Record
import DocTypes.Json.Printer
import DocTypes.Node.Listing
import DocTypes.TsType.Printer

/-!
# What a warning is about

A warning can be about a value, a node, a record, a property or a type.  A reader is shown a text
as it is, a node as its listing, a type as its text in quotes, and anything else as JSON.

* `Subject.text?`  the text that is shown; a null is nothing to be shown.
-/

namespace DocTypes

inductive Subject where
  | value (v : Json)
  | node (n : Node)
  | doclet (d : Doclet)
  | property (p : Property)
  | type (t : TsType)

def Subject.text? : Subject → Option String
  | value .null => none
  | value (.text s) => some s
  | value v => some v.indented
  | node n => some n.dump
  | doclet d => some d.toJson.indented
  | property p => some p.toJson.indented
  | type t => some (Json.quote t.text)

end DocTypes
