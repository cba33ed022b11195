import DocTypes.Doclet

/-!
# Documentation records as JSON

A record is read from an object, and written as one.  A part that is absent is not written: a text
that is null or empty, a mark that is not set, a list that was never declared.  Name and kind are
always written.

* `Doclet.ofJson`, `Doclet.toJson`  and the same for properties, results and type names.
-/

namespace DocTypes

/-- the value of an entry, unless it is null -/
def Json.part? (key : String) (value : Json) : Option Json :=
  (value.entry? key).filter (· ≠ .null)

/-- an entry that is only written if it is there -/
def optionalEntry {α : Type} (key : String) (write : α → Json) (value : Option α) :
    List (String × Json) :=
  value.toList.map fun a => (key, write a)

def flagEntry (key : String) (flag : Bool) : List (String × Json) :=
  if flag then [(key, .bool true)] else []

/-- the names under `names`; a text in their place stands for its characters -/
def TypeNames.ofJson (value : Json) : TypeNames :=
  match value.entry? "names" with
  | some (.array items) => items.map Json.text?
  | some (.text s) => s.toList.map fun c => some (String.singleton c)
  | _ => []

def TypeNames.toJson (names : TypeNames) : Json :=
  .object [("names", .array (names.map Json.ofText?))]

/-- the declared type names of a record -/
def typeAt (value : Json) : Option TypeNames := (value.part? "type").map TypeNames.ofJson

namespace Property

def ofJson (value : Json) : Property where
  name := (value.entry? "name").elim (some "") Json.text?
  type := typeAt value
  optional := value.flagAt "optional"
  variadic := value.flagAt "variable"
  defaultValue := (value.entry? "defaultvalue").getD .null
  description := value.textAt "description"

def toJson (p : Property) : Json :=
  .object <|
    [("name", .ofText? p.name)]
      ++ optionalEntry "type" TypeNames.toJson p.type
      ++ flagEntry "optional" p.optional
      ++ flagEntry "variable" p.variadic
      ++ (if p.defaultValue = .null then [] else [("defaultvalue", p.defaultValue)])
      ++ optionalEntry "description" .text (given p.description)

end Property

namespace Returned

def ofJson (value : Json) : Returned where
  type := typeAt value
  description := value.textAt "description"

def toJson (r : Returned) : Json :=
  .object <|
    optionalEntry "type" TypeNames.toJson r.type
      ++ optionalEntry "description" .text (given r.description)

end Returned

namespace Doclet

def ofJson (value : Json) : Doclet where
  name := (value.entry? "name").elim (some "") Json.text?
  longname := value.textAt "longname"
  kind := (value.entry? "kind").elim (some "member") Json.text?
  type := typeAt value
  properties := (value.part? "properties").map fun ps => ps.items.map Property.ofJson
  params := (value.part? "params").map fun ps => ps.items.map Property.ofJson
  returns := (value.part? "returns").map fun rs => rs.items.map Returned.ofJson
  this := value.textAt "this"
  optional := value.flagAt "optional"

def toJson (d : Doclet) : Json :=
  .object <|
    [("name", .ofText? d.name), ("kind", .ofText? d.kind)]
      ++ optionalEntry "longname" .text (given d.longname)
      ++ optionalEntry "type" TypeNames.toJson d.type
      ++ optionalEntry "properties" (fun ps => .array (ps.map Property.toJson)) d.properties
      ++ optionalEntry "params" (fun ps => .array (ps.map Property.toJson)) d.params
      ++ optionalEntry "returns" (fun rs => .array (rs.map Returned.toJson)) d.returns
      ++ optionalEntry "this" .text (given d.this)
      ++ flagEntry "optional" d.optional

/-- whether reading back what was written gives the same record -/
def survivesWriting (d : Doclet) : Bool := ofJson d.toJson = d

end Doclet

end DocTypes
