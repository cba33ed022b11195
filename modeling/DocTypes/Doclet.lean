import DocTypes.Json.Equality

/-!
# Documentation records

The parts of a documentation record that the resolution of types looks at.  A record describes a
documented item, its properties, parameters and results; each of these may declare type names, of
which several form a union.

* `Doclet`, `Property`, `Returned`  the records;
* `Doclet.debugName`                the name that messages use;
* `Doclet.bareName`                 the name without the brackets that mark it as optional.

Texts may be null where a record comes from outside, so a name is an optional text.
-/

namespace DocTypes

/-- declared type names, each a text or null -/
abbrev TypeNames := List (Option String)

/-- a documented property or parameter; its name may be dotted (`opts.name`) -/
structure Property where
  name : Option String := some ""
  type : Option TypeNames := none
  optional : Bool := false
  variadic : Bool := false
  /-- the default value, null if none is declared -/
  defaultValue : Json := .null
  description : Option String := none
  deriving DecidableEq

/-- a documented result -/
structure Returned where
  type : Option TypeNames := none
  description : Option String := none
  deriving DecidableEq

structure Doclet where
  name : Option String := some ""
  longname : Option String := none
  kind : Option String := some "member"
  type : Option TypeNames := none
  properties : Option (List Property) := none
  params : Option (List Property) := none
  returns : Option (List Returned) := none
  /-- the declared type of `this` -/
  this : Option String := none
  optional : Bool := false
  deriving DecidableEq

/-- a text that is neither null nor empty -/
def given (s : Option String) : Option String := s.filter (· ≠ "")

namespace Property

/-- a parameter may be left out if it is declared so or has a default value -/
def isOptionalParam (p : Property) : Bool := p.defaultValue ≠ .null || p.optional

end Property

namespace Doclet

def debugName (d : Doclet) : Option String := (given d.longname).or d.name

/-- the name without brackets around it, and whether the item is optional -/
def bareName (d : Doclet) (name : String) : String × Bool :=
  match name.toList with
  | '[' :: rest =>
    if rest.getLast? = some ']' then (String.ofList rest.dropLast, true) else (name, d.optional)
  | _ => (name, d.optional)

end Doclet

end DocTypes
