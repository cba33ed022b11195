import DocTypes.Growth.Span
import DocTypes.Lowering
import DocTypes.Text.Blank
import DocTypes.TsType.Keyword

/-!
# Types by name

A documented item names its type.  Keywords and a few special names are taken as such, whatever
blanks are around them; any other name is read as a type expression.

* `NameForm`        the forms a name can have;
* `Lack`            what can be missing where a type is asked for;
* `expressionType`  the type of an expression;
* `nameType`        the type of a name;
* `unionType`       the type of several names, or of none.
-/

namespace DocTypes

open Text (upper)

inductive NameForm where
  /-- null, or nothing but blanks -/
  | blank (written : String)
  /-- the name `*` -/
  | star
  | keyword (k : Keyword)
  /-- the name of functions in general -/
  | callable
  | expression (text : String)
  deriving DecidableEq, Repr

def isCallableName (name : String) : Bool :=
  upper name == "FUNCTION" || upper name == "FUNCTION()"

def NameForm.ofName (name : Option String) : NameForm :=
  let written := name.getD ""
  let name := Text.stripped written
  if name = "" then blank written
  else if name = "*" then star
  else match Keyword.ofName? name with
    | some k => keyword k
    | none => if isCallableName name then callable else expression name

/-- what a name or a record can lack that a type is made of -/
inductive Lack where
  | name
  /-- an item declares no type; its label, if it has one -/
  | type (label : Option String)
  /-- a second rest parameter takes the place of a first -/
  | oneRest (previous next : String)
  deriving DecidableEq, Repr

namespace Lack

def anomaly : Lack → Anomaly
  | name | type _ => .unknownTypeName
  | oneRest _ _ => .unresolvedMember

def message : Lack → String
  | name =>
    "Unable to resolve type name, it is null, undefined, or empty. Defaulting to `any`."
  | type (some label) =>
    "Unable to resolve type for " ++ label ++ ", none specified in JSDoc. Defaulting to `any`."
  | type none =>
    "Unable to resolve type for an unnamed item, this is likely due to invalid JSDoc."
      ++ " Often this is caused by invalid JSDoc on a parameter. Defaulting to `any`."
  | oneRest previous next =>
    "Only one variadic parameter is allowed, replacing '" ++ previous ++ "' with '" ++ next
      ++ "'."

/-- the warning, about what `context` shows -/
def warning (context expression : Option String) (lack : Lack) : Warning :=
  ⟨⟨lack.anomaly, lack.message⟩, context, expression⟩

end Lack

/-- the type of a function of which nothing is known -/
def callableType : TsType := .function [] .any (some anyParams)

def expressionType (config : Config) (text : String) : Run TsType := do
  let root ← Node.ofText config text
  root.lower config.strict

/-- the type of a name; `context` is what its warning is about -/
def NameForm.type (config : Config) (context : Option String) : NameForm → Run TsType
  | blank written => do
    Run.warn config.strict (Lack.name.warning context (some written))
    pure .any
  | star => pure .any
  | keyword k => pure (.ofKeyword k)
  | callable => pure callableType
  | expression text => expressionType config text

/-- the type of a name that belongs to no record -/
def nameType (config : Config) (name : Option String) : Run TsType :=
  (NameForm.ofName name).type config none

/-- the type that several names form; `missing` if there are none -/
def unionType (resolve : Option String → Run TsType) (missing : Run TsType) :
    List (Option String) → Run TsType
  | [] => missing
  | [name] => resolve name
  | names => do
    let members ← names.mapM resolve
    pure (.union members)

/-- `any` for an item without a type, which the warning calls by its label if it has one -/
def missingType (config : Config) (context : Option String) (label : Option String) :
    Run TsType := do
  Run.warn config.strict ((Lack.type label).warning context none)
  pure .any

end DocTypes
