import DocTypes.Doclet.Comment
import DocTypes.Doclet.Nesting
import DocTypes.Naming

/-!
# Types of documented properties

Documented properties form an object type with a property per root.  A property with parts has the
object type of its parts, or an array of it if it is declared as an array of objects; any other has
the type that its names form.  Only the outermost object type carries doc comments.

* `PropertyNode.type`  the type of one property;
* `literalType`        the object type of declared properties.
-/

namespace DocTypes

open Text (lower)

/-- the type of an item that belongs to no record, by its declared names -/
def typeOf (config : Config) (label : Option String) (names : Option TypeNames) : Run TsType :=
  unionType (nameType config) (missingType config none (given label)) (names.getD [])

/-- the names of an array whose elements the parts of a property describe -/
def isObjectArrayName (name : String) : Bool :=
  let name := lower name
  name == "array.<object>" || name == "array<object>" || name == "object[]"

/-- an object type of properties, with the marks of those declared optional -/
def recordType (nodes : List PropertyNode) (types : List TsType)
    (docs : List (String × String)) : TsType :=
  let optional := (nodes.filter (·.prop.optional)).map (·.name)
  .object (nodes.zipWith (fun node type => ⟨node.name, type⟩) types) (NameSet.ofList optional)
    none false docs

/-- the type of the parts of a property, or an array of it as the declared names say; a single
name that is null says nothing -/
def wrapParts (names : Option TypeNames) (parts : TsType) : Run TsType :=
  match names with
  | some [some name] => pure (if isObjectArrayName name then .array parts else parts)
  | some [none] => Run.fail .nullName
  | _ => pure parts

mutual
def PropertyNode.type (config : Config) : PropertyNode → Run TsType
  | .mk _ prop [] => typeOf config prop.name prop.type
  | .mk _ prop (part :: parts) => do
    let types ← partTypes config (part :: parts)
    wrapParts prop.type (recordType (part :: parts) types [])
def partTypes (config : Config) : List PropertyNode → Run (List TsType)
  | [] => pure []
  | node :: nodes => do
    let type ← node.type config
    let types ← partTypes config nodes
    pure (type :: types)
end

/-- the doc comments of properties that have one -/
def commentsOf (nodes : List PropertyNode) : List (String × String) :=
  (nodes.map fun node => (node.name, node.prop.comment)).filter (·.2 ≠ "")

def literalType (config : Config) (props : List Property) : Run TsType := do
  let roots ← nest config.strict props
  let types ← partTypes config roots
  pure (recordType roots types (commentsOf roots))

end DocTypes
