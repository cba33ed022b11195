import DocTypes.Lowering.Defect
import DocTypes.Run
import DocTypes.Text.Letters
import DocTypes.TsType

/-!
# From trees to declared types

The children of a node are resolved first, in order, and the type of the node is made from theirs.
A node whose shape lacks something is repaired, with a warning that shows the node:

* a union without members, a generic type without arguments: `any` takes the place of the missing;
* a map (`Object.<K, V>`) whose keys are neither `string` nor `number`: its keys are `string`;
* a record key without a value: the value is `any`; the warning names the way down to the key.

A function of no more than one child takes any parameters.

* `Node.lower`      the type of a tree whose root is a root;
* `Node.lowerFrom`  the type of a tree below other nodes;
* `Node.shape`      the type of a node, given the types of its children.
-/

namespace DocTypes

open Text (upper)

/-- how much is known of the nodes above a node -/
inductive Trail where
  /-- the names from the root down to its parent -/
  | below (names : List String)
  /-- nothing: no node knows its parent -/
  | loose

namespace Trail

def enter (name : String) : Trail → Trail
  | below names => below (names ++ [name])
  | loose => loose

/-- the path of a node of a given name -/
def path : Trail → String → String
  | below names, name => pathText (names ++ [name])
  | loose, name => name

end Trail

/-- the rest parameter of a function whose parameters are not known -/
def anyParams : Named TsType := ⟨"params", .any⟩

/-- positional parameters, which have no names of their own -/
def positional (types : List TsType) : List (Param TsType) :=
  types.mapIdx fun i type => ⟨⟨"arg" ++ toString i, type⟩, false⟩

/-- the repair of a defect of a node, with its warning -/
def Defect.repair {α : Type} (defect : Defect) (strict : Bool) (node : Node) (a : α) : Run α := do
  Run.warn strict (defect.warning node)
  pure a

namespace Shape

/-- whether a node can be the key of a map -/
def isMapKey (node : Node) : Bool :=
  node.kind == .plain && (node.name == "string" || node.name == "number")

/-- the types, or `any` alone if there are none -/
def someOrAny (strict : Bool) (node : Node) (defect : Defect) : List TsType → Run (List TsType)
  | [] => defect.repair strict node [.any]
  | types => pure types

/-- the first type, or `any` if there is none -/
def firstOrAny (strict : Bool) (node : Node) (defect : Defect) : List TsType → Run TsType
  | [] => defect.repair strict node .any
  | type :: _ => pure type

def function : List TsType → TsType
  | [] => .function [] (.keyword .void) (some anyParams)
  | [result] => .function [] result (some anyParams)
  | types => .function (positional types.dropLast) (types.getLastD .any) none

/-- the properties of a record, from its children and their types; `keyPath` is the path of a child
of this name -/
def properties (strict : Bool) (keyPath : String → String) (record : Node) :
    List Node → List TsType → Run (List (Named TsType))
  | [], _ => pure []
  | [key], _ =>
    (Defect.keyWithoutValue (keyPath key.name)).repair strict record [⟨key.name, .any⟩]
  | key :: _ :: rest, types => do
    let more ← properties strict keyPath record rest (types.drop 2)
    pure (⟨key.name, types[1]?.getD .any⟩ :: more)

/-- the type of the keys of a map -/
def mapKey (strict : Bool) (node : Node) (types : List TsType) : Run TsType :=
  match node.children, types with
  | key :: _, type :: _ =>
    if isMapKey key then pure type
    else (Defect.mapKey key.name).repair strict node (.keyword .string)
  | _, _ => Defect.mapWithoutKey.repair strict node (.keyword .string)

def map (strict : Bool) (node : Node) (types : List TsType) : Run TsType := do
  let key ← mapKey strict node types
  let value ← firstOrAny strict node .mapWithoutValue (types.drop 1)
  pure (.object [] .empty (some (key, value)) true [])

def generic (strict : Bool) (node : Node) (types : List TsType) : Run TsType :=
  match upper node.name with
  | "OBJECT" => map strict node types
  | "ARRAY" => do
    let element ← firstOrAny strict node .emptyArray types
    pure (.array element)
  | "CLASS" =>
    match node.children with
    | [] => Defect.emptyClass.repair strict node .any
    | target :: _ => pure (.query target.name)
  | name => do
    let args ← someOrAny strict node .emptyGeneric types
    pure (.reference node.name (if name = "PROMISE" then args.take 1 else args))

end Shape

/-- the type of a node, given the types of its children and the path of a child of a given name -/
def Node.shape (strict : Bool) (keyPath : String → String) (node : Node) (types : List TsType) :
    Run TsType :=
  match node.kind with
  | .plain => pure (.reference node.name [])
  | .union => do
    let members ← Shape.someOrAny strict node .emptyUnion types
    pure (.union members)
  | .function => pure (Shape.function types)
  | .record => do
    let properties ← Shape.properties strict keyPath node node.children types
    pure (.object properties .empty none true [])
  | .generic => Shape.generic strict node types
  | .reference qualifier =>
    pure (.imported node.name ((qualifier.filter (· ≠ "")).getD "default") types)
  | .tuple => (Defect.unsupported node.kind node.name).repair strict node .any

namespace Node

mutual
/-- the type of a tree below the nodes of `trail` -/
def lowerFrom (strict : Bool) (trail : Trail) : Node → Run TsType
  | mk kind name children => do
    let types ← lowerAllFrom strict (trail.enter name) children
    shape strict (trail.enter name).path (mk kind name children) types
def lowerAllFrom (strict : Bool) (trail : Trail) : List Node → Run (List TsType)
  | [] => pure []
  | node :: nodes => do
    let type ← lowerFrom strict trail node
    let types ← lowerAllFrom strict trail nodes
    pure (type :: types)
end

def lower (strict : Bool) (node : Node) : Run TsType := lowerFrom strict (.below []) node

end Node

end DocTypes
