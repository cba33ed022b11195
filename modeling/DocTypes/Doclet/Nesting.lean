import DocTypes.Doclet.Record
import DocTypes.Json.Printer
import DocTypes.Run

/-!
# Nesting of dotted properties

Properties are declared in a flat list; `opts.name` is a part of `opts`.  The key of a property is
its name without the pairs `[]`, so that `items[].id` is a part of `items`.  A property belongs to
the latest property before it whose key is its own key up to the last dot.  Properties without a
name are left out, and one whose parent is not declared before it stands on its own.

* `PropertyNode`  a property with its parts;
* `partsOf`       the parts of the property with a given key, among the declarations after it;
* `rootsAfter`    the properties that are part of no other;
* `Misplacement`  what the warnings are about;
* `nest`          the roots with their parts, and the warnings;
* `findNode?`     the node of the last property with a given name.
-/

namespace DocTypes

inductive PropertyNode where
  | mk (name : String) (prop : Property) (children : List PropertyNode)

namespace PropertyNode

def name : PropertyNode → String
  | mk n _ _ => n

def prop : PropertyNode → Property
  | mk _ p _ => p

def children : PropertyNode → List PropertyNode
  | mk _ _ cs => cs

@[elab_as_elim]
theorem inductionOn {motive : PropertyNode → Prop} (node : PropertyNode)
    (mk : ∀ name prop children, (∀ c ∈ children, motive c) → motive (mk name prop children)) :
    motive node :=
  match node with
  | .mk name prop children => mk name prop children fun c _ => inductionOn c mk
termination_by node

end PropertyNode

/-! ## keys -/

def withoutPairs : List Char → List Char
  | [] => []
  | '[' :: ']' :: rest => withoutPairs rest
  | c :: rest => c :: withoutPairs rest

/-- the parts of a text before and after its last dot -/
def splitLastDot? : List Char → Option (List Char × List Char)
  | [] => none
  | c :: rest =>
    match splitLastDot? rest with
    | some (path, leaf) => some (c :: path, leaf)
    | none => if c = '.' then some ([], rest) else none

def keyOf (name : String) : String := String.ofList (withoutPairs name.toList)

/-- the key of the parent, if the key is dotted, and the name of the node -/
def parentAndLeaf (key : String) : Option String × String :=
  match splitLastDot? key.toList with
  | some (path, leaf) => (some (String.ofList path), String.ofList leaf)
  | none => (none, key)

/-- a property that has a name -/
structure Declared where
  name : String
  prop : Property

namespace Declared

def key (d : Declared) : String := keyOf d.name
def parent (d : Declared) : Option String := (parentAndLeaf d.key).1
def leaf (d : Declared) : String := (parentAndLeaf d.key).2

/-- a dotted property whose parent is not among the keys declared before it -/
def isOrphan (earlier : List String) (d : Declared) : Bool :=
  d.parent.any fun key => !earlier.contains key

end Declared

def Property.declared? (p : Property) : Option Declared := (given p.name).map (⟨·, p⟩)

def declared (props : List Property) : List Declared := props.filterMap Property.declared?

/-! ## the forest -/

/-- the parts of a property of the given key; a later property of that key takes all further parts
to itself -/
def partsOf (key : String) : List Declared → List PropertyNode
  | [] => []
  | d :: later =>
    if d.key = key then []
    else if d.parent = some key then
      .mk d.leaf d.prop (partsOf d.key later) :: partsOf key later
    else partsOf key later

def rootsAfter (earlier : List String) : List Declared → List PropertyNode
  | [] => []
  | d :: later =>
    let more := rootsAfter (d.key :: earlier) later
    if d.parent.isNone || d.isOrphan earlier then
      .mk d.leaf d.prop (partsOf d.key later) :: more
    else more

def lastWithKey? (key : String) : List Declared → Option PropertyNode
  | [] => none
  | d :: later =>
    (lastWithKey? key later).or
      (if d.key = key then some (.mk d.leaf d.prop (partsOf d.key later)) else none)

def findNode? (props : List Property) (name : String) : Option PropertyNode :=
  lastWithKey? (keyOf name) (declared props)

/-! ## warnings -/

/-- what can be wrong with the place of a property -/
inductive Misplacement where
  | unnamed
  /-- the parent of the named property is not declared before it -/
  | orphan (parent name : String)
  deriving DecidableEq, Repr

def Misplacement.message : Misplacement → String
  | unnamed => "Property without a name, this is likely due to invalid JSDoc. Skipping it."
  | orphan parent name =>
    "Failed to find parent '" ++ parent ++ "' of property '" ++ name
      ++ "', treating it as top-level."

def Misplacement.warning (p : Property) (m : Misplacement) : Warning :=
  ⟨⟨.unknownTypeName, m.message⟩, some p.toJson.indented, none⟩

/-- a warning for each property without a name, and for each whose parent is not declared -/
def checkNesting (strict : Bool) (earlier : List String) : List Property → Run Unit
  | [] => pure ()
  | p :: later =>
    match p.declared? with
    | none => do
      Run.warn strict (Misplacement.unnamed.warning p)
      checkNesting strict earlier later
    | some d => do
      if d.isOrphan earlier then
        Run.warn strict ((Misplacement.orphan (d.parent.getD "") d.name).warning p)
      checkNesting strict (d.key :: earlier) later

def nest (strict : Bool) (props : List Property) : Run (List PropertyNode) := do
  checkNesting strict [] props
  pure (rootsAfter [] (declared props))

end DocTypes
