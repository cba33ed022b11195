import DocTypes.Doclet.Nesting

/-!
# Nesting by insertion

Properties can also be nested one by one, in the order in which they are declared.  Each has a node of
its own, which becomes a root or the last child of its parent and is never moved again; an index holds
where the latest node of each key is.

* `Grove`              the nodes, the roots among them, and the index;
* `Grove.add`          one more property;
* `Grove.ofProps`      the properties of a list;
* `Grove.find?`        the place of the last property with a given name;
* `Grove.placesBelow`  the places of a node and of all nodes below it;
* `Grove.forest`       the roots with their parts.
-/

namespace DocTypes

/-- the node of a property; children are places in the list of all nodes -/
structure Grove.Cell where
  name : String
  prop : Property
  children : List Nat

structure Grove where
  cells : List Grove.Cell := []
  roots : List Nat := []
  /-- where the node of a key is; the latest entry counts -/
  index : List (String × Nat) := []

namespace Grove

def childrenAt (g : Grove) (place : Nat) : List Nat := (g.cells[place]?.map Cell.children).getD []

/-- a new node, to which the index leads from now on -/
def insert (g : Grove) (d : Declared) : Grove :=
  { g with
    cells := g.cells ++ [⟨d.leaf, d.prop, []⟩]
    index := (d.key, g.cells.length) :: g.index }

/-- a node becomes a root -/
def plant (g : Grove) (place : Nat) : Grove := { g with roots := g.roots ++ [place] }

/-- a node becomes the last child of another -/
def adopt (g : Grove) (parent child : Nat) : Grove :=
  { g with
    cells := g.cells.modify parent fun cell => { cell with children := cell.children ++ [child] } }

def add (strict : Bool) (g : Grove) (p : Property) : Run Grove :=
  match p.declared? with
  | none => do
    Run.warn strict (Misplacement.unnamed.warning p)
    pure g
  | some d =>
    let place := g.cells.length
    let g := g.insert d
    match d.parent with
    | none => pure (g.plant place)
    | some key =>
      match g.index.lookup key with
      | some parent => pure (g.adopt parent place)
      | none => do
        Run.warn strict ((Misplacement.orphan key d.name).warning p)
        pure (g.plant place)

def ofProps (strict : Bool) (props : List Property) : Run Grove := props.foldlM (add strict) {}

def find? (g : Grove) (name : String) : Option Nat := g.index.lookup (keyOf name)

/-! ## what it holds -/

/-- the places of a node and of the nodes below it, as far as `depth` levels -/
def placesBelow (g : Grove) : Nat → Nat → List Nat
  | 0, _ => []
  | depth + 1, place => place :: (g.childrenAt place).flatMap (placesBelow g depth)

/-- the node at a place with its parts, as far as `depth` levels -/
def treeAt (g : Grove) : Nat → Nat → Option PropertyNode
  | 0, _ => none
  | depth + 1, place =>
    g.cells[place]?.map fun cell =>
      .mk cell.name cell.prop (cell.children.filterMap (treeAt g depth))

/-- no way down passes more nodes than there are -/
def tree? (g : Grove) (place : Nat) : Option PropertyNode := g.treeAt g.cells.length place

def forest (g : Grove) : List PropertyNode := g.roots.filterMap g.tree?

/-- the places of all nodes of the forest, each node before its children -/
def places (g : Grove) : List Nat := g.roots.flatMap (g.placesBelow g.cells.length)

end Grove

end DocTypes
