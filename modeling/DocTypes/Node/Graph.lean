import DocTypes.Node.Listing

/-!
# Nodes made by hand

Nodes can also be made one by one and put below each other.  A node may then be a child of several
parents, or of one parent several times; its parent is the one it was put below last.  As long as
no node is put below itself, directly or not, every node has a tree and a path.

Parents that lead in a circle never come to an end, so there is no path up from there.  Here such a
way up is cut off after as many names as there are nodes; what is said of paths, and of warnings that
show one, is meant for nodes whose parents lead to an end.

* `Graph.insert`   a new node under an identifier; `Graph.fresh` makes one that has none;
* `Graph.adopt`    puts one node below another; `Graph.release` takes its parent from a node again;
* `Graph.sprout`   makes a new node below another;
* `Graph.tree?`    the tree below a node;
* `Graph.path`     the names from the top down to a node;
* `Graph.pathsAt`  the paths of all nodes of a tree, each node before its children.
-/

namespace DocTypes

/-- a node; children and parent are places in the list of all nodes -/
structure Cell where
  kind : Kind
  name : String
  children : List Nat
  parent : Option Nat

structure Graph where
  cells : List Cell := []
  /-- where the node of an identifier is; the latest entry counts -/
  places : List (String × Nat) := []

namespace Graph

def place? (g : Graph) (id : String) : Option Nat := g.places.lookup id

def insert (g : Graph) (id : String) (kind : Kind) (name : String) : Graph :=
  ⟨g.cells ++ [⟨kind, name, [], none⟩], (id, g.cells.length) :: g.places⟩

def adoptAt (g : Graph) (parent child : Nat) : Graph :=
  let adopted := g.cells.modify child fun cell => { cell with parent := some parent }
  { g with cells := adopted.modify parent fun cell =>
      { cell with children := cell.children ++ [child] } }

def adopt (g : Graph) (parent child : String) : Graph :=
  match g.place? parent, g.place? child with
  | some p, some c => g.adoptAt p c
  | _, _ => g

/-- a new node that is below no other -/
def fresh (g : Graph) (kind : Kind) (name : String) : Graph × Nat :=
  ({ g with cells := g.cells ++ [⟨kind, name, [], none⟩] }, g.cells.length)

/-- a new node below another -/
def sprout (g : Graph) (parent : Nat) (kind : Kind) (name : String) : Graph × Nat :=
  let (g, child) := g.fresh kind name
  (g.adoptAt parent child, child)

/-- a node that no longer knows a parent -/
def release (g : Graph) (place : Nat) : Graph :=
  { g with cells := g.cells.modify place fun cell => { cell with parent := none } }

def childrenAt (g : Graph) (place : Nat) : List Nat := (g.cells[place]?.map Cell.children).getD []

/-- the tree below a place, as far as `depth` levels -/
def treeAt (g : Graph) : Nat → Nat → Option Node
  | 0, _ => none
  | depth + 1, place =>
    g.cells[place]?.map fun cell =>
      .mk cell.kind cell.name (cell.children.filterMap (treeAt g depth))

/-- no way down passes more nodes than there are -/
def tree? (g : Graph) (id : String) : Option Node :=
  (g.place? id).bind (g.treeAt g.cells.length)

/-- the names on the way up from a place, as far as `depth` levels; where the parents lead in a circle
this is cut off, and no path -/
def namesAbove (g : Graph) : Nat → Option Nat → List String
  | 0, _ | _, none => []
  | depth + 1, some place =>
    match g.cells[place]? with
    | none => []
    | some cell => cell.name :: namesAbove g depth cell.parent

/-- the path of the node at a place -/
def pathAt (g : Graph) (place : Nat) : String :=
  pathText (g.namesAbove g.cells.length (some place)).reverse

def path (g : Graph) (id : String) : String :=
  pathText (g.namesAbove g.cells.length (g.place? id)).reverse

/-- the places of the nodes of a tree, as far as `depth` levels -/
def placesBelow (g : Graph) : Nat → Nat → List Nat
  | 0, _ => []
  | depth + 1, place => place :: (g.childrenAt place).flatMap (placesBelow g depth)

def pathsAt (g : Graph) (place : Nat) : List String :=
  (g.placesBelow g.cells.length place).map g.pathAt

end Graph

end DocTypes
