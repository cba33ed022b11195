import DocTypes.Node

/-!
# Listings of a tree

* `Node.lines`   one line per node, each node before its children, two blanks deeper per level;
* `Node.dump`    these lines as one text;
* `Node.paths`   for each node, in the same order, the names from the root down to it;
* `Node.pairs`   the children of a record by twos.
-/

namespace DocTypes

/-- the names on the way down to a node -/
def pathText (names : List String) : String := " > ".intercalate names

/-- a key node and the value node beside it, which a record of odd length lacks -/
def pairUp : List Node → List (Node × Option Node)
  | [] => []
  | [key] => [(key, none)]
  | key :: value :: rest => (key, some value) :: pairUp rest

namespace Node

/-- what a listing tells of one node -/
def describe (kind : Kind) (name : String) : String :=
  "name: " ++ name ++ ", type:" ++ kind.label ++
    match kind with
    | .reference qualifier => ", qualifier:" ++ qualifier.getD ""
    | _ => ""

/-- two blanks to a level -/
def indentation (indent : Nat) : String := String.ofList (List.replicate (2 * indent) ' ')

mutual
/-- the lines of a tree whose root stands `indent` levels deep -/
def linesAt (indent : Nat) : Node → List String
  | mk kind name children =>
    (indentation indent ++ describe kind name) :: linesAllAt (indent + 1) children
def linesAllAt (indent : Nat) : List Node → List String
  | [] => []
  | node :: nodes => linesAt indent node ++ linesAllAt indent nodes
end

def lines (node : Node) : List String := linesAt 0 node

def dump (node : Node) : String := "\n".intercalate node.lines

mutual
/-- the paths of a tree that hangs below the nodes named `above` -/
def pathsBelow (above : List String) : Node → List (List String)
  | mk _ name children => (above ++ [name]) :: pathsAllBelow (above ++ [name]) children
def pathsAllBelow (above : List String) : List Node → List (List String)
  | [] => []
  | node :: nodes => pathsBelow above node ++ pathsAllBelow above nodes
end

def paths (node : Node) : List String := (pathsBelow [] node).map pathText

def pairs (node : Node) : List (Node × Option Node) := pairUp node.children

theorem linesAllAt_eq (indent : Nat) (nodes : List Node) :
    linesAllAt indent nodes = nodes.flatMap (linesAt indent) := by
  induction nodes with
  | nil => rfl
  | cons node nodes ih => simp [linesAllAt, ih]

theorem pathsAllBelow_eq (above : List String) (nodes : List Node) :
    pathsAllBelow above nodes = nodes.flatMap (pathsBelow above) := by
  induction nodes with
  | nil => rfl
  | cons node nodes ih => simp [pathsAllBelow, ih]

end Node

end DocTypes
