import DocTypes.Lowering
import DocTypes.Node.Graph

/-!
# Declared types of nodes made by hand

The parent of a node that was made by hand need not be the node whose child it is.  The type of such
a node is made as that of a tree; only the warning of a record key without a value looks upwards,
and shows the names on the way up from the key.

* `Graph.lowerAt`   the type of the tree below a place;
* `Graph.lower?`    the type of the tree below a node.
-/

namespace DocTypes.Graph

/-- the path of the last of some nodes -/
def lastPath (g : Graph) (places : List Nat) : String := places.getLast?.elim "" g.pathAt

/-- the type of the tree below a place, as far as `depth` levels -/
def lowerAt (g : Graph) (strict : Bool) : Nat → Nat → Option (Run TsType)
  | 0, _ => none
  | depth + 1, place =>
    g.cells[place]?.map fun cell => do
      let types ← (cell.children.filterMap (lowerAt g strict depth)).mapM id
      let children := cell.children.filterMap (g.treeAt depth)
      Node.shape strict (fun _ => g.lastPath cell.children) (.mk cell.kind cell.name children) types

def lower? (g : Graph) (strict : Bool) (id : String) : Option (Run TsType) :=
  (g.place? id).bind (g.lowerAt strict g.cells.length)

end DocTypes.Graph
