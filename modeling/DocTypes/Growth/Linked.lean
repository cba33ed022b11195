import DocTypes.Growth.Span
import DocTypes.Node.Graph

/-!
# Reading an expression into linked nodes

An expression can also be read into nodes that know their parents.  A piece of a span makes its
node below the node of the span, and the spans inside its brackets are read into that new node.
Where one type is wanted, its span is read into a node of its own: if that gets a single child, the
child is taken out again, and put below another node later on.

* `Piece.plant`    what one piece does to the nodes made so far;
* `spanInto`       reads a span into a node;
* `Graph.ofText`   the nodes of an expression, and the place of their root.
-/

namespace DocTypes

/-- how the spans inside a bracket are read into the node at a place -/
abbrev Planting := Nat → List Token → Graph → Run Graph

namespace Scope

variable (scope : Scope)

def report (flaw : Flaw) : Run Unit :=
  Run.warn scope.config.strict (flaw.warning scope.source)

/-- a warning, and `any` below the node at `parent` -/
def degradeInto (parent : Nat) (flaw : Flaw) (g : Graph) : Run Graph := do
  scope.report flaw
  pure (g.sprout parent .plain "any").1

/-- one node for the children of `holder`, into which a span was read; it is below no other -/
def settle (span : List Token) (holder : Nat) (g : Graph) : Run (Graph × Nat) :=
  match g.childrenAt holder with
  | [] => do
    scope.report (.typeless (Token.joined span))
    pure (g.fresh .plain "any")
  | [only] => pure (g.release only, only)
  | _ => pure (g, holder)

/-- the node of the one type that a span stands for -/
def plantUnit (inner : Planting) (span : List Token) (g : Graph) : Run (Graph × Nat) := do
  let (g, holder) := g.fresh .union "Union"
  let g ← inner holder span g
  scope.settle span holder g

/-- the same node, put below the node at `parent` -/
def unitInto (inner : Planting) (parent : Nat) (span : List Token) (g : Graph) : Run Graph := do
  let (g, child) ← scope.plantUnit inner span g
  pure (g.adoptAt parent child)

def fieldInto (inner : Planting) (record : Nat) (g : Graph) : Field → Run Graph
  | .nameless => do
    scope.report .namelessField
    pure g
  | .untyped key => scope.degradeInto record (.untypedField key) (g.sprout record .plain key).1
  | .typed key value => scope.unitInto inner record value (g.sprout record .plain key).1

def fieldsInto (inner : Planting) (record : Nat) (body : List Token) (g : Graph) : Run Graph :=
  (splitCommas body).foldlM (fun g tokens => scope.fieldInto inner record g (.ofTokens tokens)) g

def paramsInto (inner : Planting) (function : Nat) (params : List Token) (g : Graph) : Run Graph :=
  (splitCommas params).foldlM (fun g tokens => scope.unitInto inner function (paramType tokens) g) g

def resultInto (inner : Planting) (function : Nat) (g : Graph) : Tail → Run Graph
  | .absent => pure (g.sprout function .plain "void").1
  | .unclosed first => scope.degradeInto function (.unclosedResult first) g
  | .span tokens => scope.unitInto inner function tokens g

def argumentsInto (inner : Planting) (reference : Nat) (path : String) (g : Graph) :
    Tail → Run Graph
  | .absent => pure g
  | .unclosed _ => do
    scope.report (.unclosedArguments path)
    pure g
  | .span tokens => inner reference tokens g

end Scope

def Piece.plant (scope : Scope) (inner : Planting) (parent : Nat) (g : Graph) : Piece → Run Graph
  | .plain name => pure (g.sprout parent .plain name).1
  | .generic name args =>
    let (g, node) := g.sprout parent .generic name
    inner node args g
  | .group body =>
    let (g, node) := g.sprout parent .union "Union"
    inner node body g
  | .record body =>
    let (g, node) := g.sprout parent .record "Object"
    scope.fieldsInto inner node body g
  | .function name params result => do
    let (g, node) := g.sprout parent .function name
    let g ← scope.paramsInto inner node params g
    scope.resultInto inner node g result
  | .reference path qualifier args =>
    let (g, node) := g.sprout parent (.reference qualifier) path
    scope.argumentsInto inner node path g args
  | .pathless => scope.degradeInto parent .pathless g
  | .separator => pure g
  | .stray m => do
    scope.report (.stray m)
    pure g
  | .unclosed fragment b => scope.degradeInto parent (.unclosed fragment b) g

/-- a span read into the node at a place, if `levels` levels of brackets may still be opened -/
def spanInto (scope : Scope) : Nat → Planting
  | 0, parent, _, g => scope.degradeInto parent (.tooDeep scope.config.maxDepth) g
  | levels + 1, parent, tokens, g =>
    (pieces tokens).foldlM (Piece.plant scope (spanInto scope levels) parent) g

def Graph.ofText (config : Config) (text : String) : Run (Graph × Nat) :=
  match tokenize text with
  | [] => do
    Run.warn config.strict (Flaw.blank.warning text)
    pure (Graph.fresh {} .plain "any")
  | tokens => do
    let scope : Scope := ⟨text, config⟩
    let (g, root) ← scope.plantUnit (spanInto scope (config.levels 0)) tokens {}
    let tree := (g.treeAt g.cells.length root).getD .any
    Run.trace ("built tree for '" ++ text ++ "':\n" ++ tree.dump)
    pure (g, root)

end DocTypes
