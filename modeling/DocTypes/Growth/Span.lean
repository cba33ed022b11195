import DocTypes.Growth
import DocTypes.Node.Listing
import DocTypes.Run
import DocTypes.Token.Lexer

/-!
# Reading an expression as a tree

Each piece of a span adds the node of its type to the parent of the span; the spans inside its
brackets are read one level deeper and add to that node.  What is malformed is repaired on the
spot: a warning tells of it, and `any` takes the place of a type that cannot be made out.

* `Piece.growth`   what one piece adds, given what the spans inside it add;
* `spanGrowth`     what a span adds that may still nest a number of levels deep;
* `Node.ofText`    the tree of an expression.

A bracket nested deeper than the configuration allows is not read at all.
-/

namespace DocTypes

open Growth (add warn degrade chain)

namespace Scope

/-- the one type of a record value, of a parameter or of a result -/
def unit (scope : Scope) (inner : List Token → Growth) (span : List Token) : Growth :=
  (inner span).unit scope span

def field (scope : Scope) (inner : List Token → Growth) : Field → Growth
  | .nameless => warn scope .namelessField
  | .untyped key => add (.leaf key) ++ degrade scope (.untypedField key)
  | .typed key value => add (.leaf key) ++ scope.unit inner value

def result (scope : Scope) (inner : List Token → Growth) : Tail → Growth
  | .absent => add (.leaf "void")
  | .unclosed first => degrade scope (.unclosedResult first)
  | .span tokens => scope.unit inner tokens

def arguments (scope : Scope) (inner : List Token → Growth) (path : String) : Tail → Growth
  | .absent => .empty
  | .unclosed _ => warn scope (.unclosedArguments path)
  | .span tokens => inner tokens

/-- the fields of a record -/
def fields (scope : Scope) (inner : List Token → Growth) (body : List Token) : Growth :=
  chain ((splitCommas body).map fun tokens => scope.field inner (Field.ofTokens tokens))

/-- the parameters of a function -/
def params (scope : Scope) (inner : List Token → Growth) (tokens : List Token) : Growth :=
  chain ((splitCommas tokens).map fun tokens => scope.unit inner (paramType tokens))

end Scope

def Piece.growth (scope : Scope) (inner : List Token → Growth) : Piece → Growth
  | .plain name => add (.leaf name)
  | .generic name args => (inner args).under .generic name
  | .group body => (inner body).under .union "Union"
  | .record body => (scope.fields inner body).under .record "Object"
  | .function name params result =>
    (scope.params inner params ++ scope.result inner result).under .function name
  | .reference path qualifier args =>
    (scope.arguments inner path args).under (.reference qualifier) path
  | .pathless => degrade scope .pathless
  | .separator => .empty
  | .stray m => warn scope (.stray m)
  | .unclosed fragment b => degrade scope (.unclosed fragment b)

/-- what a span adds if `levels` levels of brackets may still be opened, its own included -/
def spanGrowth (scope : Scope) : Nat → List Token → Growth
  | 0, _ => degrade scope (.tooDeep scope.config.maxDepth)
  | levels + 1, tokens => chain ((pieces tokens).map (Piece.growth scope (spanGrowth scope levels)))

/-- how many levels of brackets may be opened `depth` levels deep -/
def Config.levels (config : Config) (depth : Int) : Nat := (config.maxDepth - depth + 1).toNat

/-- the first node that was added -/
def Growth.root (g : Growth) : Run Node :=
  ⟨g.journal, match g.halt with
    | some r => .error (.rejected r)
    | none => .ok (g.nodes.headD .any)⟩

def Node.ofText (config : Config) (text : String) : Run Node :=
  match tokenize text with
  | [] => do
    Run.warn config.strict (Flaw.blank.warning text)
    pure .any
  | tokens => do
    let scope : Scope := ⟨text, config⟩
    let root ← (scope.unit (spanGrowth scope (config.levels 0)) tokens).root
    Run.trace ("built tree for '" ++ text ++ "':\n" ++ root.dump)
    pure root

end DocTypes
