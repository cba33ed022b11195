/-!
# Trees of type expressions

A type expression is understood as a tree.  A node has a kind, a name and its children in order:

* `generic`    `Foo.<X, Y>`; the children are the arguments;
* `union`      `(a|b|c)`; the alternatives;
* `function`   `function(a): r`; the parameters, then the result;
* `tuple`      reserved, no expression has it;
* `plain`      a type that is only a name;
* `record`     `{a: b, c: d}`; key and value nodes by turns;
* `reference`  `module:foo/bar~Baz`; the name is the path of the module, the children are the
  arguments, and the qualifier, if any, selects a member of the module.

Two trees are equal if they agree in all of this at every position.
-/

namespace DocTypes

inductive Kind where
  | generic | union | function | tuple | plain | record
  | reference (qualifier : Option String)
  deriving DecidableEq, Repr

namespace Kind

def label : Kind → String
  | generic => "GENERIC"
  | union => "UNION"
  | function => "FUNCTION"
  | tuple => "TUPLE"
  | plain => "TYPE"
  | record => "OBJECT"
  | reference _ => "MODULE"

def ofLabel? : String → Option Kind
  | "GENERIC" => some generic
  | "UNION" => some union
  | "FUNCTION" => some function
  | "TUPLE" => some tuple
  | "TYPE" => some plain
  | "OBJECT" => some record
  | "MODULE" => some (reference none)
  | _ => none

/-- the member of a module that a reference selects -/
def qualifier? : Kind → Option String
  | reference qualifier => qualifier
  | _ => none

end Kind

inductive Node where
  | mk (kind : Kind) (name : String) (children : List Node)
  deriving Repr

namespace Node

def kind : Node → Kind
  | mk k _ _ => k

def name : Node → String
  | mk _ n _ => n

def children : Node → List Node
  | mk _ _ cs => cs

@[simp] theorem children_mk (k : Kind) (n : String) (cs : List Node) :
    (mk k n cs).children = cs := rfl

/-- a type that is only a name -/
def leaf (name : String) : Node := mk .plain name []

/-- the type that stands where none could be made out -/
def any : Node := leaf "any"

instance : Inhabited Node := ⟨any⟩

/-- several types side by side -/
def unionOf (nodes : List Node) : Node := mk .union "Union" nodes

mutual
def decEq : (a b : Node) → Decidable (a = b)
  | mk k n cs, mk l m ds =>
    have := decEqAll cs ds
    decidable_of_iff (k = l ∧ n = m ∧ cs = ds) (by simp)
termination_by structural a => a
def decEqAll : (as bs : List Node) → Decidable (as = bs)
  | [], [] => isTrue rfl
  | [], _ :: _ => isFalse nofun
  | _ :: _, [] => isFalse nofun
  | a :: as, b :: bs =>
    have := decEq a b
    have := decEqAll as bs
    decidable_of_iff (a = b ∧ as = bs) (by simp)
termination_by structural as => as
end

instance : DecidableEq Node := decEq

/-- a property that passes from the children to their node holds of every tree -/
@[elab_as_elim]
theorem inductionOn {motive : Node → Prop} (node : Node)
    (mk : ∀ kind name children, (∀ c ∈ children, motive c) → motive (mk kind name children)) :
    motive node :=
  match node with
  | .mk kind name children => mk kind name children fun c _ => inductionOn c mk
termination_by node

end Node

end DocTypes
