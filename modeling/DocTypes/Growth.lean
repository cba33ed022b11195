import DocTypes.Config
import DocTypes.Growth.Flaw
import DocTypes.Node

/-!
# What a span adds to a node

Reading a span of tokens adds nodes to the children of a node.  A strict reading halts at its first
warning, and the nodes added until then stay.

* `Growth`          the nodes added, the journal, and what the reading halted with, if it did;
* `a ++ b`          first `a`, then `b` unless `a` halted;
* `Growth.under`    all nodes put below one new node;
* `Growth.warn`     a warning, which adds nothing; `Growth.degrade` adds `any` after it;
* `Growth.unit`     all nodes made into one: several become a union, none becomes `any`.
-/

namespace DocTypes

structure Growth where
  nodes : List Node
  journal : List Entry
  halt : Option Rejection

/-- the expression that is read, and the configuration it is read with -/
structure Scope where
  source : String
  config : Config

namespace Growth

def empty : Growth := ⟨[], [], none⟩

def add (node : Node) : Growth := ⟨[node], [], none⟩

def append (a b : Growth) : Growth :=
  match a.halt with
  | some _ => a
  | none => ⟨a.nodes ++ b.nodes, a.journal ++ b.journal, b.halt⟩

instance : Append Growth := ⟨append⟩

/-- one growth after the other -/
def chain (gs : List Growth) : Growth := gs.foldr (· ++ ·) empty

def under (g : Growth) (kind : Kind) (name : String) : Growth :=
  { g with nodes := [.mk kind name g.nodes] }

def warn (scope : Scope) (flaw : Flaw) : Growth :=
  let w := flaw.warning scope.source
  if scope.config.strict then ⟨[], [], some w.rejection⟩ else ⟨[], [.warning w], none⟩

/-- a warning, and `any` in the place of what it is about -/
def degrade (scope : Scope) (flaw : Flaw) : Growth := warn scope flaw ++ add .any

/-- the one type that a span stands for, given what the span adds; of a halted reading nothing is
kept -/
def unit (scope : Scope) (span : List Token) (g : Growth) : Growth :=
  match g.halt, g.nodes with
  | some r, _ => ⟨[], g.journal, some r⟩
  | none, [] => g ++ degrade scope (.typeless (Token.joined span))
  | none, [_] => g
  | none, nodes => { g with nodes := [.unionOf nodes] }

theorem append_def (a b : Growth) :
    a ++ b = match a.halt with
      | some _ => a
      | none => ⟨a.nodes ++ b.nodes, a.journal ++ b.journal, b.halt⟩ := rfl

theorem empty_append (g : Growth) : empty ++ g = g := rfl

theorem append_empty (g : Growth) : g ++ empty = g := by
  rcases g with ⟨nodes, journal, _ | r⟩ <;> simp [append_def, empty]

theorem append_assoc (a b c : Growth) : a ++ b ++ c = a ++ (b ++ c) := by
  rcases a with ⟨na, ja, _ | ra⟩
  · rcases b with ⟨nb, jb, _ | rb⟩ <;> simp [append_def]
  · simp [append_def]

theorem chain_nil : chain [] = empty := rfl

theorem chain_cons (g : Growth) (gs : List Growth) : chain (g :: gs) = g ++ chain gs := rfl

end Growth

end DocTypes
