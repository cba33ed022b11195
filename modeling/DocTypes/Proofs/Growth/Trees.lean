import DocTypes.Proofs.Growth.Nodes
import DocTypes.Proofs.Lowering.Exposed
import DocTypes.Proofs.Piece.Spans

/-!
# What holds of all nodes of a tree

What holds of the root of a tree and of all nodes below it is shown for a reading piece by piece.
The nodes that a piece is not named by, which stand for what is missing or for several types at
once, are the same few for all pieces.

* `Node.All`             something holds of all nodes of a tree;
* `Node.Supplied`        it holds of the nodes that no token names;
* `Node.Supplied.oneOf`  then of what several trees come to;
* `Node.Supplied.params`, `Node.Supplied.result`  and of the parameters and the result of a
  function, if it holds of the trees of the spans inside.
-/

namespace DocTypes

namespace Node

theorem mem_postorderAll {n : Node} {nodes : List Node} (h : n ∈ postorderAll nodes) :
    ∃ node ∈ nodes, n ∈ node.postorder := by
  induction nodes with
  | nil => cases h
  | cons node nodes ih =>
    rw [postorderAll, List.mem_append] at h
    rcases h with hnode | hnodes
    · exact ⟨node, List.mem_cons_self, hnode⟩
    · obtain ⟨other, hother, hn⟩ := ih hnodes
      exact ⟨other, List.mem_cons_of_mem _ hother, hn⟩

/-- `P` holds of all nodes of a tree, the root included -/
def All (P : Node → Prop) (node : Node) : Prop := ∀ n ∈ node.postorder, P n

section
variable {P : Node → Prop}

theorem all_mk {kind : Kind} {name : String} {children : List Node}
    (h : P (mk kind name children)) (hbelow : ∀ c ∈ children, c.All P) :
    (mk kind name children).All P := by
  intro n hn
  rw [postorder, List.mem_append, List.mem_singleton] at hn
  rcases hn with hn | rfl
  · obtain ⟨child, hchild, hn⟩ := mem_postorderAll hn
    exact hbelow child hchild n hn
  · exact h

theorem all_leaf {name : String} (h : P (leaf name)) : (leaf name).All P := all_mk h nofun

/-- `P` holds of the nodes that no token names: of `any`, of `void`, and of a union -/
structure Supplied (P : Node → Prop) : Prop where
  any : P any
  void : P (leaf "void")
  union : ∀ nodes, P (unionOf nodes)

variable (hP : Supplied P)
include hP

theorem Supplied.oneOf {nodes : List Node} (h : ∀ node ∈ nodes, node.All P) :
    (oneOf nodes).All P := by
  unfold Node.oneOf
  split
  · exact all_leaf hP.any
  · exact h _ (List.mem_singleton.2 rfl)
  · exact all_mk (hP.union nodes) h

variable {inner : List Token → List Node}

theorem Supplied.params {params : List Token}
    (h : ∀ span ∈ (splitCommas params).map paramType, ∀ node ∈ inner span, node.All P) :
    ∀ node ∈ paramsNodes inner params, node.All P := by
  intro node hnode
  obtain ⟨param, hparam, hnode⟩ := List.mem_flatMap.1 hnode
  obtain rfl := List.mem_singleton.1 hnode
  exact hP.oneOf (h _ (List.mem_map_of_mem hparam))

theorem Supplied.result {result : Tail}
    (h : ∀ span ∈ result.spans, ∀ node ∈ inner span, node.All P) :
    (result.resultNode inner).All P := by
  cases result with
  | absent => exact all_leaf hP.void
  | unclosed first => exact all_leaf hP.any
  | span tokens => exact hP.oneOf (h tokens (List.mem_singleton.2 rfl))

end

end Node

theorem Tail.forall_argumentNodes {P : Node → Prop} {inner : List Token → List Node} {args : Tail}
    (h : ∀ span ∈ args.spans, ∀ node ∈ inner span, P node) :
    ∀ node ∈ args.argumentNodes inner, P node := by
  cases args with
  | absent => nofun
  | unclosed first => nofun
  | span tokens => exact h tokens (List.mem_singleton.2 rfl)

end DocTypes
