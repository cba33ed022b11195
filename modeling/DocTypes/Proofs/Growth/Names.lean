import DocTypes.Proofs.Growth.Along
import DocTypes.Proofs.Growth.Trees

/-!
# Names in the trees that are read

The words of an expression hold no marks and have no blanks at their ends, and neither have most of
the names in its tree.  Only the names of generic types and of modules are cut and put together:
the first from the word before their own arguments, the second from all tokens of their path.

* `Node.Clean`        a name and a qualifier such as words are;
* `Node.Neat`         what is so of every name, wherever blanks and marks stand in the expression;
* `NamedAlong.neat`   the nodes along a span have such names;
* `ofText_named`      the tree of an expression is the one whose names lie along its tokens.
-/

namespace DocTypes

open Text (isBlank)

namespace Node

/-- name and qualifier could stand as words between marks -/
def Clean (n : Node) : Prop := IsWord n.name ∧ ∀ q ∈ n.kind.qualifier?, IsWord q

instance : DecidablePred Clean := fun _ => inferInstanceAs (Decidable (_ ∧ _))

/-- no blank is in front of the name; it is a word, but for a generic type and for a module -/
def Neat : Node → Prop
  | mk .generic name _ =>
    (∀ c ∈ name.toList, Mark.ofChar? c = none) ∧ ∀ c ∈ name.toList.head?, isBlank c = false
  | mk (.reference qualifier) name _ =>
    '~' ∉ name.toList ∧ (∃ c ∈ name.toList.head?, isBlank c = false) ∧ qualifier ≠ some ""
  | mk _ name _ => IsWord name

theorem supplied_neat : Supplied Neat where
  any := show IsWord "any" by decide
  void := show IsWord "void" by decide
  union _ := show IsWord "Union" by decide

end Node

open Node (Neat all_mk all_leaf supplied_neat)

/-! ## the nodes along a span -/

section
variable {inner : List Token → List Node → Prop}
  (hinner : ∀ span nodes, inner span nodes → ∀ node ∈ nodes, node.All Neat)
include hinner

theorem OneAlong.neat {span : List Token} {node : Node} (h : OneAlong inner span node) :
    node.All Neat := by
  obtain ⟨h⟩ := h
  exact supplied_neat.oneOf (hinner _ _ h)

theorem FieldAlong.neat {field : Field} {nodes : List Node} (h : FieldAlong inner field nodes) :
    ∀ node ∈ nodes, node.All Neat := by
  cases h with
  | nameless => nofun
  | untyped hkey =>
    exact List.forall_mem_cons.2
      ⟨all_leaf hkey, List.forall_mem_singleton.2 (all_leaf supplied_neat.any)⟩
  | typed hkey hvalue =>
    exact List.forall_mem_cons.2
      ⟨all_leaf hkey, List.forall_mem_singleton.2 (hvalue.neat hinner)⟩

theorem ResultAlong.neat {result : Tail} {node : Node} (h : ResultAlong inner result node) :
    node.All Neat := by
  cases h with
  | absent => exact all_leaf supplied_neat.void
  | unclosed => exact all_leaf supplied_neat.any
  | span h => exact h.neat hinner

theorem ArgumentsAlong.neat {args : Tail} {nodes : List Node}
    (h : ArgumentsAlong inner args nodes) : ∀ node ∈ nodes, node.All Neat := by
  cases h with
  | absent => nofun
  | unclosed => nofun
  | span h => exact hinner _ _ h

end

theorem exists_of_forall₂ {α β : Type} {R : α → β → Prop} {as : List α} {bs : List β}
    (h : List.Forall₂ R as bs) {b : β} (hb : b ∈ bs) : ∃ a, R a b := by
  induction h with
  | nil => cases hb
  | cons hab _ ih =>
    rcases List.mem_cons.1 hb with rfl | hb
    · exact ⟨_, hab⟩
    · exact ih hb

theorem NodesAlong.neat {inner : List Token → List Node → Prop}
    (hinner : ∀ span nodes, inner span nodes → ∀ node ∈ nodes, node.All Neat) {span : List Token}
    {nodes : List Node} (h : NodesAlong inner span nodes) : ∀ node ∈ nodes, node.All Neat := by
  induction h with
  | nil => nofun
  | mark _ _ _ ih => exact ih
  | plain _ hname _ ih => exact List.forall_mem_cons.2 ⟨all_leaf hname, ih⟩
  | dotted _ _ _ ih => exact List.forall_mem_cons.2 ⟨all_leaf supplied_neat.any, ih⟩
  | generic hname _ hargs _ ih =>
    exact List.forall_mem_cons.2 ⟨all_mk ⟨hname.unmarked, hname.head⟩ (hinner _ _ hargs), ih⟩
  | group _ hbody _ ih =>
    exact List.forall_mem_cons.2 ⟨all_mk (supplied_neat.union _) (hinner _ _ hbody), ih⟩
  | record _ hfields _ ih =>
    have hname : IsWord "Object" := by decide
    refine List.forall_mem_cons.2 ⟨all_mk hname fun node hnode => ?_, ih⟩
    obtain ⟨part, hpart, hnode⟩ := List.mem_flatten.1 hnode
    obtain ⟨tokens, hfield⟩ := exists_of_forall₂ hfields hpart
    exact hfield.neat hinner node hnode
  | function _ hname _ hparams hresult _ ih =>
    refine List.forall_mem_cons.2 ⟨all_mk hname (List.forall_mem_append.2 ⟨?_, ?_⟩), ih⟩
    · intro node hnode
      obtain ⟨tokens, hparam⟩ := exists_of_forall₂ hparams hnode
      exact hparam.neat hinner
    · exact List.forall_mem_singleton.2 (hresult.neat hinner)
  | reference _ hname hargs =>
    exact List.forall_mem_singleton.2
      (all_mk ⟨hname.tilde, hname.head, hname.member⟩ (hargs.neat hinner))
  | unread => exact List.forall_mem_singleton.2 (all_leaf supplied_neat.any)

theorem NamedAlong.neat {levels : Nat} {span : List Token} {nodes : List Node}
    (h : NamedAlong levels span nodes) : ∀ node ∈ nodes, node.All Neat := by
  induction levels generalizing span nodes with
  | zero =>
    rw [show nodes = [.any] from h]
    exact List.forall_mem_singleton.2 (all_leaf supplied_neat.any)
  | succ levels ih =>
    refine NodesAlong.neat ?_ h
    exact fun _ _ => ih

/-! ## expressions -/

/-- the tree of an expression is the only one whose names lie along its tokens, whatever the
expression and the levels allowed -/
theorem ofText_named {config : Config} (hlenient : config.strict = false) (text : String) :
    ∃ root, (Node.ofText config text).outcome = .ok root ∧
      (∀ node, OneAlong (NamedAlong (config.levels 0)) (tokenize text) node ↔ node = root) ∧
      ∀ n ∈ root.postorder, n.Neat := by
  have hwords := (canonical_tokenize text).worded
  have halong := namedAlong_spanNodes (config.levels 0) hwords
  refine ⟨_, Node.ofText_lenient hlenient text, fun node => ⟨fun hnode => ?_, ?_⟩,
    supplied_neat.oneOf halong.neat⟩
  · exact hnode.eq_oneOf fun _ _ h => h.eq_spanNodes
  · rintro rfl
    exact .mk halong

/-- a path of several tokens, with a member and a dot behind it -/
theorem ofText_named_of_path :
    let text := "Foo.<module:a|b~c.<x>, (y)>"
    let root : Node := .mk .generic "Foo" [.mk (.reference (some "c")) "a|b" [.leaf "x"]]
    (Node.ofText { maxDepth := 2 } text).outcome = .ok root ∧
      (∀ node, OneAlong (NamedAlong 3) (tokenize text) node ↔ node = root) ∧
      ∀ n ∈ root.postorder, n.Neat := by
  intro text root
  have htree : (Node.ofText { maxDepth := 2 } text).outcome = .ok root := by decide +kernel
  obtain ⟨_, htree', hnamed⟩ := @ofText_named { maxDepth := 2 } rfl text
  obtain rfl := Except.ok.inj (htree.symm.trans htree')
  exact ⟨htree, hnamed⟩

/-- a blank before a dot, blanks beside a tilde, and marks in a path get into the names -/
theorem not_clean_of_path :
    let root : Node := .unionOf [.mk .generic "Foo " [.mk (.reference (some " c:d ")) "a|b " []],
      .mk .generic "" [.leaf "x"]]
    (Node.ofText {} "Foo .<module:a|b ~ c:d .>, .<x>").outcome = .ok root ∧
      root.postorder.filter (·.Clean) = [.leaf "x", root] ∧ ¬∀ n ∈ root.postorder, n.Clean := by
  decide +kernel

end DocTypes
