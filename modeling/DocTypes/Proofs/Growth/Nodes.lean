import DocTypes.Proofs.Lowering.Strict

/-!
# The nodes that a lenient reading adds

A lenient reading never halts, and its warnings do not bear on the nodes that it adds.  These are
said here once more without the journal, as lists, so that what is asked of a tree alone can be
answered piece by piece.

* `Node.oneOf`            the one node that several come to;
* `Piece.nodes`           what a piece adds, given what the spans inside it add;
* `spanNodes`             what a span adds that may still nest a number of levels deep;
* `Growth.Adds`           a growth that was not halted and adds these nodes;
* `spanGrowth_adds`       a lenient reading of a span adds `spanNodes`;
* `Node.ofText_lenient`   the tree of an expression.
-/

namespace DocTypes

namespace Node

/-- a union of several nodes, or `any` in the place of none -/
def oneOf : List Node → Node
  | [] => any
  | [node] => node
  | nodes => unionOf nodes

end Node

/-! ## what is added -/

section
variable (inner : List Token → List Node)

def Field.nodes : Field → List Node
  | nameless => []
  | untyped key => [.leaf key, .any]
  | typed key value => [.leaf key, .oneOf (inner value)]

def Tail.resultNode : Tail → Node
  | absent => .leaf "void"
  | unclosed _ => .any
  | span tokens => .oneOf (inner tokens)

def Tail.argumentNodes : Tail → List Node
  | span tokens => inner tokens
  | absent | unclosed _ => []

def fieldsNodes (body : List Token) : List Node :=
  (splitCommas body).flatMap fun tokens => (Field.ofTokens tokens).nodes inner

def paramsNodes (params : List Token) : List Node :=
  (splitCommas params).flatMap fun tokens => [.oneOf (inner (paramType tokens))]

def Piece.nodes : Piece → List Node
  | plain name => [.leaf name]
  | generic name args => [.mk .generic name (inner args)]
  | group body => [.mk .union "Union" (inner body)]
  | record body => [.mk .record "Object" (fieldsNodes inner body)]
  | function name params result =>
    [.mk .function name (paramsNodes inner params ++ [result.resultNode inner])]
  | reference path qualifier args => [.mk (.reference qualifier) path (args.argumentNodes inner)]
  | pathless | unclosed _ _ => [.any]
  | separator | stray _ => []

end

def spanNodes : Nat → List Token → List Node
  | 0, _ => [.any]
  | levels + 1, tokens => (pieces tokens).flatMap (Piece.nodes (spanNodes levels))

/-! ## growths that add it -/

namespace Growth

structure Adds (g : Growth) (nodes : List Node) : Prop where
  halt : g.halt = none
  nodes_eq : g.nodes = nodes

theorem adds_empty : empty.Adds [] := ⟨rfl, rfl⟩

theorem adds_add (node : Node) : (add node).Adds [node] := ⟨rfl, rfl⟩

section
variable {scope : Scope} {a b g : Growth} {nodes nodes' : List Node}

theorem Adds.append (ha : a.Adds nodes) (hb : b.Adds nodes') : (a ++ b).Adds (nodes ++ nodes') := by
  rw [append_of_unhalted ha.halt]
  refine ⟨hb.halt, ?_⟩
  show a.nodes ++ b.nodes = nodes ++ nodes'
  rw [ha.nodes_eq, hb.nodes_eq]

theorem adds_chain {ι : Type} {xs : List ι} {f : ι → Growth} {nodesOf : ι → List Node}
    (h : ∀ x, (f x).Adds (nodesOf x)) : (chain (xs.map f)).Adds (xs.flatMap nodesOf) := by
  induction xs with
  | nil => exact adds_empty
  | cons x xs ih =>
    rw [List.map_cons, chain_cons, List.flatMap_cons]
    exact (h x).append ih

theorem Adds.under (h : g.Adds nodes) (kind : Kind) (name : String) :
    (g.under kind name).Adds [.mk kind name nodes] := by
  refine ⟨h.halt, ?_⟩
  show [Node.mk kind name g.nodes] = _
  rw [h.nodes_eq]

theorem adds_warn (hlenient : scope.config.strict = false) (flaw : Flaw) :
    (warn scope flaw).Adds [] := by
  unfold warn
  rw [hlenient]
  exact ⟨rfl, rfl⟩

theorem adds_degrade (hlenient : scope.config.strict = false) (flaw : Flaw) :
    (degrade scope flaw).Adds [.any] := (adds_warn hlenient flaw).append (adds_add .any)

theorem Adds.unit (hlenient : scope.config.strict = false) (h : g.Adds nodes)
    (span : List Token) : (g.unit scope span).Adds [.oneOf nodes] := by
  obtain ⟨hhalt, rfl⟩ := h
  rw [unit_of_unhalted hhalt]
  cases hnodes : g.nodes with
  | nil =>
    have hempty : g.Adds [] := ⟨hhalt, hnodes⟩
    exact hempty.append (adds_degrade hlenient _)
  | cons node more =>
    cases more with
    | nil => exact ⟨hhalt, hnodes⟩
    | cons next more => exact ⟨hhalt, rfl⟩

end

end Growth

/-! ## pieces and spans -/

open Growth (adds_empty adds_add adds_chain adds_warn adds_degrade)

section
variable {scope : Scope} (hlenient : scope.config.strict = false)
  {inner : List Token → Growth} {nodes : List Token → List Node}
  (hinner : ∀ tokens, (inner tokens).Adds (nodes tokens))
include hlenient hinner

theorem unit_adds (tokens : List Token) :
    (scope.unit inner tokens).Adds [.oneOf (nodes tokens)] :=
  (hinner tokens).unit hlenient tokens

theorem field_adds (field : Field) : (scope.field inner field).Adds (field.nodes nodes) := by
  cases field with
  | nameless => exact adds_warn hlenient _
  | untyped key => exact (adds_add _).append (adds_degrade hlenient _)
  | typed key value => exact (adds_add _).append (unit_adds hlenient hinner value)

theorem result_adds (result : Tail) :
    (scope.result inner result).Adds [result.resultNode nodes] := by
  cases result with
  | absent => exact adds_add _
  | unclosed first => exact adds_degrade hlenient _
  | span tokens => exact unit_adds hlenient hinner tokens

theorem arguments_adds (path : String) (args : Tail) :
    (scope.arguments inner path args).Adds (args.argumentNodes nodes) := by
  cases args with
  | absent => exact adds_empty
  | unclosed first => exact adds_warn hlenient _
  | span tokens => exact hinner tokens

theorem params_adds (params : List Token) :
    (scope.params inner params).Adds (paramsNodes nodes params) :=
  adds_chain fun tokens => unit_adds hlenient hinner (paramType tokens)

theorem Piece.growth_adds (piece : Piece) :
    (piece.growth scope inner).Adds (piece.nodes nodes) := by
  cases piece with
  | plain name => exact adds_add _
  | generic name args => exact (hinner args).under _ _
  | group body => exact (hinner body).under _ _
  | record body =>
    have hfields : (scope.fields inner body).Adds (fieldsNodes nodes body) :=
      adds_chain fun tokens => field_adds hlenient hinner (.ofTokens tokens)
    exact hfields.under _ _
  | function name params result =>
    have hparams := params_adds hlenient hinner params
    exact (hparams.append (result_adds hlenient hinner result)).under _ _
  | reference path qualifier args => exact (arguments_adds hlenient hinner path args).under _ _
  | pathless => exact adds_degrade hlenient _
  | separator => exact adds_empty
  | stray m => exact adds_warn hlenient _
  | unclosed fragment b => exact adds_degrade hlenient _

end

theorem spanGrowth_adds {scope : Scope} (hlenient : scope.config.strict = false) (levels : Nat)
    (tokens : List Token) : (spanGrowth scope levels tokens).Adds (spanNodes levels tokens) := by
  induction levels generalizing tokens with
  | zero => exact adds_degrade hlenient _
  | succ levels ih => exact adds_chain fun piece => piece.growth_adds hlenient ih

/-! ## whole expressions -/

theorem oneOf_spanNodes_nil (levels : Nat) : Node.oneOf (spanNodes levels []) = .any := by
  cases levels with
  | zero => rfl
  | succ levels => rw [spanNodes, pieces, List.flatMap_nil, Node.oneOf]

theorem Node.ofText_lenient {config : Config} (hlenient : config.strict = false) (text : String) :
    (ofText config text).outcome
      = .ok (oneOf (spanNodes (config.levels 0) (tokenize text))) := by
  by_cases hblank : tokenize text = []
  · rw [ofText_blank config hblank, hblank, oneOf_spanNodes_nil]
    unfold Run.warn
    rw [hlenient]
    rfl
  · have hadds : (wholeGrowth config text).Adds
        [.oneOf (spanNodes (config.levels 0) (tokenize text))] :=
      unit_adds hlenient (spanGrowth_adds hlenient (config.levels 0)) (tokenize text)
    rw [ofText_tokens config hblank, Growth.root_of_unhalted hadds.halt, hadds.nodes_eq]
    rfl

end DocTypes
