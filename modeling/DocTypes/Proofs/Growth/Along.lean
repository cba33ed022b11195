import DocTypes.Proofs.Growth.Nodes
import DocTypes.Proofs.Piece.Name
import DocTypes.Proofs.Piece.Spans

/-!
# The nodes along a span

Which nodes a span stands for, and what they are named, is said here by its tokens.  From left to
right, each node takes the tokens of its own piece: its name comes from the word in front of its own
brackets, or for a module from the path behind the colon, and the nodes below it lie along the spans
in its brackets.

* `Alone`                     words that stand for a type by themselves;
* `Unread`                    spans that `any` stands for;
* `NodesAlong`                the nodes along a span, given those along the spans in its brackets;
* `NamedAlong`                the nodes along a span that may nest a number of levels deep;
* `namedAlong_spanNodes`      the nodes that a lenient reading of the span adds lie along it so;
* `NamedAlong.eq_spanNodes`   and no others do.
-/

namespace DocTypes

/-- in front of `rest`, the word `w` has no arguments, no parameters and no path -/
structure Alone (w : String) (rest : List Token) : Prop where
  undotted : endsInDot w.toList = false
  arguments : ∀ more, rest ≠ .mark .lt :: more
  params : isFunctionWord w = true → ∀ more, rest ≠ .mark .lparen :: more
  path : isModuleWord w = true → ∀ more, rest ≠ .mark .colon :: more

/-- a bracket is opened and has no end in the span, or a module has no name -/
inductive Unread : List Token → Prop where
  | arguments (w : String) {rest : List Token} (h : Bracket.angle.interior? rest = none) :
    Unread (.word w :: .mark .lt :: rest)
  | group {rest : List Token} (h : Bracket.paren.interior? rest = none) :
    Unread (.mark .lparen :: rest)
  | record {rest : List Token} (h : Bracket.brace.interior? rest = none) :
    Unread (.mark .lbrace :: rest)
  | params {w : String} (hw : isFunctionWord w = true) {rest : List Token}
      (h : Bracket.paren.interior? rest = none) : Unread (.word w :: .mark .lparen :: rest)
  | path {w : String} (hw : isModuleWord w = true) {rest : List Token}
      (h : (splitPath (Token.joined (pathTokens rest)).toList).1 = []) :
    Unread (.word w :: .mark .colon :: rest)

section
variable (inner : List Token → List Node → Prop)

/-- the one node that stands for a span -/
inductive OneAlong (span : List Token) : Node → Prop where
  | mk {nodes : List Node} (h : inner span nodes) : OneAlong span (.oneOf nodes)

/-- the key of a field and the node of its value -/
inductive FieldAlong : Field → List Node → Prop where
  | nameless : FieldAlong .nameless []
  | untyped {key : String} (hkey : IsWord key) : FieldAlong (.untyped key) [.leaf key, .any]
  | typed {key : String} (hkey : IsWord key) {value : List Token} {node : Node}
      (hvalue : OneAlong inner value node) : FieldAlong (.typed key value) [.leaf key, node]

inductive ResultAlong : Tail → Node → Prop where
  | absent : ResultAlong .absent (.leaf "void")
  | unclosed (first : Token) : ResultAlong (.unclosed first) .any
  | span {tokens : List Token} {node : Node} (h : OneAlong inner tokens node) :
    ResultAlong (.span tokens) node

inductive ArgumentsAlong : Tail → List Node → Prop where
  | absent : ArgumentsAlong .absent []
  | unclosed (first : Token) : ArgumentsAlong (.unclosed first) []
  | span {tokens : List Token} {nodes : List Node} (h : inner tokens nodes) :
    ArgumentsAlong (.span tokens) nodes

/-- the nodes along a span, from left to right; `n` is how many tokens are inside a bracket -/
inductive NodesAlong : List Token → List Node → Prop where
  | nil : NodesAlong [] []
  | mark {m : Mark} (hparen : m ≠ .lparen) (hbrace : m ≠ .lbrace) {rest : List Token}
      {nodes : List Node} (hrest : NodesAlong rest nodes) : NodesAlong (.mark m :: rest) nodes
  | plain {w : String} {rest : List Token} (halone : Alone w rest) (hname : IsWord (plainName w))
      {nodes : List Node} (hrest : NodesAlong rest nodes) :
    NodesAlong (.word w :: rest) (.leaf (plainName w) :: nodes)
  | dotted {w : String} (hw : endsInDot w.toList = true) {rest : List Token}
      (hlt : ∀ more, rest ≠ .mark .lt :: more) {nodes : List Node}
      (hrest : NodesAlong rest nodes) : NodesAlong (.word w :: rest) (.any :: nodes)
  | generic {w name : String} (hname : GenericName w name) {rest : List Token} {n : Nat}
      (hn : Bracket.angle.interior? rest = some n) {children nodes : List Node}
      (hargs : inner (rest.take n) children) (hrest : NodesAlong (rest.drop (n + 1)) nodes) :
    NodesAlong (.word w :: .mark .lt :: rest) (.mk .generic name children :: nodes)
  | group {rest : List Token} {n : Nat} (hn : Bracket.paren.interior? rest = some n)
      {children nodes : List Node} (hbody : inner (rest.take n) children)
      (hrest : NodesAlong (rest.drop (n + 1)) nodes) :
    NodesAlong (.mark .lparen :: rest) (.mk .union "Union" children :: nodes)
  | record {rest : List Token} {n : Nat} (hn : Bracket.brace.interior? rest = some n)
      {parts : List (List Node)} {nodes : List Node}
      (hfields : List.Forall₂ (fun tokens => FieldAlong inner (.ofTokens tokens))
        (splitCommas (rest.take n)) parts)
      (hrest : NodesAlong (rest.drop (n + 1)) nodes) :
    NodesAlong (.mark .lbrace :: rest) (.mk .record "Object" parts.flatten :: nodes)
  | function {w : String} (hw : isFunctionWord w = true) (hname : IsWord w) {rest : List Token}
      {n : Nat} (hn : Bracket.paren.interior? rest = some n) {types nodes : List Node}
      {result : Node}
      (hparams : List.Forall₂ (fun tokens => OneAlong inner (paramType tokens))
        (splitCommas (rest.take n)) types)
      (hresult : ResultAlong inner (resultTail (rest.drop (n + 1))).1 result)
      (hrest : NodesAlong (rest.drop (n + 1 + (resultTail (rest.drop (n + 1))).2)) nodes) :
    NodesAlong (.word w :: .mark .lparen :: rest)
      (.mk .function w (types ++ [result]) :: nodes)
  /-- a module takes up all the rest of the span -/
  | reference {w : String} (hw : isModuleWord w = true) {rest : List Token} {name : String}
      {qualifier : Option String} (hname : TargetName (pathTokens rest) name qualifier)
      {children : List Node} (hargs : ArgumentsAlong inner (pathTail rest) children) :
    NodesAlong (.word w :: .mark .colon :: rest) [.mk (.reference qualifier) name children]
  | unread {span : List Token} (h : Unread span) : NodesAlong span [.any]

end

/-- the nodes along a span in which brackets may be opened `levels` deep -/
def NamedAlong : Nat → List Token → List Node → Prop
  | 0, _, nodes => nodes = [.any]
  | levels + 1, tokens, nodes => NodesAlong (NamedAlong levels) tokens nodes

/-! ## the first piece -/

section
variable {w : String} {rest : List Token}

theorem Piece.first_mark {m : Mark} (hparen : m ≠ .lparen) (hbrace : m ≠ .lbrace) :
    first (.mark m) rest = (if m.isSeparator then separator else stray m, 0) := by
  rw [first]
  · exact (apply_ite (·, 0) ..).symm
  · exact hparen
  · exact hbrace

theorem Piece.first_alone (h : Alone w rest) :
    first (.word w) rest = (plain (plainName w), 0) := by
  rw [first_undotted h.arguments h.undotted]
  fun_cases ofWord w rest with
  | case1 rest hw => exact absurd rfl (h.params hw rest)
  | case3 rest hw => exact absurd rfl (h.path hw rest)
  | case2 | case4 | case5 => rfl

end

theorem not_unread_nil : ¬Unread [] := nofun

/-! ## the nodes of a reading lie along the span -/

section
variable {inner : List Token → List Node → Prop} {nodesOf : List Token → List Node}

/-- what is left behind a piece that takes up all the rest -/
theorem nodesAlong_behind {rest : List Token} {nodes : List Node}
    (h : NodesAlong inner (rest.drop rest.length) nodes) : nodes = [] := by
  rw [List.drop_length] at h
  cases h with
  | nil => rfl
  | unread h => exact absurd h not_unread_nil

/-- a piece with a bracket, which begins with the tokens `front` up to the opening mark -/
theorem nodesAlong_bracketed {b : Bracket} (front : List Token) (fragment : String)
    (make : List Token → Piece) {rest : List Token} {nodes : List Node}
    (hclosed : ∀ n, b.interior? rest = some n → NodesAlong inner (rest.drop (n + 1)) nodes →
      NodesAlong inner (front ++ rest) ((make (rest.take n)).nodes nodesOf ++ nodes))
    (hunclosed : b.interior? rest = none → Unread (front ++ rest)) :
    NodesAlong inner (rest.drop (bracketed b fragment rest make).2) nodes →
    NodesAlong inner (front ++ rest)
      ((bracketed b fragment rest make).1.nodes nodesOf ++ nodes) := by
  intro hrest
  cases hn : b.interior? rest with
  | none =>
    rw [bracketed_unclosed hn] at hrest ⊢
    obtain rfl := nodesAlong_behind hrest
    exact .unread (hunclosed hn)
  | some n =>
    rw [bracketed_of_eq_some hn] at hrest ⊢
    exact hclosed n hn hrest

variable (hinner : ∀ span, Worded span → inner span (nodesOf span))
include hinner

theorem fieldAlong_nodes {tokens : List Token} (hwords : Worded tokens) :
    FieldAlong inner (.ofTokens tokens) ((Field.ofTokens tokens).nodes nodesOf) := by
  cases hfield : Field.ofTokens tokens with
  | nameless => exact .nameless
  | untyped key => exact .untyped (hwords key (Field.ofTokens_eq_untyped hfield))
  | typed key value =>
    rw [Field.ofTokens_eq_typed hfield] at hwords
    exact .typed (hwords key List.mem_cons_self) (.mk (hinner value hwords.tail.tail))

theorem fieldsAlong_nodes {body : List Token} (hwords : Worded body) :
    ∃ parts, List.Forall₂ (fun tokens => FieldAlong inner (.ofTokens tokens)) (splitCommas body)
      parts ∧ parts.flatten = fieldsNodes nodesOf body := by
  refine ⟨(splitCommas body).map fun tokens => (Field.ofTokens tokens).nodes nodesOf, ?_, rfl⟩
  refine List.forall₂_map_right_iff.2 (List.forall₂_same.2 fun tokens htokens => ?_)
  exact fieldAlong_nodes hinner (hwords.of_isInfix (infix_of_mem_splitCommas htokens))

theorem paramsAlong_nodes {params : List Token} (hwords : Worded params) :
    List.Forall₂ (fun tokens => OneAlong inner (paramType tokens)) (splitCommas params)
      (paramsNodes nodesOf params) := by
  rw [paramsNodes, ← List.map_eq_flatMap]
  refine List.forall₂_map_right_iff.2 (List.forall₂_same.2 fun tokens htokens => .mk ?_)
  have hinfix := (paramType_isInfix tokens).trans (infix_of_mem_splitCommas htokens)
  exact hinner _ (hwords.of_isInfix hinfix)

theorem resultAlong_resultNode {result : Tail} (hwords : ∀ span ∈ result.spans, Worded span) :
    ResultAlong inner result (result.resultNode nodesOf) := by
  cases result with
  | absent => exact .absent
  | unclosed first => exact .unclosed first
  | span tokens => exact .span (.mk (hinner tokens (hwords tokens (List.mem_singleton.2 rfl))))

theorem argumentsAlong_argumentNodes {args : Tail} (hwords : ∀ span ∈ args.spans, Worded span) :
    ArgumentsAlong inner args (args.argumentNodes nodesOf) := by
  cases args with
  | absent => exact .absent
  | unclosed first => exact .unclosed first
  | span tokens => exact .span (hinner tokens (hwords tokens (List.mem_singleton.2 rfl)))

section
variable {w : String} {rest : List Token} {nodes : List Node}

theorem nodesAlong_call (hw : isFunctionWord w = true) (hword : IsWord w) (hwords : Worded rest)
    (hrest : NodesAlong inner (rest.drop (functionPiece w rest).2) nodes) :
    NodesAlong inner (.word w :: .mark .lparen :: rest)
      ((functionPiece w rest).1.nodes nodesOf ++ nodes) := by
  cases hn : Bracket.paren.interior? rest with
  | none =>
    rw [functionPiece_unclosed hn] at hrest ⊢
    obtain rfl := nodesAlong_behind hrest
    exact .unread (.params hw hn)
  | some n =>
    -- the result is a stretch of what stands behind the parameters
    rw [functionPiece_of_eq_some w hn] at hrest ⊢
    refine .function hw hword hn (paramsAlong_nodes hinner (hwords.take n)) ?_ hrest
    refine resultAlong_resultNode hinner fun span hspan => ?_
    have hinfix := (resultTail_covers (rest.drop (n + 1))).infix_of_mem_spans hspan
    exact ((hwords.drop (n + 1)).take _).of_isInfix hinfix

theorem nodesAlong_module (hw : isModuleWord w = true) (hwords : Worded rest)
    (hrest : NodesAlong inner (rest.drop rest.length) nodes) :
    NodesAlong inner (.word w :: .mark .colon :: rest)
      ((referencePiece rest).nodes nodesOf ++ nodes) := by
  obtain rfl := nodesAlong_behind hrest
  rcases referencePiece_cases rest with ⟨hpath, heq⟩ | ⟨name, qualifier, hname, hsplit, heq⟩
  · rw [heq]
    exact .unread (.path hw hpath)
  · have hpath : Worded (pathTokens rest) := hwords.of_isInfix (List.takeWhile_prefix _).isInfix
    have hargs : ∀ span ∈ (pathTail rest).spans, Worded span := fun span hspan =>
      hwords.of_isInfix ((infix_of_mem_argumentTail hspan).trans (List.dropWhile_suffix _).isInfix)
    rw [heq]
    exact .reference hw (targetName_of_splitPath hpath hname hsplit)
      (argumentsAlong_argumentNodes hinner hargs)

theorem nodesAlong_word (hlt : ∀ more, rest ≠ .mark .lt :: more)
    (hdot : endsInDot w.toList = false) (hwords : Worded (.word w :: rest)) :
    NodesAlong inner (rest.drop (Piece.ofWord w rest).2) nodes →
    NodesAlong inner (.word w :: rest) ((Piece.ofWord w rest).1.nodes nodesOf ++ nodes) := by
  have hword := hwords w List.mem_cons_self
  have hname := isWord_plainName hword
  fun_cases Piece.ofWord w rest with
  | case1 rest hw piece n hpiece =>
    obtain ⟨rfl, rfl⟩ := Prod.ext_iff.1 hpiece
    exact nodesAlong_call hinner hw hword hwords.tail.tail
  | case2 rest hw =>
    exact .plain ⟨hdot, hlt, fun h => absurd h hw, fun _ => mark_cons_ne (by decide) rest⟩ hname
  | case3 rest hw => exact nodesAlong_module hinner hw hwords.tail.tail
  | case4 rest hw =>
    exact .plain ⟨hdot, hlt, fun _ => mark_cons_ne (by decide) rest, fun h => absurd h hw⟩ hname
  | case5 rest hcall hcolon =>
    exact .plain ⟨hdot, hlt, fun _ more h => hcall more h, fun _ more h => hcolon more h⟩ hname

theorem nodesAlong_first {t : Token} (hwords : Worded (t :: rest)) :
    NodesAlong inner (rest.drop (Piece.first t rest).2) nodes →
    NodesAlong inner (t :: rest) ((Piece.first t rest).1.nodes nodesOf ++ nodes) := by
  fun_cases Piece.first t rest with
  | case1 w rest piece n hpiece =>
    obtain ⟨rfl, rfl⟩ := Prod.ext_iff.1 hpiece
    have hname := genericName_dropDot (hwords w List.mem_cons_self)
    exact nodesAlong_bracketed [.word w, .mark .lt] w (.generic (String.ofList (dropDot w.toList)))
      (fun n hn => .generic hname hn (hinner _ (hwords.tail.tail.take n)))
      (fun hn => .arguments w hn)
  | case2 w rest hlt hw => exact .dotted hw hlt
  | case3 w rest hlt hw => exact nodesAlong_word hinner hlt (Bool.eq_false_iff.2 hw) hwords
  | case4 rest =>
    exact nodesAlong_bracketed [.mark .lparen] _ .group
      (fun n hn => .group hn (hinner _ (hwords.tail.take n))) .group
  | case5 rest =>
    refine nodesAlong_bracketed [.mark .lbrace] _ .record (fun n hn hrest => ?_) .record
    obtain ⟨parts, hfields, hparts⟩ := fieldsAlong_nodes hinner (hwords.tail.take n)
    rw [Piece.nodes, ← hparts]
    exact .record hn hfields hrest
  | case6 rest m hparen hbrace hm => exact .mark hparen hbrace
  | case7 rest m hparen hbrace hm => exact .mark hparen hbrace

theorem nodesAlong_pieces {span : List Token} (hwords : Worded span) :
    NodesAlong inner span ((pieces span).flatMap (Piece.nodes nodesOf)) := by
  fun_induction pieces span with
  | case1 => exact .nil
  | case2 t rest piece n hfirst ih =>
    obtain ⟨rfl, rfl⟩ := Prod.ext_iff.1 hfirst
    exact nodesAlong_first hinner hwords (ih (hwords.tail.drop _))

end

end

/-! ## and no others do -/

section
variable {inner : List Token → List Node → Prop} {nodesOf : List Token → List Node}
  (hinner : ∀ span nodes, inner span nodes → nodes = nodesOf span)
include hinner

theorem OneAlong.eq_oneOf {span : List Token} {node : Node} (h : OneAlong inner span node) :
    node = .oneOf (nodesOf span) := by
  obtain ⟨h⟩ := h
  rw [hinner _ _ h]

theorem FieldAlong.eq_nodes {field : Field} {nodes : List Node} (h : FieldAlong inner field nodes) :
    nodes = field.nodes nodesOf := by
  cases h with
  | nameless => rfl
  | untyped => rfl
  | typed _ hvalue => rw [hvalue.eq_oneOf hinner, Field.nodes]

theorem ResultAlong.eq_resultNode {result : Tail} {node : Node}
    (h : ResultAlong inner result node) : node = result.resultNode nodesOf := by
  cases h with
  | absent => rfl
  | unclosed => rfl
  | span h => exact h.eq_oneOf hinner

theorem ArgumentsAlong.eq_argumentNodes {args : Tail} {nodes : List Node}
    (h : ArgumentsAlong inner args nodes) : nodes = args.argumentNodes nodesOf := by
  cases h with
  | absent => rfl
  | unclosed => rfl
  | span h => exact hinner _ _ h

end

theorem eq_map_of_forall₂ {α β : Type} {R : α → β → Prop} {f : α → β}
    (hR : ∀ a b, R a b → b = f a) {as : List α} {bs : List β} (h : List.Forall₂ R as bs) :
    bs = as.map f := by
  induction h with
  | nil => rfl
  | cons hab _ ih => rw [hR _ _ hab, ih, List.map_cons]

section
variable {t : Token} {rest : List Token} {piece : Piece} {n : Nat}
  (nodesOf : List Token → List Node)

/-- the nodes of a span that begins with a given piece -/
theorem flatMap_of_first (h : Piece.first t rest = (piece, n)) :
    (pieces (t :: rest)).flatMap (Piece.nodes nodesOf)
      = piece.nodes nodesOf ++ (pieces (rest.drop n)).flatMap (Piece.nodes nodesOf) := by
  rw [pieces_cons, h, List.flatMap_cons]

/-- and of a span that is made of it -/
theorem flatMap_of_whole (h : Piece.first t rest = (piece, rest.length)) :
    (pieces (t :: rest)).flatMap (Piece.nodes nodesOf) = piece.nodes nodesOf := by
  rw [pieces_eq_singleton h, List.flatMap_singleton]

theorem flatMap_of_unread {span : List Token} (h : Unread span) :
    (pieces span).flatMap (Piece.nodes nodesOf) = [.any] := by
  cases h with
  | @arguments w rest h =>
    have hfirst : Piece.first (.word w) (.mark .lt :: rest)
        = (.unclosed w .angle, rest.length + 1) := by
      rw [Piece.first, bracketed_unclosed h]
    exact flatMap_of_whole nodesOf hfirst
  | @group rest h =>
    have hfirst : Piece.first (.mark .lparen) rest = (.unclosed _ .paren, rest.length) :=
      bracketed_unclosed h ..
    exact flatMap_of_whole nodesOf hfirst
  | @record rest h =>
    have hfirst : Piece.first (.mark .lbrace) rest = (.unclosed _ .brace, rest.length) :=
      bracketed_unclosed h ..
    exact flatMap_of_whole nodesOf hfirst
  | @params w hw rest h =>
    have hfirst : Piece.first (.word w) (.mark .lparen :: rest)
        = (.unclosed w .paren, rest.length + 1) := by
      rw [Piece.first_call hw, functionPiece_unclosed h]
    exact flatMap_of_whole nodesOf hfirst
  | @path w hw rest h =>
    rcases referencePiece_cases rest with ⟨-, heq⟩ | ⟨name, qualifier, hname, hsplit, -⟩
    · have hfirst : Piece.first (.word w) (.mark .colon :: rest)
          = (.pathless, rest.length + 1) := by
        rw [Piece.first_module hw, heq]
      exact flatMap_of_whole nodesOf hfirst
    · rw [hsplit] at h
      exact absurd (String.toList_eq_nil_iff.1 h) hname

end

theorem NodesAlong.eq_flatMap {inner : List Token → List Node → Prop}
    {nodesOf : List Token → List Node}
    (hinner : ∀ span nodes, inner span nodes → nodes = nodesOf span) {span : List Token}
    {nodes : List Node} (h : NodesAlong inner span nodes) :
    nodes = (pieces span).flatMap (Piece.nodes nodesOf) := by
  -- what each case asks of the tokens leaves only one first piece
  induction h with
  | nil => rw [pieces, List.flatMap_nil]
  | @mark m hparen hbrace rest nodes _ ih =>
    rw [pieces_cons, Piece.first_mark hparen hbrace, List.flatMap_cons, List.drop_zero, ← ih]
    split <;> rfl
  | plain halone _ _ ih =>
    rw [flatMap_of_first nodesOf (Piece.first_alone halone), List.drop_zero, ← ih]
    rfl
  | @dotted w hw rest hlt nodes _ ih =>
    have hfirst : Piece.first (.word w) rest = (.unclosed w .angle, 0) := by
      rw [Piece.first_word hlt, if_pos hw]
    rw [flatMap_of_first nodesOf hfirst, List.drop_zero, ← ih]
    rfl
  | @generic w name hname rest n hn children nodes hargs _ ih =>
    have hfirst : Piece.first (.word w) (.mark .lt :: rest)
        = (.generic (String.ofList (dropDot w.toList)) (rest.take n), n + 2) := by
      rw [Piece.first, bracketed_of_eq_some hn]
    rw [flatMap_of_first nodesOf hfirst, List.drop_succ_cons, ← ih, ← hname.name_eq,
      hinner _ _ hargs]
    rfl
  | @group rest n hn children nodes hbody _ ih =>
    have hfirst : Piece.first (.mark .lparen) rest = (.group (rest.take n), n + 1) :=
      bracketed_of_eq_some hn ..
    rw [flatMap_of_first nodesOf hfirst, ← ih, hinner _ _ hbody]
    rfl
  | @record rest n hn parts nodes hfields _ ih =>
    have hfirst : Piece.first (.mark .lbrace) rest = (.record (rest.take n), n + 1) :=
      bracketed_of_eq_some hn ..
    have hparts := eq_map_of_forall₂ (fun _ _ h => FieldAlong.eq_nodes hinner h) hfields
    rw [flatMap_of_first nodesOf hfirst, ← ih, hparts]
    rfl
  | @function w hw _ rest n hn types nodes result hparams hresult _ ih =>
    have hfirst : Piece.first (.word w) (.mark .lparen :: rest)
        = (.function w (rest.take n) (resultTail (rest.drop (n + 1))).1,
            n + 1 + (resultTail (rest.drop (n + 1))).2 + 1) := by
      rw [Piece.first_call hw, functionPiece_of_eq_some w hn]
    have htypes := eq_map_of_forall₂ (fun _ _ h => OneAlong.eq_oneOf hinner h) hparams
    rw [flatMap_of_first nodesOf hfirst, List.drop_succ_cons, ← ih, htypes,
      hresult.eq_resultNode hinner, List.map_eq_flatMap]
    rfl
  | @reference w hw rest name qualifier hname children hargs =>
    have hne : name ≠ "" := by
      rintro rfl
      obtain ⟨c, hc, -⟩ := hname.head
      cases hc
    have hfirst : Piece.first (.word w) (.mark .colon :: rest)
        = (.reference name qualifier (pathTail rest), rest.length + 1) := by
      rw [Piece.first_module hw, referencePiece_of_splitPath hne hname.cut]
    rw [flatMap_of_whole nodesOf hfirst, hargs.eq_argumentNodes hinner, Piece.nodes]
  | unread h => exact (flatMap_of_unread nodesOf h).symm

/-! ## levels -/

theorem namedAlong_spanNodes (levels : Nat) {span : List Token} (hwords : Worded span) :
    NamedAlong levels span (spanNodes levels span) := by
  induction levels generalizing span with
  | zero => rfl
  | succ levels ih => exact nodesAlong_pieces (fun _ => ih) hwords

theorem NamedAlong.eq_spanNodes {levels : Nat} {span : List Token} {nodes : List Node}
    (h : NamedAlong levels span nodes) : nodes = spanNodes levels span := by
  induction levels generalizing span nodes with
  | zero => exact h
  | succ levels ih =>
    refine NodesAlong.eq_flatMap ?_ h
    exact fun _ _ => ih

end DocTypes
