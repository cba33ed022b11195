import DocTypes.Node
import DocTypes.Piece
import DocTypes.Proofs.Bracket.Nested
import DocTypes.Proofs.Token.Written

/-!
# Well-formed expressions

The expressions that are read without a warning, as data: the tokens they are written with, the
tree they stand for, and how deep their brackets nest.  Between the brackets of an expression stand
spans of expressions; a bare union is a span whose expressions are joined by bars.

* `Expression`              the seven shapes; `Expression.spans` are the spans inside an expression;
* `Expression.tokens`       how an expression is written; `unionTokens` for a bare union;
* `Expression.node`         the tree of an expression; `Node.ofUnion` for a bare union;
* `Expression.height`       the levels of brackets that have to be opened to read an expression;
* `Expression.WellFormed`   which words may stand where, and that what runs to the end of its span
  stands last.
-/

namespace DocTypes

inductive Expression where
  | name (w : String)
  /-- `w<args>`, or `w.<args>` if it is dotted -/
  | generic (w : String) (dotted : Bool) (args : List Expression)
  | group (alternatives : List Expression)
  | record (fields : List (String × List Expression))
  /-- the parameters are bare unions that may be named; `w` is the word `function` -/
  | function (w : String) (params : List (Option String × List Expression))
    (result : Option Expression)
  /-- a reference into a module, `w` being the word `module`; the arguments may be dotted -/
  | reference (w path : String) (qualifier : Option String)
    (args : Option (Bool × List Expression))

/-- spans with a mark between any two of them -/
def Mark.join (m : Mark) (spans : List (List Token)) : List Token := [.mark m].intercalate spans

/-- the type of a bare union -/
def Node.ofUnion : List Node → Node
  | [node] => node
  | nodes => unionOf nodes

namespace Expression

/-! ## spans -/

def spans : Expression → List (List Expression)
  | name _ => []
  | generic _ _ args => [args]
  | group alternatives => [alternatives]
  | record fields => fields.map (·.2)
  | function _ params result => params.map (·.2) ++ (result.map ([·])).toList
  | reference _ _ _ args => (args.map (·.2)).toList

theorem sizeOf_lt {e child : Expression} {span : List Expression} (hs : span ∈ e.spans)
    (hc : child ∈ span) : sizeOf child < sizeOf e := by
  have hspan := List.sizeOf_lt_of_mem hc
  cases e with
  | name w => cases hs
  | generic w dotted args =>
    obtain rfl := List.mem_singleton.1 hs
    simp only [generic.sizeOf_spec]
    omega
  | group alternatives =>
    obtain rfl := List.mem_singleton.1 hs
    simp only [group.sizeOf_spec]
    omega
  | record fields =>
    obtain ⟨⟨key, value⟩, hf, rfl⟩ := List.mem_map.1 hs
    have hfield := List.sizeOf_lt_of_mem hf
    simp only [record.sizeOf_spec, Prod.mk.sizeOf_spec] at hfield hspan ⊢
    omega
  | function w params result =>
    rcases List.mem_append.1 hs with hs | hs
    · obtain ⟨⟨key, value⟩, hp, rfl⟩ := List.mem_map.1 hs
      have hparam := List.sizeOf_lt_of_mem hp
      simp only [function.sizeOf_spec, Prod.mk.sizeOf_spec] at hparam hspan ⊢
      omega
    · cases result with
      | none => cases hs
      | some r =>
        obtain rfl := List.mem_singleton.1 hs
        obtain rfl := List.mem_singleton.1 hc
        simp only [function.sizeOf_spec, Option.some.sizeOf_spec]
        omega
  | reference w path qualifier args =>
    cases args with
    | none => cases hs
    | some a =>
      obtain ⟨dotted, args⟩ := a
      have hargs : span = args := List.mem_singleton.1 hs
      rw [hargs] at hspan
      simp only [reference.sizeOf_spec, Option.some.sizeOf_spec, Prod.mk.sizeOf_spec]
      omega

theorem mem_spans_field {f : String × List Expression} {fields : List (String × List Expression)}
    (h : f ∈ fields) : f.2 ∈ (record fields).spans := List.mem_map_of_mem h

section
variable {w : String} {params : List (Option String × List Expression)}

theorem mem_spans_param {p : Option String × List Expression} {result : Option Expression}
    (h : p ∈ params) : p.2 ∈ (function w params result).spans :=
  List.mem_append_left _ (List.mem_map_of_mem h)

theorem mem_spans_result {r : Expression} : [r] ∈ (function w params (some r)).spans :=
  List.mem_append_right _ (List.mem_singleton.2 rfl)

end

/-- what holds of an expression as soon as it holds of those in its spans holds of all -/
@[elab_as_elim]
theorem inductionOn {motive : Expression → Prop} (e : Expression)
    (mk : ∀ e, (∀ span ∈ e.spans, ∀ child ∈ span, motive child) → motive e) : motive e :=
  mk e fun _ _ child _ => inductionOn child mk
termination_by sizeOf e
decreasing_by exact sizeOf_lt ‹_› ‹_›

/-! ## tokens -/

/-- the word of a name that arguments follow -/
def headWord (w : String) (dotted : Bool) : String := if dotted then w ++ "." else w

/-- the word of a module's path and of the member behind it -/
def pathWord (path : String) : Option String → String
  | none => path
  | some qualifier => path ++ "~" ++ qualifier

def argumentTokens (w : String) (dotted : Bool) (args : List Token) : List Token :=
  .word (headWord w dotted) :: .mark .lt :: (args ++ [.mark .gt])

def fieldTokens (key : String) (value : List Token) : List Token :=
  .word key :: .mark .colon :: value

def paramTokens : Option String → List Token → List Token
  | none, type => type
  | some key, type => fieldTokens key type

def tokens : Expression → List Token
  | name w => [.word w]
  | generic w dotted args => argumentTokens w dotted (Mark.comma.join (args.map tokens))
  | group alternatives =>
    .mark .lparen :: (Mark.bar.join (alternatives.map tokens) ++ [.mark .rparen])
  | record fields =>
    .mark .lbrace :: (Mark.comma.join (fields.map fun f =>
      fieldTokens f.1 (Mark.bar.join (f.2.map tokens))) ++ [.mark .rbrace])
  | function w params result =>
    .word w :: .mark .lparen :: (Mark.comma.join (params.map fun p =>
      paramTokens p.1 (Mark.bar.join (p.2.map tokens))) ++ .mark .rparen :: match result with
        | none => []
        | some r => .mark .colon :: r.tokens)
  | reference w path qualifier args =>
    .word w :: .mark .colon :: match args with
      | none => [.word (pathWord path qualifier)]
      | some a => argumentTokens (pathWord path qualifier) a.1 (Mark.comma.join (a.2.map tokens))
termination_by e => sizeOf e
decreasing_by
  · exact sizeOf_lt (List.mem_singleton.2 rfl) ‹_›
  · exact sizeOf_lt (List.mem_singleton.2 rfl) ‹_›
  · exact sizeOf_lt (mem_spans_field ‹_›) ‹_›
  · exact sizeOf_lt (mem_spans_param ‹_›) ‹_›
  · exact sizeOf_lt mem_spans_result (List.mem_singleton.2 rfl)
  · exact sizeOf_lt (List.mem_singleton.2 rfl) ‹_›

/-- expressions with a mark between any two of them -/
def spanTokens (m : Mark) (span : List Expression) : List Token := m.join (span.map tokens)

def fieldsTokens (fields : List (String × List Expression)) : List Token :=
  Mark.comma.join (fields.map fun f => fieldTokens f.1 (spanTokens .bar f.2))

def paramsTokens (params : List (Option String × List Expression)) : List Token :=
  Mark.comma.join (params.map fun p => paramTokens p.1 (spanTokens .bar p.2))

def resultTokens : Option Expression → List Token
  | none => []
  | some r => .mark .colon :: r.tokens

/-- what follows the colon of a reference into a module -/
def targetTokens (path : String) (qualifier : Option String) :
    Option (Bool × List Expression) → List Token
  | none => [.word (pathWord path qualifier)]
  | some a => argumentTokens (pathWord path qualifier) a.1 (spanTokens .comma a.2)

theorem tokens_name (w : String) : (name w).tokens = [.word w] := by rw [tokens]

theorem tokens_generic (w : String) (dotted : Bool) (args : List Expression) :
    (generic w dotted args).tokens = argumentTokens w dotted (spanTokens .comma args) := by
  rw [tokens, spanTokens]

theorem tokens_group (alternatives : List Expression) : (group alternatives).tokens
    = .mark .lparen :: (spanTokens .bar alternatives ++ [.mark .rparen]) := by
  rw [tokens, spanTokens]

theorem tokens_record (fields : List (String × List Expression)) : (record fields).tokens
    = .mark .lbrace :: (fieldsTokens fields ++ [.mark .rbrace]) := by
  rw [tokens]
  rfl

theorem tokens_function (w : String) (params : List (Option String × List Expression))
    (result : Option Expression) : (function w params result).tokens
      = .word w :: .mark .lparen ::
          (paramsTokens params ++ .mark .rparen :: resultTokens result) := by
  cases result <;> rw [tokens] <;> rfl

theorem tokens_reference (w path : String) (qualifier : Option String)
    (args : Option (Bool × List Expression)) : (reference w path qualifier args).tokens
      = .word w :: .mark .colon :: targetTokens path qualifier args := by
  cases args <;> rw [tokens] <;> rfl

/-! ## trees -/

def node : Expression → Node
  | name w => .leaf (plainName w)
  | generic w _ args => .mk .generic w (args.map node)
  | group alternatives => .unionOf (alternatives.map node)
  | record fields =>
    .mk .record "Object" (fields.flatMap fun f => [.leaf f.1, .ofUnion (f.2.map node)])
  | function w params result =>
    .mk .function w (params.map (fun p => .ofUnion (p.2.map node)) ++ [match result with
      | none => .leaf "void"
      | some r => r.node])
  | reference _ path qualifier args =>
    .mk (.reference qualifier) path (match args with
      | none => []
      | some a => a.2.map node)
termination_by e => sizeOf e
decreasing_by
  · exact sizeOf_lt (List.mem_singleton.2 rfl) ‹_›
  · exact sizeOf_lt (List.mem_singleton.2 rfl) ‹_›
  · exact sizeOf_lt (mem_spans_field ‹_›) ‹_›
  · exact sizeOf_lt (mem_spans_param ‹_›) ‹_›
  · exact sizeOf_lt mem_spans_result (List.mem_singleton.2 rfl)
  · exact sizeOf_lt (List.mem_singleton.2 rfl) ‹_›

def resultNode : Option Expression → Node
  | none => .leaf "void"
  | some r => r.node

def argumentNodes : Option (Bool × List Expression) → List Node
  | none => []
  | some a => a.2.map node

theorem node_function (w : String) (params : List (Option String × List Expression))
    (result : Option Expression) : (function w params result).node
      = .mk .function w (params.map (fun p => .ofUnion (p.2.map node)) ++ [resultNode result]) := by
  cases result <;> rw [node] <;> rfl

theorem node_reference (w path : String) (qualifier : Option String)
    (args : Option (Bool × List Expression)) : (reference w path qualifier args).node
      = .mk (.reference qualifier) path (argumentNodes args) := by
  cases args <;> rw [node] <;> rfl

/-- each span is one level deeper than what stands in it -/
def height (e : Expression) : Nat :=
  (e.spans.attach.map fun ⟨span, _⟩ =>
    (span.attach.map fun ⟨child, _⟩ => child.height).foldr max 0 + 1).foldr max 0
termination_by sizeOf e
decreasing_by exact sizeOf_lt ‹_› ‹_›

/-- the height of what stands in a span -/
def spanHeight (span : List Expression) : Nat := (span.map height).foldr max 0

theorem height_eq (e : Expression) :
    e.height = (e.spans.map fun span => spanHeight span + 1).foldr max 0 := by
  unfold spanHeight
  rw [height]
  simp

theorem le_foldr_max {n : Nat} {ns : List Nat} (h : n ∈ ns) : n ≤ ns.foldr max 0 := by
  induction ns with
  | nil => cases h
  | cons m ns ih =>
    rw [List.foldr_cons]
    rcases List.mem_cons.1 h with rfl | h
    · exact Nat.le_max_left n _
    · exact Nat.le_trans (ih h) (Nat.le_max_right m _)

theorem height_le_spanHeight {child : Expression} {span : List Expression} (h : child ∈ span) :
    child.height ≤ spanHeight span := le_foldr_max (List.mem_map_of_mem h)

theorem spanHeight_lt_height {e : Expression} {span : List Expression} (h : span ∈ e.spans) :
    spanHeight span < e.height := by
  rw [height_eq]
  exact le_foldr_max (List.mem_map_of_mem h)

/-! ## well-formedness -/

/-- whether an expression is only read as such at the end of its span -/
def isOpen : Expression → Bool
  | reference .. => true
  | function _ _ (some result) => result.isOpen
  | _ => false

/-- a span of which no expression but the last is open -/
def OpenLast (span : List Expression) : Prop := ∀ e ∈ span.dropLast, e.isOpen = false

instance : DecidablePred OpenLast := fun span =>
  inferInstanceAs (Decidable (∀ e ∈ span.dropLast, e.isOpen = false))

/-- a word that ends in no dot -/
structure IsName (w : String) : Prop extends IsWord w where
  undotted : endsInDot w.toList = false

instance (w : String) : Decidable (IsName w) :=
  decidable_of_iff (IsWord w ∧ endsInDot w.toList = false)
    ⟨fun h => ⟨h.1, h.2⟩, fun h => ⟨h.toIsWord, h.undotted⟩⟩

/-- the words of an expression are such as can stand in their place; a record value and a parameter
have at least one alternative -/
def Spelled : Expression → Prop
  | name w => IsName w
  | generic w _ _ => IsName w
  | group _ => True
  | record fields => ∀ f ∈ fields, IsWord f.1 ∧ f.2 ≠ []
  | function w params _ => IsName w ∧ isFunctionWord w = true ∧
    ∀ p ∈ params, (∀ key ∈ p.1, IsWord key ∧ isModuleWord key = false) ∧ p.2 ≠ []
  | reference w path qualifier _ => IsName w ∧ isModuleWord w = true ∧
    IsName path ∧ '~' ∉ path.toList ∧ ∀ member ∈ qualifier, IsName member

instance : DecidablePred Spelled
  | name w => inferInstanceAs (Decidable (IsName w))
  | generic w _ _ => inferInstanceAs (Decidable (IsName w))
  | group _ => inferInstanceAs (Decidable True)
  | record fields => inferInstanceAs (Decidable (∀ f ∈ fields, IsWord f.1 ∧ f.2 ≠ []))
  | function w params _ => inferInstanceAs (Decidable (IsName w ∧ isFunctionWord w = true ∧
      ∀ p ∈ params, (∀ key ∈ p.1, IsWord key ∧ isModuleWord key = false) ∧ p.2 ≠ []))
  | reference w path qualifier _ => inferInstanceAs (Decidable (IsName w ∧
      isModuleWord w = true ∧ IsName path ∧ '~' ∉ path.toList ∧
      ∀ member ∈ qualifier, IsName member))

inductive WellFormed : Expression → Prop where
  | mk {e : Expression} (spelled : e.Spelled) (openLast : ∀ span ∈ e.spans, OpenLast span)
    (children : ∀ span ∈ e.spans, ∀ child ∈ span, WellFormed child) : WellFormed e

namespace WellFormed

variable {e : Expression}

theorem spelled (h : e.WellFormed) : e.Spelled := by cases h; assumption

theorem openLast (h : e.WellFormed) : ∀ span ∈ e.spans, OpenLast span := by cases h; assumption

theorem children (h : e.WellFormed) : ∀ span ∈ e.spans, ∀ child ∈ span, child.WellFormed := by
  cases h
  assumption

end WellFormed

instance decidableWellFormed (e : Expression) : Decidable e.WellFormed :=
  have (span : { span // span ∈ e.spans }) (child : { child // child ∈ span.1 }) :
      Decidable child.1.WellFormed := decidableWellFormed child.1
  decidable_of_iff (e.Spelled ∧ (∀ span ∈ e.spans, OpenLast span) ∧
      ∀ span ∈ e.spans.attach, ∀ child ∈ span.1.attach, child.1.WellFormed)
    ⟨fun ⟨hs, ho, hc⟩ => .mk hs ho fun span hspan child hchild =>
        hc ⟨span, hspan⟩ (List.mem_attach _ _) ⟨child, hchild⟩ (List.mem_attach _ _),
      fun h => ⟨h.spelled, h.openLast, fun span _ child _ =>
        h.children span.1 span.2 child.1 child.2⟩⟩
termination_by sizeOf e
decreasing_by exact sizeOf_lt span.2 child.2

/-! ## brackets -/

theorem nested_join (m : Mark) (hm : (Token.mark m).isBracket = false) {spans : List (List Token)}
    (h : ∀ span ∈ spans, Nested span) : Nested (m.join spans) :=
  joins_nested.intercalate (.plain hm .nil) h

theorem nested_argumentTokens (w : String) (dotted : Bool) {args : List Token}
    (h : Nested args) : Nested (argumentTokens w dotted args) := (h.enclose .angle).word _

theorem nested_fieldTokens (key : String) {value : List Token} (h : Nested value) :
    Nested (fieldTokens key value) := (Nested.plain rfl h).word key

theorem nested_paramTokens (key : Option String) {type : List Token} (h : Nested type) :
    Nested (paramTokens key type) := by
  cases key with
  | none => exact h
  | some key => exact nested_fieldTokens key h

theorem nested_fieldsTokens_of {fields : List (String × List Expression)}
    (h : ∀ f ∈ fields, Nested (spanTokens .bar f.2)) : Nested (fieldsTokens fields) :=
  nested_join .comma rfl (List.forall_mem_map.2 fun f hf => nested_fieldTokens f.1 (h f hf))

theorem nested_paramsTokens_of {params : List (Option String × List Expression)}
    (h : ∀ p ∈ params, Nested (spanTokens .bar p.2)) : Nested (paramsTokens params) :=
  nested_join .comma rfl (List.forall_mem_map.2 fun p hp => nested_paramTokens p.1 (h p hp))

theorem nested_tokens (e : Expression) : Nested e.tokens := by
  induction e using inductionOn with
  | mk e ih =>
    have hspan {m : Mark} (hm : (Token.mark m).isBracket = false) {span : List Expression}
        (hs : span ∈ e.spans) : Nested (spanTokens m span) :=
      nested_join m hm (List.forall_mem_map.2 (ih span hs))
    cases e with
    | name w =>
      rw [tokens_name]
      exact Nested.nil.word w
    | generic w dotted args =>
      rw [tokens_generic]
      exact nested_argumentTokens w dotted (hspan rfl (List.mem_singleton.2 rfl))
    | group alternatives =>
      rw [tokens_group]
      exact (hspan rfl (List.mem_singleton.2 rfl)).enclose .paren
    | record fields =>
      rw [tokens_record]
      exact (nested_fieldsTokens_of fun f hf => hspan rfl (mem_spans_field hf)).enclose .brace
    | function w params result =>
      rw [tokens_function]
      have hresult : Nested (resultTokens result) := by
        cases result with
        | none => exact .nil
        | some r => exact .plain rfl (ih _ mem_spans_result r (List.mem_singleton.2 rfl))
      have hparams := nested_paramsTokens_of fun p hp => hspan rfl (mem_spans_param hp)
      exact (Nested.bracket .paren hparams hresult).word w
    | reference w path qualifier args =>
      rw [tokens_reference]
      refine (Nested.plain rfl ?_).word w
      cases args with
      | none => exact Nested.nil.word _
      | some a => exact nested_argumentTokens _ a.1 (hspan rfl (List.mem_singleton.2 rfl))

theorem nested_spanTokens {m : Mark} (hm : (Token.mark m).isBracket = false)
    (span : List Expression) : Nested (spanTokens m span) :=
  nested_join m hm (List.forall_mem_map.2 fun e _ => e.nested_tokens)

theorem nested_fieldsTokens (fields : List (String × List Expression)) :
    Nested (fieldsTokens fields) := nested_fieldsTokens_of fun f _ => nested_spanTokens rfl f.2

theorem nested_paramsTokens (params : List (Option String × List Expression)) :
    Nested (paramsTokens params) := nested_paramsTokens_of fun p _ => nested_spanTokens rfl p.2

/-! ## words between marks -/

theorem isWord_headWord {w : String} (h : IsWord w) (dotted : Bool) :
    IsWord (headWord w dotted) := by
  cases dotted
  · exact h
  · exact h.append (by decide)

theorem isWord_pathWord {path : String} {qualifier : Option String} (hpath : IsWord path)
    (hq : ∀ member ∈ qualifier, IsName member) : IsWord (pathWord path qualifier) := by
  cases qualifier with
  | none => exact hpath
  | some member => exact (hpath.append (by decide)).append (hq member rfl).toIsWord

theorem canonical_argumentTokens {w : String} (hw : IsWord w) (dotted : Bool) {args : List Token}
    (h : Canonical args) : Canonical (argumentTokens w dotted args) :=
  .wordMark (isWord_headWord hw dotted) .lt (h.append_mark .gt .nil)

theorem canonical_paramTokens {key : Option String} (hkey : ∀ k ∈ key, IsWord k)
    {type : List Token} (h : Canonical type) : Canonical (paramTokens key type) := by
  cases key with
  | none => exact h
  | some k => exact .wordMark (hkey k rfl) .colon h

theorem canonical_tokens {e : Expression} (h : e.WellFormed) : Canonical e.tokens := by
  induction h with
  | @mk e spelled _ _ ih =>
    have hspan (m : Mark) {span : List Expression} (hs : span ∈ e.spans) :
        Canonical (spanTokens m span) := .intercalate m (List.forall_mem_map.2 (ih span hs))
    cases e with
    | name w =>
      rw [tokens_name]
      exact .word spelled.toIsWord
    | generic w dotted args =>
      rw [tokens_generic]
      have hargs := hspan .comma (List.mem_singleton.2 rfl)
      exact canonical_argumentTokens spelled.toIsWord dotted hargs
    | group alternatives =>
      rw [tokens_group]
      exact .mark .lparen ((hspan .bar (List.mem_singleton.2 rfl)).append_mark .rparen .nil)
    | record fields =>
      rw [tokens_record]
      have hbody : Canonical (fieldsTokens fields) := .intercalate .comma <|
        List.forall_mem_map.2 fun f hf =>
          .wordMark (spelled f hf).1 .colon (hspan .bar (mem_spans_field hf))
      exact .mark .lbrace (hbody.append_mark .rbrace .nil)
    | function w params result =>
      obtain ⟨hw, -, hparams⟩ := spelled
      rw [tokens_function]
      have hbody : Canonical (paramsTokens params) := .intercalate .comma <|
        List.forall_mem_map.2 fun p hp =>
          canonical_paramTokens (fun key hk => ((hparams p hp).1 key hk).1)
            (hspan .bar (mem_spans_param hp))
      refine .wordMark hw.toIsWord .lparen (hbody.append_mark .rparen ?_)
      cases result with
      | none => exact .nil
      | some r => exact .mark .colon (ih _ mem_spans_result r (List.mem_singleton.2 rfl))
    | reference w path qualifier args =>
      obtain ⟨hw, -, hpath, -, hq⟩ := spelled
      rw [tokens_reference]
      refine .wordMark hw.toIsWord .colon ?_
      have hword := isWord_pathWord hpath.toIsWord hq
      cases args with
      | none => exact .word hword
      | some a =>
        exact canonical_argumentTokens hword a.1 (hspan .comma (List.mem_singleton.2 rfl))

theorem canonical_spanTokens (m : Mark) {span : List Expression}
    (h : ∀ e ∈ span, e.WellFormed) : Canonical (spanTokens m span) :=
  .intercalate m (List.forall_mem_map.2 fun e he => canonical_tokens (h e he))

end Expression

end DocTypes
