import DocTypes.Proofs.Expression
import DocTypes.Proofs.Piece.Cover
import DocTypes.Proofs.Piece.Name

/-!
# The pieces of a well-formed expression

A well-formed expression in its span is read as one piece, and a list of them as their pieces with
separators between.  How far a result type reaches is found without reading it, and agrees.

* `Expression.piece`            the piece of an expression;
* `Expression.Follows`          what may come after an expression in its span;
* `unitLength?_tokens`          a type reaches as far as the expression it is written from;
* `pieces_tokens`               an expression is the first piece of the tokens that begin with it;
* `splitCommas_join`            spans without commas of their own are found between the commas that
  join them.
-/

namespace DocTypes

def Tail.ofSpan? : Option (List Token) → Tail
  | none => .absent
  | some tokens => .span tokens

namespace Expression

def piece : Expression → Piece
  | name w => .plain (plainName w)
  | generic w _ args => .generic w (spanTokens .comma args)
  | group alternatives => .group (spanTokens .bar alternatives)
  | record fields => .record (fieldsTokens fields)
  | function w params result => .function w (paramsTokens params) (.ofSpan? (result.map tokens))
  | reference _ path qualifier args =>
    .reference path qualifier (.ofSpan? (args.map fun a => spanTokens .comma a.2))

/-- an open expression is followed by nothing, another one by a separator if by anything -/
inductive Follows (e : Expression) : List Token → Prop where
  | nothing : Follows e []
  | mark {m : Mark} (hm : m = .bar ∨ m = .comma) (hclosed : e.isOpen = false)
    (rest : List Token) : Follows e (.mark m :: rest)

section
variable {w : String} {params : List (Option String × List Expression)} {rest : List Token}

theorem Follows.result {r : Expression} (h : (function w params (some r)).Follows rest) :
    r.Follows rest := by
  cases h with
  | nothing => exact .nothing
  | mark hm hclosed => exact .mark hm (by rwa [isOpen] at hclosed) _

theorem Follows.head_ne_colon {e : Expression} (h : e.Follows rest) :
    ∀ t ∈ rest.head?, t ≠ .mark .colon := by
  cases h with
  | nothing => nofun
  | mark hm =>
    rintro t ⟨⟩
    rcases hm with rfl | rfl <;> decide

theorem Follows.eq_nil {e : Expression} (h : e.Follows rest) (ho : e.isOpen = true) :
    rest = [] := by
  cases h with
  | nothing => rfl
  | mark _ hclosed => cases ho.symm.trans hclosed

end

theorem tokens_ne_nil (e : Expression) : e.tokens ≠ [] := by
  cases e with
  | name w => simp [tokens_name]
  | generic w dotted args => simp [tokens_generic, argumentTokens]
  | group alternatives => simp [tokens_group]
  | record fields => simp [tokens_record]
  | function w params result => simp [tokens_function]
  | reference w path qualifier args => simp [tokens_reference]

end Expression

/-! ## how far a type reaches -/

section
variable {w : String} {body : List Token}

theorem unitLength?_args (hbody : Nested body) (rest : List Token) :
    unitLength? (.word w :: .mark .lt :: (body ++ .mark .gt :: rest)) = some (body.length + 3) := by
  have hn : Bracket.angle.interior? (body ++ .mark .gt :: rest) = some body.length :=
    Bracket.angle.interior?_of_nested hbody rest
  rw [unitLength?, hn, Option.map_some]

theorem unitLength?_group (hbody : Nested body) (rest : List Token) :
    unitLength? (.mark .lparen :: (body ++ .mark .rparen :: rest)) = some (body.length + 2) := by
  have hn : Bracket.paren.interior? (body ++ .mark .rparen :: rest) = some body.length :=
    Bracket.paren.interior?_of_nested hbody rest
  rw [unitLength?, hn, Option.map_some]

theorem unitLength?_record (hbody : Nested body) (rest : List Token) :
    unitLength? (.mark .lbrace :: (body ++ .mark .rbrace :: rest)) = some (body.length + 2) := by
  have hn : Bracket.brace.interior? (body ++ .mark .rbrace :: rest) = some body.length :=
    Bracket.brace.interior?_of_nested hbody rest
  rw [unitLength?, hn, Option.map_some]

theorem unitLength?_function (hw : isFunctionWord w = true) (hbody : Nested body)
    {tail : List Token} (htail : ∀ t ∈ tail.head?, t ≠ .mark .colon) :
    unitLength? (.word w :: .mark .lparen :: (body ++ .mark .rparen :: tail))
      = some (body.length + 3) := by
  rw [unitLength?_of_interior hw body tail (Bracket.paren.interior?_of_nested hbody tail)]
  split
  · exact absurd rfl (htail _ rfl)
  · rfl

theorem unitLength?_function_result (hw : isFunctionWord w = true) (hbody : Nested body)
    {result : List Token} (hne : result ≠ []) {k : Nat} (hk : unitLength? result = some k) :
    unitLength? (.word w :: .mark .lparen :: (body ++ .mark .rparen :: .mark .colon :: result))
      = some (k + (body.length + 4)) := by
  obtain ⟨first, more, rfl⟩ := List.exists_cons_of_ne_nil hne
  rw [unitLength?_of_interior hw body _ (Bracket.paren.interior?_of_nested hbody _)]
  simp only [hk, Option.map_some]

end

namespace Expression

theorem unitLength?_tokens {e : Expression} (h : e.WellFormed) {rest : List Token}
    (hf : e.Follows rest) : unitLength? (e.tokens ++ rest) = some e.tokens.length := by
  induction h generalizing rest with
  | @mk e spelled _ _ ih =>
    cases e with
    | name w =>
      rw [tokens_name]
      cases hf with
      | nothing => simp [unitLength?]
      | mark hm => rcases hm with rfl | rfl <;> simp [unitLength?]
    | generic w dotted args =>
      have hargs := unitLength?_args (w := headWord w dotted)
        (nested_spanTokens (m := .comma) rfl args) rest
      simpa [tokens_generic, argumentTokens] using hargs
    | group alternatives =>
      have hbody := unitLength?_group (nested_spanTokens (m := .bar) rfl alternatives) rest
      simpa [tokens_group] using hbody
    | record fields =>
      have hbody := unitLength?_record (nested_fieldsTokens fields) rest
      simpa [tokens_record] using hbody
    | function w params result =>
      have htokens : (function w params result).tokens ++ rest = .word w :: .mark .lparen ::
          (paramsTokens params ++ .mark .rparen :: (resultTokens result ++ rest)) := by
        rw [tokens_function]
        simp
      have hlength : (function w params result).tokens.length
          = (resultTokens result).length + ((paramsTokens params).length + 3) := by
        rw [tokens_function]
        simp
        omega
      rw [htokens, hlength]
      cases result with
      | none =>
        rw [resultTokens, List.nil_append, List.length_nil, Nat.zero_add]
        exact unitLength?_function spelled.2.1 (nested_paramsTokens params) hf.head_ne_colon
      | some r =>
        have hr := ih _ mem_spans_result r (List.mem_singleton.2 rfl) hf.result
        have hne : r.tokens ++ rest ≠ [] := List.append_ne_nil_of_left_ne_nil r.tokens_ne_nil rest
        rw [resultTokens, List.cons_append,
          unitLength?_function_result spelled.2.1 (nested_paramsTokens params) hne hr,
          List.length_cons]
        simp only [Option.some.injEq]
        omega
    | reference w path qualifier args =>
      obtain rfl := hf.eq_nil rfl
      rw [List.append_nil, tokens_reference, unitLength?, if_pos spelled.2.1]
      rfl

end Expression

/-! ## the first piece -/

section
variable {w : String} {body : List Token}

theorem Piece.first_args (hbody : Nested body) (rest : List Token) :
    first (.word w) (.mark .lt :: (body ++ .mark .gt :: rest))
      = (generic (String.ofList (dropDot w.toList)) body, body.length + 2) := by
  have hargs : bracketed .angle w (body ++ .mark .gt :: rest) _ = _ :=
    bracketed_of_nested .angle w hbody rest (generic (String.ofList (dropDot w.toList)))
  rw [first, hargs]

theorem Piece.first_group (hbody : Nested body) (rest : List Token) :
    first (.mark .lparen) (body ++ .mark .rparen :: rest) = (group body, body.length + 1) :=
  bracketed_of_nested .paren _ hbody rest group

theorem Piece.first_record (hbody : Nested body) (rest : List Token) :
    first (.mark .lbrace) (body ++ .mark .rbrace :: rest) = (record body, body.length + 1) :=
  bracketed_of_nested .brace _ hbody rest record

theorem Piece.first_function (hw : isFunctionWord w = true) (hbody : Nested body)
    (tail : List Token) :
    first (.word w) (.mark .lparen :: (body ++ .mark .rparen :: tail))
      = (function w body (resultTail tail).1, body.length + 2 + (resultTail tail).2) := by
  have hpiece : functionPiece w (body ++ .mark .rparen :: tail)
      = (function w body (resultTail tail).1, body.length + 1 + (resultTail tail).2) :=
    functionPiece_of_interior w (Bracket.paren.interior?_of_nested hbody tail)
  rw [first_call hw, hpiece]
  simp only [Prod.mk.injEq, true_and]
  omega

end

/-! ## the path of a module -/

namespace Expression

theorem dropDot_headWord {w : String} (h : endsInDot w.toList = false) (dotted : Bool) :
    dropDot (headWord w dotted).toList = w.toList := by
  cases dotted with
  | false =>
    show (if endsInDot w.toList then _ else _) = _
    rw [if_neg (by simp [h])]
    rfl
  | true =>
    have htext : (headWord w true).toList = w.toList ++ ['.'] := String.toList_append
    rw [htext, dropDot, if_pos (by simp [endsInDot]), List.dropLast_concat]

theorem IsName.ne_nil {w : String} (h : IsName w) : w.toList ≠ [] := by
  obtain ⟨c, hc, -⟩ := h.head
  intro hnil
  rw [hnil] at hc
  cases hc

theorem splitPath_pathWord {path : String} {qualifier : Option String} (hpath : IsName path)
    (htilde : '~' ∉ path.toList) (hq : ∀ member ∈ qualifier, IsName member) (dotted : Bool) :
    splitPath (headWord (pathWord path qualifier) dotted).toList
      = (path.toList, qualifier.map String.toList) := by
  cases qualifier with
  | none =>
    have hno : '~' ∉ (headWord path dotted).toList := by
      cases dotted <;> simp [headWord, htilde]
    show splitPath (headWord path dotted).toList = _
    rw [splitPath_of_not_mem hno, dropDot_headWord hpath.undotted]
    rfl
  | some member =>
    have htext : (headWord (path ++ "~" ++ member) dotted).toList
        = path.toList ++ '~' :: (headWord member dotted).toList := by
      cases dotted <;> simp [headWord]
    show splitPath (headWord (path ++ "~" ++ member) dotted).toList = _
    rw [htext, splitPath_append htilde, dropDot_headWord (hq member rfl).undotted,
      if_neg (by simpa using (hq member rfl).ne_nil)]
    rfl

theorem referencePiece_word {path : String} {qualifier : Option String} (hpath : IsName path)
    (htilde : '~' ∉ path.toList) (hq : ∀ member ∈ qualifier, IsName member) (dotted : Bool)
    {more : List Token} (hmore : ∀ t ∈ more.head?, t = .mark .lt) :
    referencePiece (.word (headWord (pathWord path qualifier) dotted) :: more)
      = .reference path qualifier (argumentTail more) := by
  have htake (w : String) : (Token.word w :: more).takeWhile (· != .mark .lt) = [.word w] := by
    cases more with
    | nil => simp
    | cons t more => simp [hmore t rfl]
  have hdrop (w : String) : (Token.word w :: more).dropWhile (· != .mark .lt) = more := by
    cases more with
    | nil => simp
    | cons t more => simp [hmore t rfl]
  have hjoined (w : String) : Token.joined [.word w] = w := by
    simp [Token.joined, Token.text, String.join]
  unfold referencePiece
  simp only [htake, hdrop, hjoined, splitPath_pathWord hpath htilde hq]
  rw [if_neg (by simpa using hpath.ne_nil), String.ofList_toList, Option.map_map]
  congr
  cases qualifier <;> simp

theorem referencePiece_targetTokens {path : String} {qualifier : Option String}
    (hpath : IsName path) (htilde : '~' ∉ path.toList) (hq : ∀ member ∈ qualifier, IsName member)
    (args : Option (Bool × List Expression)) :
    referencePiece (targetTokens path qualifier args) = .reference path qualifier
      (.ofSpan? (args.map fun a => spanTokens .comma a.2)) := by
  cases args with
  | none => exact referencePiece_word hpath htilde hq false nofun
  | some a =>
    have hn : Bracket.angle.interior? (spanTokens .comma a.2 ++ [.mark .gt]) = some _ :=
      Bracket.angle.interior?_of_nested (nested_spanTokens rfl a.2) []
    have hlt : ∀ t ∈ (Token.mark .lt :: (spanTokens .comma a.2 ++ [.mark .gt])).head?,
        t = .mark .lt := by
      rintro t ⟨⟩
      rfl
    show referencePiece (.word (headWord (pathWord path qualifier) a.1) :: _) = _
    rw [referencePiece_word hpath htilde hq a.1 hlt, argumentTail, hn]
    simp [Tail.ofSpan?]

theorem resultTail_resultTokens {w : String} {params : List (Option String × List Expression)}
    {result : Option Expression} {rest : List Token} (hr : ∀ r ∈ result, r.WellFormed)
    (hf : (function w params result).Follows rest) :
    resultTail (resultTokens result ++ rest)
      = (.ofSpan? (result.map tokens), (resultTokens result).length) := by
  cases result with
  | none =>
    cases hf with
    | nothing => rfl
    | mark hm => rcases hm with rfl | rfl <;> rfl
  | some r =>
    have hlength := unitLength?_tokens (hr r rfl) hf.result
    obtain ⟨first, more, hfirst⟩ := List.exists_cons_of_ne_nil r.tokens_ne_nil
    show resultTail (.mark .colon :: (r.tokens ++ rest)) = (.span r.tokens, r.tokens.length + 1)
    rw [hfirst] at hlength ⊢
    rw [List.cons_append] at hlength ⊢
    rw [resultTail, hlength]
    simp

/-! ## all pieces -/

theorem first_tokens {e : Expression} (h : e.WellFormed) {rest : List Token}
    (hf : e.Follows rest) :
    ∃ t more, e.tokens = t :: more ∧ Piece.first t (more ++ rest) = (e.piece, more.length) := by
  have hspelled := h.spelled
  cases e with
  | name w =>
    refine ⟨.word w, [], tokens_name w, ?_⟩
    have hdot : endsInDot w.toList = false := hspelled.undotted
    cases hf with
    | nothing => simp [Piece.first, Piece.ofWord, hdot, piece]
    | mark hm => rcases hm with rfl | rfl <;> simp [Piece.first, Piece.ofWord, hdot, piece]
  | generic w dotted args =>
    refine ⟨_, _, tokens_generic w dotted args, ?_⟩
    have hfirst := Piece.first_args (w := headWord w dotted)
      (nested_spanTokens (m := .comma) rfl args) rest
    rw [dropDot_headWord hspelled.undotted, String.ofList_toList] at hfirst
    simpa [piece] using hfirst
  | group alternatives =>
    refine ⟨_, _, tokens_group alternatives, ?_⟩
    have hfirst := Piece.first_group (nested_spanTokens (m := .bar) rfl alternatives) rest
    simpa [piece] using hfirst
  | record fields =>
    refine ⟨_, _, tokens_record fields, ?_⟩
    have hfirst := Piece.first_record (nested_fieldsTokens fields) rest
    simpa [piece] using hfirst
  | function w params result =>
    -- what follows the function follows its result, if it has one
    obtain ⟨-, hfunction, -⟩ := hspelled
    refine ⟨_, _, tokens_function w params result, ?_⟩
    have hresult : ∀ r ∈ result, r.WellFormed := by
      rintro r rfl
      exact h.children _ mem_spans_result r (List.mem_singleton.2 rfl)
    have hfirst := Piece.first_function hfunction (nested_paramsTokens params)
      (resultTokens result ++ rest)
    rw [resultTail_resultTokens hresult hf] at hfirst
    simp only [List.cons_append, List.append_assoc]
    rw [hfirst]
    simp only [piece, List.length_cons, List.length_append, Prod.mk.injEq, true_and]
    omega
  | reference w path qualifier args =>
    -- a reference takes up all the rest, so it is read as itself only where nothing follows
    obtain ⟨-, hmodule, hpath, htilde, hq⟩ := hspelled
    obtain rfl := hf.eq_nil rfl
    refine ⟨_, _, tokens_reference w path qualifier args, ?_⟩
    rw [List.append_nil, Piece.first_module hmodule,
      referencePiece_targetTokens hpath htilde hq]
    rfl

theorem pieces_tokens {e : Expression} (h : e.WellFormed) {rest : List Token}
    (hf : e.Follows rest) : pieces (e.tokens ++ rest) = e.piece :: pieces rest := by
  obtain ⟨t, more, htokens, hfirst⟩ := first_tokens h hf
  rw [htokens, List.cons_append, pieces_cons, hfirst, List.drop_left]

end Expression

/-! ## spans between commas -/

/-- no comma of the span stands outside its brackets -/
def Unsplit (span : List Token) : Prop :=
  ∀ rest, segments (.mark .comma) 0 (span ++ rest)
    = extendFirstSegment span (segments (.mark .comma) 0 rest)

theorem unsplit_nil : Unsplit [] := fun rest =>
  (extendFirstSegment_nil (segments_ne_nil _ 0 rest)).symm

theorem unsplit_plain {t : Token} (ht : t.isBracket = false) (hc : t ≠ .mark .comma) :
    Unsplit [t] := by
  intro rest
  rw [List.singleton_append, segments_plain ht (.inl hc), extendSegment_eq]

theorem unsplit_word (w : String) : Unsplit [.word w] := unsplit_plain rfl nofun

theorem unsplit_bracket (b : Bracket) {body : List Token} (h : Nested body) :
    Unsplit (.mark b.opener :: (body ++ [.mark b.closer])) := by
  intro rest
  rw [List.cons_append, List.append_assoc]
  exact segments_bracket b h 0 rest

theorem Unsplit.append {a b : List Token} (ha : Unsplit a) (hb : Unsplit b) :
    Unsplit (a ++ b) := by
  intro rest
  rw [List.append_assoc, ha, hb, extendFirstSegment_append]

theorem joins_unsplit : Joins Unsplit := ⟨unsplit_nil, .append⟩

theorem segments_join {spans : List (List Token)} (hne : spans ≠ [])
    (h : ∀ span ∈ spans, Unsplit span) :
    segments (.mark .comma) 0 (Mark.comma.join spans) = spans := by
  unfold Mark.join
  induction spans with
  | nil => exact absurd rfl hne
  | cons span more ih =>
    obtain ⟨hspan, hmore⟩ := List.forall_mem_cons.1 h
    cases more with
    | nil =>
      have hsegments := hspan []
      rw [List.append_nil] at hsegments
      rw [List.intercalate_singleton, hsegments]
      exact congrArg ([·]) (List.append_nil span)
    | cons next more =>
      rw [List.intercalate_cons_cons, List.append_assoc, hspan, List.singleton_append,
        segments_separator rfl, ih nofun hmore]
      exact congrArg (· :: next :: more) (List.append_nil span)

theorem splitCommas_join {spans : List (List Token)} (h : ∀ span ∈ spans, Unsplit span)
    (hne : ∀ span ∈ spans, span ≠ []) : splitCommas (Mark.comma.join spans) = spans := by
  by_cases hnil : spans = []
  · rw [hnil]
    rfl
  · rw [splitCommas, splitTopLevel, segments_join hnil h, List.filter_eq_self]
    intro span hs
    simpa using hne span hs

namespace Expression

theorem unsplit_colon : Unsplit [.mark .colon] := unsplit_plain rfl nofun

theorem unsplit_argumentTokens (w : String) (dotted : Bool) {args : List Token}
    (h : Nested args) : Unsplit (argumentTokens w dotted args) :=
  (unsplit_word (headWord w dotted)).append (unsplit_bracket .angle h)

theorem unsplit_tokens (e : Expression) : Unsplit e.tokens := by
  induction e using inductionOn with
  | mk e ih =>
    cases e with
    | name w =>
      rw [tokens_name]
      exact unsplit_word w
    | generic w dotted args =>
      rw [tokens_generic]
      exact unsplit_argumentTokens w dotted (nested_spanTokens rfl args)
    | group alternatives =>
      rw [tokens_group]
      exact unsplit_bracket .paren (nested_spanTokens rfl alternatives)
    | record fields =>
      rw [tokens_record]
      exact unsplit_bracket .brace (nested_fieldsTokens fields)
    | function w params result =>
      have hresult : Unsplit (resultTokens result) := by
        cases result with
        | none => exact unsplit_nil
        | some r =>
          exact unsplit_colon.append (ih _ mem_spans_result r (List.mem_singleton.2 rfl))
      have hparams : Unsplit (.mark .lparen :: (paramsTokens params ++ [.mark .rparen])) :=
        unsplit_bracket .paren (nested_paramsTokens params)
      have happend := (unsplit_word w).append (hparams.append hresult)
      rw [tokens_function]
      simpa using happend
    | reference w path qualifier args =>
      have htarget : Unsplit (targetTokens path qualifier args) := by
        cases args with
        | none => exact unsplit_word (pathWord path qualifier)
        | some a => exact unsplit_argumentTokens _ a.1 (nested_spanTokens rfl a.2)
      rw [tokens_reference]
      exact (unsplit_word w).append (unsplit_colon.append htarget)

theorem unsplit_union (span : List Expression) : Unsplit (spanTokens .bar span) :=
  joins_unsplit.intercalate (unsplit_plain (t := .mark .bar) rfl nofun) <|
    List.forall_mem_map.2 fun e _ => unsplit_tokens e

theorem unsplit_fieldTokens (key : String) {value : List Token} (h : Unsplit value) :
    Unsplit (fieldTokens key value) := (unsplit_word key).append (unsplit_colon.append h)

theorem unsplit_paramTokens (key : Option String) {type : List Token} (h : Unsplit type) :
    Unsplit (paramTokens key type) := by
  cases key with
  | none => exact h
  | some key => exact unsplit_fieldTokens key h

theorem spanTokens_ne_nil (m : Mark) {span : List Expression} (h : span ≠ []) :
    spanTokens m span ≠ [] := by
  unfold spanTokens Mark.join
  obtain ⟨e, more, rfl⟩ := List.exists_cons_of_ne_nil h
  cases more with
  | nil =>
    rw [List.map_singleton, List.intercalate_singleton]
    exact e.tokens_ne_nil
  | cons next more =>
    rw [List.map_cons, List.map_cons, List.intercalate_cons_cons]
    simp

theorem splitCommas_fieldsTokens (fields : List (String × List Expression)) :
    splitCommas (fieldsTokens fields)
      = fields.map fun f => fieldTokens f.1 (spanTokens .bar f.2) := by
  refine splitCommas_join ?_ ?_
  · exact List.forall_mem_map.2 fun f _ => unsplit_fieldTokens f.1 (unsplit_union f.2)
  · exact List.forall_mem_map.2 fun f _ => nofun

theorem splitCommas_paramsTokens {params : List (Option String × List Expression)}
    (h : ∀ p ∈ params, p.2 ≠ []) : splitCommas (paramsTokens params)
      = params.map fun p => paramTokens p.1 (spanTokens .bar p.2) := by
  refine splitCommas_join ?_ ?_
  · exact List.forall_mem_map.2 fun p _ => unsplit_paramTokens p.1 (unsplit_union p.2)
  · refine List.forall_mem_map.2 fun p hp => ?_
    obtain ⟨key, span⟩ := p
    cases key with
    | none => exact spanTokens_ne_nil .bar (h _ hp)
    | some key => nofun

end Expression

end DocTypes
