import DocTypes.Proofs.Bracket.Barred
import DocTypes.Proofs.Piece.Tidy

/-!
# The pieces of a span with bars

A bar between two types that stand side by side makes a piece of its own.  All other pieces of the
span are the same as without bars, except that there are bars in the spans inside their brackets.

* `Piece.withBars`         a piece with bars in the spans inside its brackets;
* `unitLength?_barred`     a type reaches as far as without bars;
* `Piece.first_barred`     so does the first piece, which is the same but for the bars inside it;
* `pieces_barredBehind`    behind a token there may be one more piece, a separator;
* `Field.ofTokens_barred`, `paramType_barred`  the parts of a record and of a parameter list.
-/

namespace DocTypes

def Tail.withBars : Tail → Tail
  | .span tokens => .span (barred tokens)
  | tail => tail

def Piece.withBars : Piece → Piece
  | .generic name args => .generic name (barred args)
  | .group body => .group (barred body)
  | .record body => .record (barred body)
  | .function name params result => .function name (barred params) result.withBars
  | piece => piece

/-! ## how far a type reaches -/

/-- a bracket with `k` of the tokens behind it -/
theorem barredBehind_take_bracket (b : Bracket) (body after : List Token) (k : Nat) :
    barredBehind (.mark b.opener) ((body ++ .mark b.closer :: after).take (body.length + 1 + k))
      = barred body ++ .mark b.closer :: barredBehind (.mark b.closer) (after.take k) := by
  rw [Nat.add_assoc, Nat.add_comm 1, List.take_length_add_append, List.take_succ_cons,
    barredBehind_bracket]

theorem length_barredBehind_bracket (b : Bracket) (body after : List Token) :
    (barredBehind (.mark b.opener) ((body ++ .mark b.closer :: after).take (body.length + 1))).length
      = (barred body).length + 1 := by
  have htake := barredBehind_take_bracket b body after 0
  rw [Nat.add_zero] at htake
  rw [htake, List.length_append]
  rfl

/-- a type that ends with its bracket, `k` tokens in front of the interior and one behind it -/
theorem interior?_reach (b : Bracket) (rest : List Token) (k : Nat) :
    (b.interior? (barredBehind (.mark b.opener) rest)).map (· + (k + 1))
      = (b.interior? rest).map
          fun n => (barredBehind (.mark b.opener) (rest.take (n + 1))).length + k := by
  cases hn : b.interior? rest with
  | none => rw [interior?_barred_eq_none hn, Option.map_none, Option.map_none]
  | some n =>
    obtain ⟨body, after, rfl, rfl, hbarred⟩ := interior?_barred hn
    rw [hbarred, Option.map_some, Option.map_some, length_barredBehind_bracket]
    congr 1
    omega

/-- the parameters of a function and what stands behind them -/
theorem interior?_params {rest : List Token} {n : Nat} (hn : Bracket.paren.interior? rest = some n) :
    ∃ params after, rest = params ++ .mark .rparen :: after ∧ n = params.length ∧
      barredBehind (.mark .lparen) rest
        = barred params ++ .mark .rparen :: barredBehind (.mark .rparen) after ∧
      Bracket.paren.interior?
          (barred params ++ .mark .rparen :: barredBehind (.mark .rparen) after)
        = some (barred params).length := by
  obtain ⟨params, after, rfl, rfl, hbarred⟩ := interior?_barred hn
  have hbehind := barredBehind_bracket .paren params after
  rw [hbehind] at hbarred
  exact ⟨params, after, rfl, rfl, hbehind, hbarred⟩

theorem barredBehind_call {w : String} (hw : isFunctionWord w = true) (rest : List Token) :
    barredBehind (.word w) (.mark .lparen :: rest)
      = .mark .lparen :: barredBehind (.mark .lparen) rest :=
  barredBehind_cons (by rw [Token.adjoins, hw]; rfl) rest

theorem barredBehind_no_call {w : String} (hw : ¬isFunctionWord w = true) (rest : List Token) :
    barredBehind (.word w) (.mark .lparen :: rest)
      = .mark .bar :: .mark .lparen :: barredBehind (.mark .lparen) rest :=
  barredBehind_cons_of_adjoins (by rw [Token.adjoins, Bool.eq_false_iff.2 hw]; rfl) rest

/-- what a colon announces behind a token, with bars and without -/
theorem barredBehind_colon_cases (t : Token) (rest : List Token) :
    (∃ first more, rest = .mark .colon :: first :: more ∧
      barredBehind t rest = .mark .colon :: barred (first :: more)) ∨
    ((∀ first more, rest ≠ .mark .colon :: first :: more) ∧
      ∀ first more, barredBehind t rest ≠ .mark .colon :: first :: more) := by
  by_cases h : ∃ first more, rest = .mark .colon :: first :: more
  · obtain ⟨first, more, rfl⟩ := h
    exact .inl ⟨first, more, rfl, barredBehind_separator rfl t _⟩
  · refine .inr ⟨fun first more hrest => h ⟨first, more, hrest⟩, fun first more => ?_⟩
    by_cases hcolon : ∃ after, rest = .mark .colon :: after
    · obtain ⟨after, rfl⟩ := hcolon
      have hnil : after = [] := by
        cases after with
        | nil => rfl
        | cons first more => exact (h ⟨first, more, rfl⟩).elim
      rw [hnil, barredBehind_separator rfl]
      nofun
    · have hbar : Token.mark .colon ≠ .mark .bar := nofun
      exact barredBehind_ne_cons hbar (fun after hrest => hcolon ⟨after, hrest⟩) (first :: more)

/-- a function with `k` of the tokens behind its parameters -/
theorem barred_take_call {w : String} (hw : isFunctionWord w = true) (params after : List Token)
    (k : Nat) :
    barred ((.word w :: .mark .lparen :: (params ++ .mark .rparen :: after)).take
        (k + (params.length + 3)))
      = .word w :: .mark .lparen ::
          (barred params ++ .mark .rparen :: barredBehind (.mark .rparen) (after.take k)) := by
  have hsum : k + (params.length + 3) = params.length + 1 + k + 1 + 1 := by omega
  have hbracket := barredBehind_take_bracket .paren params after k
  rw [hsum, List.take_succ_cons, List.take_succ_cons, barred, barredBehind_call hw]
  exact congrArg (.word w :: .mark .lparen :: ·) hbracket

theorem unitLength?_mark {m : Mark} (hparen : m ≠ .lparen) (hbrace : m ≠ .lbrace)
    (rest : List Token) : unitLength? (.mark m :: rest) = some 1 := by
  cases m with
  | lparen => exact absurd rfl hparen
  | lbrace => exact absurd rfl hbrace
  | lt | gt | comma | rparen | bar | rbrace | colon => simp [unitLength?]

theorem unitLength?_word (w : String) {rest : List Token} (hlt : ∀ more, rest ≠ .mark .lt :: more)
    (hparen : ∀ more, rest ≠ .mark .lparen :: more) (hcolon : ∀ more, rest ≠ .mark .colon :: more) :
    unitLength? (.word w :: rest) = some 1 := by
  rw [unitLength?]
  · exact fun _ _ hw => hlt _ (List.cons.inj hw).2
  · exact fun _ hw => Token.noConfusion (List.cons.inj hw).1
  · exact fun _ hw => Token.noConfusion (List.cons.inj hw).1
  · exact fun _ _ hw => hparen _ (List.cons.inj hw).2
  · exact fun _ _ hw => hcolon _ (List.cons.inj hw).2

theorem unitLength?_barred {tokens : List Token} (hfree : ModuleFree tokens) (hne : tokens ≠ []) :
    unitLength? (barred tokens)
      = (unitLength? tokens).map fun n => (barred (tokens.take n)).length := by
  fun_induction unitLength? tokens with
  | case1 w rest =>
    show unitLength? (.word w :: .mark .lt :: barredBehind (.mark .lt) rest) = _
    rw [unitLength?, Option.map_map]
    exact interior?_reach .angle rest 2
  | case2 rest =>
    show unitLength? (.mark .lparen :: barredBehind (.mark .lparen) rest) = _
    rw [unitLength?, Option.map_map]
    exact interior?_reach .paren rest 1
  | case3 rest =>
    show unitLength? (.mark .lbrace :: barredBehind (.mark .lbrace) rest) = _
    rw [unitLength?, Option.map_map]
    exact interior?_reach .brace rest 1
  | case4 w rest hw hnone =>
    have hbarred : Bracket.paren.interior? (barredBehind (.mark .lparen) rest) = none :=
      interior?_barred_eq_none hnone
    rw [barred, barredBehind_call hw]
    exact unitLength?_unclosed hw hbarred
  | case5 w rest hw n hn first more hdrop ih =>
    obtain ⟨params, after, rfl, rfl, hbehind, hbarred⟩ := interior?_params hn
    obtain rfl : after = .mark .colon :: first :: more :=
      (drop_past params _ after 0).symm.trans hdrop
    have hresult : ModuleFree (first :: more) := hfree.tail.tail.right.tail.tail
    rw [barredBehind_separator rfl] at hbehind hbarred
    rw [barred, barredBehind_call hw, hbehind, unitLength?_of_interior hw _ _ hbarred]
    show (unitLength? (barred (first :: more))).map _ = _
    rw [ih hresult (List.cons_ne_nil first more), Option.map_map, Option.map_map]
    refine Option.map_congr fun k _ => ?_
    have hreach : k + (params.length + 4) = (k + 1) + (params.length + 3) := by omega
    show _ = (barred (List.take (k + (params.length + 4)) _)).length
    rw [hreach, barred_take_call hw, List.take_succ_cons, barredBehind_separator rfl]
    simp only [Function.comp_apply, List.length_cons, List.length_append]
    omega
  | case6 w rest hw n hn hother =>
    obtain ⟨params, after, rfl, rfl, hbehind, hbarred⟩ := interior?_params hn
    have hreach : unitLength? (barred (.word w :: .mark .lparen ::
        (params ++ .mark .rparen :: after))) = some ((barred params).length + 3) := by
      rw [barred, barredBehind_call hw, hbehind, unitLength?_of_interior hw _ _ hbarred]
      rcases barredBehind_colon_cases (.mark .rparen) after with ⟨first, more, rfl, -⟩ | ⟨-, hnone⟩
      · exact (hother first more (drop_past params _ _ 0)).elim
      · split
        · rename_i hcolon
          exact absurd hcolon (hnone _ _)
        · rfl
    have htake := barred_take_call hw params after 0
    rw [Nat.zero_add] at htake
    rw [hreach, Option.map_some, htake]
    simp [barredBehind]
  | case7 w rest hw =>
    rw [barred, barredBehind_no_call hw]
    simp [unitLength?, barred, barredBehind]
  | case8 w rest hw => exact absurd hw hfree.no_reference
  | case9 w rest hw =>
    show unitLength? (.word w :: .mark .colon :: barredBehind (.mark .colon) rest) = _
    rw [unitLength?, if_neg hw]
    rfl
  | case10 tokens hargs hparen hbrace hcall hcolon =>
    cases tokens with
    | nil => exact absurd rfl hne
    | cons t rest =>
      show unitLength? (t :: barredBehind t rest) = some 1
      cases t with
      | mark m =>
        refine unitLength?_mark ?_ ?_ _
        · rintro rfl
          exact hparen _ rfl
        · rintro rfl
          exact hbrace _ rfl
      | word w =>
        refine unitLength?_word w (barredBehind_ne_cons (by decide) fun more hrest => ?_)
          (barredBehind_ne_cons (by decide) fun more hrest => ?_)
          (barredBehind_ne_cons (by decide) fun more hrest => ?_)
        · exact hargs w more (by rw [hrest])
        · exact hcall w more (by rw [hrest])
        · exact hcolon w more (by rw [hrest])

/-! ## the first piece -/

/-- `r` is a piece and a number of the tokens `rest` behind `t`; the same with bars -/
def barredReading (t : Token) (rest : List Token) (r : Piece × Nat) : Piece × Nat :=
  (r.1.withBars, (barredBehind t (rest.take r.2)).length)

theorem bracketed_barred (b : Bracket) (fragment : String) (rest : List Token)
    {make : List Token → Piece} (hmake : ∀ body, (make body).withBars = make (barred body)) :
    bracketed b fragment (barredBehind (.mark b.opener) rest) make
      = barredReading (.mark b.opener) rest (bracketed b fragment rest make) := by
  cases hn : b.interior? rest with
  | none =>
    rw [bracketed_unclosed hn, bracketed_unclosed (interior?_barred_eq_none hn), barredReading,
      List.take_length]
    rfl
  | some n =>
    obtain ⟨body, after, rfl, rfl, hbarred⟩ := interior?_barred hn
    rw [barredBehind_bracket] at hbarred
    rw [bracketed_of_interior fragment hn, barredBehind_bracket,
      bracketed_of_interior fragment hbarred]
    show _ = ((make body).withBars, _)
    rw [length_barredBehind_bracket, hmake]

theorem resultTail_span {first : Token} {more : List Token} {n : Nat}
    (hn : unitLength? (first :: more) = some n) :
    resultTail (.mark .colon :: first :: more) = (.span ((first :: more).take n), n + 1) := by
  rw [resultTail, hn]

theorem resultTail_unclosed {first : Token} {more : List Token}
    (hn : unitLength? (first :: more) = none) :
    resultTail (.mark .colon :: first :: more) = (.unclosed first, more.length + 2) := by
  rw [resultTail, hn]

theorem resultTail_absent {rest : List Token}
    (h : ∀ first more, rest ≠ .mark .colon :: first :: more) : resultTail rest = (.absent, 0) := by
  unfold resultTail
  split
  · exact absurd rfl (h _ _)
  · rfl

theorem resultTail_barred {after : List Token} (hfree : ModuleFree after) :
    resultTail (barredBehind (.mark .rparen) after)
      = ((resultTail after).1.withBars,
          (barredBehind (.mark .rparen) (after.take (resultTail after).2)).length) := by
  rcases barredBehind_colon_cases (.mark .rparen) after with
    ⟨first, more, rfl, hbehind⟩ | ⟨hafter, hbehind⟩
  · have hresult : ModuleFree (first :: more) := hfree.tail
    have hreach : unitLength? (first :: barredBehind first more) = _ :=
      unitLength?_barred hresult (List.cons_ne_nil first more)
    rw [hbehind, barred]
    cases hn : unitLength? (first :: more) with
    | some n =>
      rw [hn] at hreach
      have htake : (first :: barredBehind first more).take (barred ((first :: more).take n)).length
          = barred ((first :: more).take n) := take_barred (first :: more) n
      rw [resultTail_span hn, resultTail_span hreach, htake, List.take_succ_cons,
        barredBehind_separator rfl]
      rfl
    | none =>
      rw [hn] at hreach
      have htake : (Token.mark .colon :: first :: more).take (more.length + 2)
          = .mark .colon :: first :: more := List.take_of_length_le (Nat.le_refl _)
      rw [resultTail_unclosed hn, resultTail_unclosed hreach, htake, hbehind]
      rfl
  · rw [resultTail_absent hafter, resultTail_absent hbehind]
    rfl

theorem functionPiece_barred (name : String) {rest : List Token} (hfree : ModuleFree rest) :
    functionPiece name (barredBehind (.mark .lparen) rest)
      = barredReading (.mark .lparen) rest (functionPiece name rest) := by
  cases hn : Bracket.paren.interior? rest with
  | none =>
    have hbarred : Bracket.paren.interior? (barredBehind (.mark .lparen) rest) = none :=
      interior?_barred_eq_none hn
    rw [functionPiece_unclosed hn, functionPiece_unclosed hbarred, barredReading, List.take_length]
    rfl
  | some n =>
    obtain ⟨params, after, rfl, rfl, hbehind, hbarred⟩ := interior?_params hn
    have hafter : ModuleFree after := hfree.right.tail
    have htake : barredBehind (.mark .lparen)
        ((params ++ .mark .rparen :: after).take (params.length + 1 + (resultTail after).2))
          = barred params ++ .mark .rparen ::
              barredBehind (.mark .rparen) (after.take (resultTail after).2) :=
      barredBehind_take_bracket .paren params after (resultTail after).2
    rw [functionPiece_of_interior name hn, hbehind, functionPiece_of_interior name hbarred,
      resultTail_barred hafter]
    refine Prod.ext rfl ?_
    show _ = (barredBehind (.mark .lparen) (List.take _ _)).length
    rw [htake, List.length_append, List.length_cons]
    omega

/-- a token more in front of the same piece -/
theorem barredReading_cons {t next : Token} {rest : List Token} (h : t.adjoins next = false)
    (r : Piece × Nat) :
    barredReading t (next :: rest) (r.1, r.2 + 1)
      = ((barredReading next rest r).1, (barredReading next rest r).2 + 1) := by
  unfold barredReading
  rw [List.take_succ_cons, barredBehind_cons h]
  rfl

namespace Piece

theorem ofWord_plain (w : String) {rest : List Token}
    (hparen : ∀ more, rest ≠ .mark .lparen :: more) (hcolon : ∀ more, rest ≠ .mark .colon :: more) :
    ofWord w rest = (plain (plainName w), 0) := by
  rw [ofWord]
  · exact hparen
  · exact hcolon

theorem ofWord_barred {w : String} {rest : List Token} (hfree : ModuleFree (.word w :: rest)) :
    ofWord w (barredBehind (.word w) rest) = barredReading (.word w) rest (ofWord w rest) := by
  fun_cases ofWord w rest with
  | case1 rest hw piece n h =>
    have hrest : ModuleFree rest := hfree.tail.tail
    have hnext : Token.adjoins (.word w) (.mark .lparen) = false := by
      rw [Token.adjoins, hw]
      rfl
    have hpiece := functionPiece_barred w hrest
    rw [h] at hpiece
    rw [barredBehind_call hw, ofWord, if_pos hw, hpiece]
    exact (barredReading_cons hnext (piece, n)).symm
  | case2 rest hw =>
    rw [barredBehind_no_call hw]
    rfl
  | case3 rest hw => exact absurd hw hfree.no_reference
  | case4 rest hw =>
    rw [barredBehind_separator rfl, ofWord, if_neg hw]
    rfl
  | case5 rest hcall hcolon =>
    rw [ofWord_plain w (barredBehind_ne_cons (by decide) hcall) (barredBehind_ne_cons (by decide) hcolon)]
    rfl

/-- the first piece of a span, and how many tokens it takes up -/
theorem first_barred {t : Token} {rest : List Token} (hfree : ModuleFree (t :: rest)) :
    first t (barredBehind t rest) = barredReading t rest (first t rest) := by
  fun_cases first t rest with
  | case1 w rest piece n h =>
    have hpiece : bracketed .angle w (barredBehind (.mark .lt) rest)
        (generic (String.ofList (dropDot w.toList))) = barredReading (.mark .lt) rest _ :=
      bracketed_barred .angle w rest fun _ => rfl
    have hnext : Token.adjoins (.word w) (.mark .lt) = false := rfl
    rw [barredBehind_cons hnext, first, hpiece, h]
    exact (barredReading_cons hnext (piece, n)).symm
  | case2 w rest hlt hw =>
    rw [first_word (barredBehind_ne_cons (by decide) hlt), if_pos hw]
    rfl
  | case3 w rest hlt hw =>
    rw [first_word (barredBehind_ne_cons (by decide) hlt), if_neg hw]
    exact ofWord_barred hfree
  | case4 rest => exact bracketed_barred .paren _ rest fun _ => rfl
  | case5 rest => exact bracketed_barred .brace _ rest fun _ => rfl
  | case6 rest m hparen hbrace hm =>
    rw [first, if_pos hm]
    · rfl
    · exact hparen
    · exact hbrace
  | case7 rest m hparen hbrace hm =>
    rw [first, if_neg hm]
    · rfl
    · exact hparen
    · exact hbrace

end Piece

/-! ## all pieces -/

/-- behind a token there may be a separator more -/
theorem pieces_barredBehind (t : Token) (rest : List Token) :
    pieces (barredBehind t rest) = pieces (barred rest) ∨
      pieces (barredBehind t rest) = .separator :: pieces (barred rest) := by
  rcases barredBehind_cases t rest with h | h
  · exact .inl (congrArg pieces h)
  · rw [h]
    exact .inr (pieces_separator rfl _)

theorem pieces_barred_cons {t : Token} {rest : List Token} (hfree : ModuleFree (t :: rest)) :
    ∃ last, pieces (barred (t :: rest))
      = (Piece.first t rest).1.withBars
        :: pieces (barredBehind last (rest.drop (Piece.first t rest).2)) := by
  refine ⟨(rest.take (Piece.first t rest).2).getLastD t, ?_⟩
  have hdrop := drop_barredBehind t rest (Piece.first t rest).2
  rw [barred, pieces_cons, Piece.first_barred hfree]
  exact congrArg (_ :: pieces ·) hdrop

/-! ## records and parameters -/

def Field.withBars : Field → Field
  | .typed key value => .typed key (barred value)
  | field => field

theorem Field.ofTokens_untyped (key : String) {rest : List Token}
    (h : ∀ first more, rest ≠ .mark .colon :: first :: more) :
    ofTokens (.word key :: rest) = .untyped key := by
  unfold ofTokens
  split
  · rename_i hrest
    exact absurd (List.cons.inj hrest).2 (h _ _)
  · rename_i hkey
    obtain ⟨rfl⟩ := Token.word.inj (List.cons.inj hkey).1
    rfl
  · rename_i hother
    exact (hother _ _ rfl).elim

theorem Field.ofTokens_barred (tokens : List Token) :
    ofTokens (barred tokens) = (ofTokens tokens).withBars := by
  rcases tokens with _ | ⟨_ | key, rest⟩
  case nil => rfl
  case cons.mark => rfl
  case cons.word =>
    rw [barred]
    rcases barredBehind_colon_cases (.word key) rest with
      ⟨first, more, rfl, hbehind⟩ | ⟨hrest, hbehind⟩
    · rw [hbehind]
      rfl
    · rw [ofTokens_untyped key hrest, ofTokens_untyped key hbehind]
      rfl

theorem paramType_unnamed (name : String) {rest : List Token}
    (h : ∀ first more, rest ≠ .mark .colon :: first :: more) :
    paramType (.word name :: rest) = .word name :: rest := by
  unfold paramType
  split
  · rename_i hrest
    exact absurd (List.cons.inj hrest).2 (h _ _)
  · rfl

theorem paramType_barred (tokens : List Token) :
    paramType (barred tokens) = barred (paramType tokens) := by
  rcases tokens with _ | ⟨_ | name, rest⟩
  case nil => rfl
  case cons.mark => rfl
  case cons.word =>
    rw [barred]
    rcases barredBehind_colon_cases (.word name) rest with
      ⟨first, more, rfl, hbehind⟩ | ⟨hrest, hbehind⟩
    · rw [hbehind, barred, paramType, paramType]
      by_cases hw : isModuleWord name = true
      · rw [if_pos hw, if_pos hw, barred, hbehind, barred]
      · rw [if_neg hw, if_neg hw, barred]
    · rw [paramType_unnamed name hrest, paramType_unnamed name hbehind, barred]

end DocTypes
