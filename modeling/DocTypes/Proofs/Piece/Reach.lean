import DocTypes.Proofs.Piece.Append

/-!
# How far a type reaches, by places

The end of a type can be looked for from a place of a list on.  A look takes in the token at a place
and the next one, and tells where the type ends that begins there, or where the result type begins
at whose end it ends.  Such a walk always ends, without a look beyond the list.  It ends where the
first piece does that is read from there on; and where it finds no end, that piece has an unclosed
bracket and takes up the rest of the list.

* `look`              what is told by a look at a place;
* `Reaches`           where the type ends that begins at a place;
* `exists_reach`      that is one place, as far as `unitLength?` tells, or there is no end;
* `Piece.first_take`  the first piece is the same without what stands behind it;
* `Piece.first_ends`  it takes up as many tokens as the type, or it is not closed and takes up all;
* `pieceAt?`          the piece that begins at a place, and the place behind it.
-/

namespace DocTypes

/-! ## walks -/

inductive Look where
  /-- no token is there -/
  | outside
  /-- the type ends at the place `last`, or a bracket of it is not closed -/
  | ends (last : Option Nat)
  /-- it ends where the type does that begins at `place` -/
  | result (place : Nat)
  deriving DecidableEq, Repr

/-- A function goes on behind the colon that announces its result, if something stands there, and a
reference into a module goes on to the end of the list. -/
def look (tokens : List Token) (j : Nat) : Look :=
  match tokens[j]?, tokens[j + 1]? with
  | none, _ => .outside
  | some (.word _), some (.mark .lt) => .ends (matchIndex? tokens (j + 1) (.mark .lt) (.mark .gt))
  | some (.mark .lparen), _ => .ends (matchIndex? tokens j (.mark .lparen) (.mark .rparen))
  | some (.mark .lbrace), _ => .ends (matchIndex? tokens j (.mark .lbrace) (.mark .rbrace))
  | some (.word w), some (.mark .lparen) =>
    if isFunctionWord w then
      match matchIndex? tokens (j + 1) (.mark .lparen) (.mark .rparen) with
      | none => .ends none
      | some closing =>
        if closing + 2 < tokens.length ∧ tokens[closing + 1]? = some (.mark .colon) then
          .result (closing + 2)
        else .ends (some closing)
    else .ends (some j)
  | some (.word w), some (.mark .colon) =>
    .ends (some (if isModuleWord w then tokens.length - 1 else j))
  | some _, _ => .ends (some j)

/-- the type that begins at a place ends at the place `last`, or a bracket of it is not closed -/
inductive Reaches (tokens : List Token) : Nat → Option Nat → Prop where
  | ends {j : Nat} {last : Option Nat} (h : look tokens j = .ends last) : Reaches tokens j last
  | result {j place : Nat} {last : Option Nat} (h : look tokens j = .result place)
      (hresult : Reaches tokens place last) : Reaches tokens j last

section
variable {tokens rest : List Token} {j : Nat}

theorem Reaches.unique {e e' : Option Nat} (h : Reaches tokens j e) (h' : Reaches tokens j e') :
    e = e' := by
  induction h with
  | ends hlook =>
    cases h' with
    | ends hlook' => exact Look.ends.inj (hlook.symm.trans hlook')
    | result hlook' => cases hlook.symm.trans hlook'
  | result hlook _ ih =>
    cases h' with
    | ends hlook' => cases hlook.symm.trans hlook'
    | result hlook' hresult' =>
      obtain rfl := Look.result.inj (hlook.symm.trans hlook')
      exact ih hresult'

/-! ### what a look tells -/

theorem look_args {w : String} (hdrop : tokens.drop j = .word w :: .mark .lt :: rest) :
    look tokens j = .ends (matchIndex? tokens (j + 1) (.mark .lt) (.mark .gt)) := by
  simp only [look, getElem?_of_drop hdrop, getElem?_of_drop (drop_succ_of_drop hdrop)]

theorem look_bracket {b : Bracket} (hb : b ≠ .angle)
    (hdrop : tokens.drop j = .mark b.opener :: rest) :
    look tokens j = .ends (matchIndex? tokens j (.mark b.opener) (.mark b.closer)) := by
  unfold look
  rw [getElem?_of_drop hdrop]
  cases b with
  | angle => exact absurd rfl hb
  | paren | brace => rfl

/-- a look at a function tells that its parameters do not end, or goes on behind the colon that
announces its result -/
theorem look_function {w : String} (hw : isFunctionWord w = true)
    (hdrop : tokens.drop j = .word w :: .mark .lparen :: rest) :
    look tokens j = match Bracket.paren.interior? rest with
      | none => .ends none
      | some k =>
        if j + k + 4 < tokens.length ∧ tokens[j + k + 3]? = some (.mark .colon) then
          .result (j + k + 4)
        else .ends (some (j + k + 2)) := by
  have hnext := drop_succ_of_drop hdrop
  have hmatch : matchIndex? tokens (j + 1) (.mark .lparen) (.mark .rparen)
      = (Bracket.paren.interior? rest).map (· + (j + 2)) := Bracket.paren.matchIndex?_of_drop hnext
  simp only [look, getElem?_of_drop hdrop, getElem?_of_drop hnext, if_pos hw, hmatch]
  cases Bracket.paren.interior? rest with
  | none => rfl
  | some k =>
    have hclosing : k + (j + 2) = j + k + 2 := by omega
    simp only [Option.map_some, hclosing]

/-- a look at a token that begins nothing longer tells its own place -/
theorem look_one {t : Token} (hdrop : tokens.drop j = t :: rest)
    (hargs : ∀ w more, t :: rest ≠ .word w :: .mark .lt :: more)
    (hparen : ∀ more, t :: rest ≠ .mark .lparen :: more)
    (hbrace : ∀ more, t :: rest ≠ .mark .lbrace :: more)
    (hcall : ∀ w more, t :: rest ≠ .word w :: .mark .lparen :: more)
    (hcolon : ∀ w more, t :: rest ≠ .word w :: .mark .colon :: more) :
    look tokens j = .ends (some j) := by
  have hnext : tokens[j + 1]? = rest.head? := by
    rw [← drop_succ_of_drop hdrop, List.head?_drop]
  rcases t with m | w
  · cases m with
    | lparen => exact absurd rfl (hparen rest)
    | lbrace => exact absurd rfl (hbrace rest)
    | lt | gt | comma | rparen | bar | rbrace | colon => simp only [look, getElem?_of_drop hdrop]
  · rcases rest with _ | ⟨m | next, rest⟩
    · simp only [look, getElem?_of_drop hdrop, hnext, List.head?_nil]
    · cases m with
      | lt => exact absurd rfl (hargs w rest)
      | lparen => exact absurd rfl (hcall w rest)
      | colon => exact absurd rfl (hcolon w rest)
      | gt | comma | rparen | bar | lbrace | rbrace =>
        simp only [look, getElem?_of_drop hdrop, hnext, List.head?_cons]
    · simp only [look, getElem?_of_drop hdrop, hnext, List.head?_cons]

/-! ### where a walk ends -/

/-- a walk that ends where a bracket does -/
theorem ends_of_bracket (b : Bracket) {k : Nat} (hdrop : tokens.drop k = .mark b.opener :: rest)
    (hlook : look tokens j = .ends (matchIndex? tokens k (.mark b.opener) (.mark b.closer))) :
    ∃ e, Reaches tokens j e ∧ e.map (· + 1) = (b.interior? rest).map (· + (k + 2)) := by
  refine ⟨_, .ends hlook, ?_⟩
  rw [b.matchIndex?_of_drop hdrop, Option.map_map]
  rfl

/-- a walk that ends where it begins -/
theorem ends_of_one (hlook : look tokens j = .ends (some j)) :
    ∃ e, Reaches tokens j e ∧ e.map (· + 1) = (some 1).map (· + j) := by
  refine ⟨_, .ends hlook, ?_⟩
  rw [Option.map_some, Option.map_some, Nat.add_comm]

theorem map_shift (o : Option Nat) {a b c : Nat} (h : a + b = c) :
    o.map (· + c) = (o.map (· + a)).map (· + b) := by
  rw [Option.map_map]
  refine Option.map_congr fun n _ => ?_
  show n + c = n + a + b
  omega

/-- the tokens behind the parameters of a function, by their place in the list -/
theorem drop_params {w : String} (hdrop : tokens.drop j = .word w :: .mark .lparen :: rest)
    (k : Nat) : tokens.drop (j + k + 3) = rest.drop (k + 1) := by
  have hplace : j + k + 3 = j + 1 + 1 + (k + 1) := by omega
  rw [hplace, ← List.drop_drop, drop_succ_of_drop (drop_succ_of_drop hdrop)]

theorem exists_reaches {ts : List Token} (hts : ts ≠ []) (hdrop : tokens.drop j = ts) :
    ∃ e, Reaches tokens j e ∧ e.map (· + 1) = (unitLength? ts).map (· + j) := by
  -- each result of a chain is walked to from the colon in front of it
  fun_induction unitLength? ts generalizing j with
  | case1 w rest =>
    have hnext := drop_succ_of_drop hdrop
    obtain ⟨e, he, heq⟩ := ends_of_bracket .angle hnext (look_args hdrop)
    exact ⟨e, he, heq.trans (map_shift _ (by omega))⟩
  | case2 rest =>
    obtain ⟨e, he, heq⟩ := ends_of_bracket .paren hdrop (look_bracket (by decide) hdrop)
    exact ⟨e, he, heq.trans (map_shift _ (by omega))⟩
  | case3 rest =>
    obtain ⟨e, he, heq⟩ := ends_of_bracket .brace hdrop (look_bracket (by decide) hdrop)
    exact ⟨e, he, heq.trans (map_shift _ (by omega))⟩
  | case4 w rest hw hk =>
    have hlook := look_function hw hdrop
    rw [hk] at hlook
    exact ⟨none, .ends hlook, rfl⟩
  | case5 w rest hw k hk first more hmore ih =>
    have hlook := look_function hw hdrop
    rw [hk] at hlook
    rw [← drop_params hdrop] at hmore
    have hresult : tokens.drop (j + k + 4) = first :: more := drop_succ_of_drop hmore
    have hcolon : tokens[j + k + 3]? = some (.mark .colon) := getElem?_of_drop hmore
    obtain ⟨e, he, heq⟩ := ih (List.cons_ne_nil _ _) hresult
    refine ⟨e, .result (hlook.trans ?_) he, heq.trans (map_shift _ (by omega))⟩
    exact if_pos ⟨lt_length_of_drop hresult, hcolon⟩
  | case6 w rest hw k hk hother =>
    have hlook := look_function hw hdrop
    rw [hk] at hlook
    have hlast : ¬(j + k + 4 < tokens.length ∧ tokens[j + k + 3]? = some (.mark .colon)) := by
      rintro ⟨hlt, hcolon⟩
      obtain ⟨hcolonLt, hcolon⟩ := List.getElem?_eq_some_iff.1 hcolon
      apply hother tokens[j + k + 4] (tokens.drop (j + k + 5))
      rw [← drop_params hdrop, List.drop_eq_getElem_cons hcolonLt, hcolon,
        List.drop_eq_getElem_cons hlt]
    refine ⟨_, .ends (hlook.trans (if_neg hlast)), ?_⟩
    show some (j + k + 3) = some (k + 3 + j)
    congr 1
    omega
  | case7 w rest hw =>
    have hnext := drop_succ_of_drop hdrop
    apply ends_of_one
    simp only [look, getElem?_of_drop hdrop, getElem?_of_drop hnext, if_neg hw]
  | case8 w rest hw =>
    have hnext := drop_succ_of_drop hdrop
    have hlook : look tokens j = .ends (some (tokens.length - 1)) := by
      simp only [look, getElem?_of_drop hdrop, getElem?_of_drop hnext, if_pos hw]
    refine ⟨_, .ends hlook, ?_⟩
    have hlength := length_of_drop hdrop
    rw [List.length_cons] at hlength
    show some (tokens.length - 1 + 1) = some (rest.length + 2 + j)
    congr 1
    omega
  | case9 w rest hw =>
    have hnext := drop_succ_of_drop hdrop
    apply ends_of_one
    simp only [look, getElem?_of_drop hdrop, getElem?_of_drop hnext, if_neg hw]
  | case10 ts hargs hparen hbrace hcall hcolon =>
    obtain ⟨t, rest, rfl⟩ := List.exists_cons_of_ne_nil hts
    exact ends_of_one (look_one hdrop hargs hparen hbrace hcall hcolon)

/-- A walk from a place inside a list ends, in one way only, and where `unitLength?` tells. -/
theorem exists_reach (hj : j < tokens.length) :
    ∃ e, (∀ e', Reaches tokens j e' ↔ e' = e) ∧
      e.map (· + 1) = (unitLength? (tokens.drop j)).map (· + j) := by
  have hne : tokens.drop j ≠ [] := fun h => Nat.not_le_of_lt hj (List.drop_eq_nil_iff.1 h)
  obtain ⟨e, he, heq⟩ := exists_reaches hne rfl
  refine ⟨e, ?_, heq⟩
  intro e'
  constructor
  · intro he'
    exact he'.unique he
  · rintro rfl
    exact he

end

/-! ## a type without what stands behind it -/

theorem nil_ne_cons (t : Token) (more : List Token) : [] ≠ t :: more :=
  (List.cons_ne_nil t more).symm

/-- what the next token is not, it is not with less behind it -/
theorem take_ne_cons {rest : List Token} {t : Token} (h : ∀ more, rest ≠ t :: more) (n : Nat) :
    ∀ more, rest.take n ≠ t :: more := by
  intro more htake
  apply h (more ++ rest.drop n)
  rw [← List.cons_append, ← htake, List.take_append_drop]

theorem unitLength?_pos {tokens : List Token} {n : Nat} (h : unitLength? tokens = some n) :
    0 < n := by
  fun_induction unitLength? tokens with
  | case1 | case2 | case3 | case5 =>
    obtain ⟨k, -, rfl⟩ := Option.map_eq_some_iff.1 h
    omega
  | case4 => cases h
  | case6 | case7 | case8 | case9 | case10 =>
    obtain rfl := Option.some.inj h
    omega

theorem unitLength?_take {tokens : List Token} {n : Nat} (h : unitLength? tokens = some n) :
    unitLength? (tokens.take n) = some n := by
  fun_induction unitLength? tokens generalizing n with
  | case1 w rest | case2 rest | case3 rest =>
    obtain ⟨k, hk, rfl⟩ := Option.map_eq_some_iff.1 h
    simp only [List.take_succ_cons, unitLength?, Bracket.interior?_take hk (Nat.lt_succ_self k),
      Option.map_some]
  | case4 => cases h
  | case5 w rest hw k hk first more hdrop ih =>
    obtain ⟨params, after, rfl, rfl, hparams⟩ := exists_params hk
    obtain rfl : after = .mark .colon :: first :: more :=
      (drop_past params _ after 0).symm.trans hdrop
    obtain ⟨m, hm, rfl⟩ := Option.map_eq_some_iff.1 h
    -- the result takes up a token at least, so the colon announces one in the shorter list too
    obtain ⟨i, rfl⟩ := Nat.exists_eq_succ_of_ne_zero (Nat.ne_of_gt (unitLength?_pos hm))
    have hlength : i.succ + (params.length + 4) = params.length + 1 + (i + 2) + 2 := by omega
    rw [hlength, List.take_succ_cons, List.take_succ_cons, take_past, List.take_succ_cons,
      List.take_succ_cons, unitLength?_of_interior hw _ _ (hparams _)]
    show (unitLength? ((first :: more).take i.succ)).map (· + (params.length + 4)) = _
    rw [ih hm, Option.map_some, hlength]
  | case6 w rest hw k hk hother =>
    obtain ⟨params, after, rfl, rfl, hparams⟩ := exists_params hk
    obtain rfl := Option.some.inj h
    have htake : (params ++ Token.mark .rparen :: after).take (params.length + 1)
        = params ++ [.mark .rparen] := take_past params _ after 0
    rw [List.take_succ_cons, List.take_succ_cons, htake, unitLength?_of_interior hw _ _ (hparams _)]
  | case7 w rest hw =>
    obtain rfl := Option.some.inj h
    simp [unitLength?]
  | case8 w rest hw =>
    obtain rfl := Option.some.inj h
    have htake : (Token.word w :: .mark .colon :: rest).take (rest.length + 2)
        = .word w :: .mark .colon :: rest := List.take_of_length_le (Nat.le_refl _)
    rw [htake, unitLength?, if_pos hw]
  | case9 w rest hw =>
    obtain rfl := Option.some.inj h
    simp [unitLength?]
  | case10 tokens hargs hparen hbrace hcall hcolon =>
    obtain rfl := Option.some.inj h
    rcases tokens with _ | ⟨m | w, rest⟩
    · simp [unitLength?]
    · refine unitLength?_mark ?_ ?_ []
      · rintro rfl
        exact hparen rest rfl
      · rintro rfl
        exact hbrace rest rfl
    · exact unitLength?_word w (nil_ne_cons _) (nil_ne_cons _) (nil_ne_cons _)

theorem bracketed_take (b : Bracket) (fragment : String) (rest : List Token)
    (make : List Token → Piece) :
    bracketed b fragment (rest.take (bracketed b fragment rest make).2) make
      = bracketed b fragment rest make := by
  cases hn : b.interior? rest with
  | none => rw [bracketed_unclosed hn, List.take_length, bracketed_unclosed hn]
  | some n =>
    rw [bracketed_of_eq_some hn, bracketed_of_eq_some (Bracket.interior?_take hn (Nat.lt_succ_self n)),
      List.take_take, Nat.min_eq_left (Nat.le_succ n)]

theorem resultTail_take (after : List Token) :
    resultTail (after.take (resultTail after).2) = resultTail after := by
  fun_cases resultTail after with
  | case1 first more n hn =>
    obtain ⟨i, rfl⟩ := Nat.exists_eq_succ_of_ne_zero (Nat.ne_of_gt (unitLength?_pos hn))
    have hreach : unitLength? (first :: more.take i) = some i.succ := unitLength?_take hn
    have htake : (first :: more.take i).take i.succ = first :: more.take i := by
      rw [List.take_succ_cons, List.take_take, Nat.min_self]
    rw [List.take_succ_cons, List.take_succ_cons, resultTail_span hreach, htake]
  | case2 first more hn =>
    have htake : (Token.mark .colon :: first :: more).take (more.length + 2)
        = .mark .colon :: first :: more := List.take_of_length_le (Nat.le_refl _)
    rw [htake, resultTail_unclosed hn]
  | case3 => rfl

theorem functionPiece_take (name : String) (rest : List Token) :
    functionPiece name (rest.take (functionPiece name rest).2) = functionPiece name rest := by
  cases hn : Bracket.paren.interior? rest with
  | none => rw [functionPiece_unclosed hn, List.take_length, functionPiece_unclosed hn]
  | some n =>
    obtain ⟨params, after, rfl, rfl, hparams⟩ := exists_params hn
    rw [functionPiece_of_interior name hn, take_past, functionPiece_of_interior name (hparams _),
      resultTail_take]

namespace Piece

theorem ofWord_take (w : String) (rest : List Token) :
    ofWord w (rest.take (ofWord w rest).2) = ofWord w rest := by
  fun_cases ofWord w rest with
  | case1 rest hw piece n hpiece =>
    have htake := functionPiece_take w rest
    rw [hpiece] at htake
    rw [List.take_succ_cons, ofWord, if_pos hw, htake]
  | case3 rest hw =>
    rw [List.take_succ_cons, List.take_length, ofWord, if_pos hw]
  | case2 | case4 | case5 => exact ofWord_plain w (nil_ne_cons _) (nil_ne_cons _)

/-- the first piece is the same without what stands behind it -/
theorem first_take (t : Token) (rest : List Token) :
    first t (rest.take (first t rest).2) = first t rest := by
  fun_cases first t rest with
  | case1 w rest piece n hpiece =>
    have htake := bracketed_take .angle w rest (generic (String.ofList (dropDot w.toList)))
    rw [hpiece] at htake
    rw [List.take_succ_cons, first, htake]
  | case2 w rest hlt hw =>
    rw [first_word (take_ne_cons hlt 0), if_pos hw]
  | case3 w rest hlt hw =>
    rw [first_word (take_ne_cons hlt _), if_neg hw, ofWord_take]
  | case4 rest => exact bracketed_take ..
  | case5 rest => exact bracketed_take ..
  | case6 m rest hparen hbrace hm =>
    rw [first, if_pos hm]
    · exact hparen
    · exact hbrace
  | case7 m rest hparen hbrace hm =>
    rw [first, if_neg hm]
    · exact hparen
    · exact hbrace

end Piece

/-! ## as far as the type -/

/-- a piece that takes up as many tokens as a type does, the first of them apart; or one with an
unclosed bracket that takes up all the rest, where the type has no end -/
def EndsWith (length? : Option Nat) (rest : List Token) (piece : Piece × Nat) : Prop :=
  length? = some (piece.2 + 1) ∨ length? = none ∧ piece.2 = rest.length ∧ ¬piece.1.Closed

theorem EndsWith.cons {length? : Option Nat} {rest : List Token} {piece : Piece} {n : Nat}
    (h : EndsWith length? rest (piece, n)) (t : Token) :
    EndsWith (length?.map (· + 1)) (t :: rest) (piece, n + 1) := by
  rcases h with rfl | ⟨rfl, hn, hclosed⟩
  · exact .inl rfl
  · exact .inr ⟨rfl, congrArg (· + 1) hn, hclosed⟩

theorem bracketed_ends (b : Bracket) (fragment : String) (rest : List Token)
    (make : List Token → Piece) :
    EndsWith ((b.interior? rest).map (· + 2)) rest (bracketed b fragment rest make) := by
  unfold bracketed
  cases b.interior? rest with
  | none => exact .inr ⟨rfl, rfl, id⟩
  | some n => exact .inl rfl

theorem functionPiece_ends {w : String} (hw : isFunctionWord w = true) (rest : List Token) :
    EndsWith (unitLength? (.word w :: .mark .lparen :: rest)) (.mark .lparen :: rest)
      ((functionPiece w rest).1, (functionPiece w rest).2 + 1) := by
  cases hn : Bracket.paren.interior? rest with
  | none =>
    rw [functionPiece_unclosed hn]
    exact .inr ⟨unitLength?_unclosed hw hn, rfl, id⟩
  | some n =>
    obtain ⟨params, after, rfl, rfl, -⟩ := exists_params hn
    rw [functionPiece_of_interior w hn, unitLength?_of_interior hw _ _ hn]
    fun_cases resultTail after with
    | case1 first more k hk =>
      show EndsWith ((unitLength? (first :: more)).map (· + (params.length + 4))) _ _
      rw [hk]
      refine .inl (congrArg some ?_)
      show k + (params.length + 4) = params.length + 1 + (k + 1) + 1 + 1
      omega
    | case2 first more hk =>
      show EndsWith ((unitLength? (first :: more)).map (· + (params.length + 4))) _ _
      rw [hk]
      refine .inr ⟨rfl, ?_, id⟩
      simp only [List.length_cons, List.length_append]
      omega
    | case3 after hother =>
      refine .inl ?_
      split
      · exact absurd rfl (hother _ _)
      · rfl

namespace Piece

theorem ofWord_ends {w : String} {rest : List Token} (hlt : ∀ more, rest ≠ .mark .lt :: more) :
    EndsWith (unitLength? (.word w :: rest)) rest (ofWord w rest) := by
  fun_cases ofWord w rest with
  | case1 rest hw piece n hpiece =>
    have hends := functionPiece_ends hw rest
    rwa [hpiece] at hends
  | case2 rest hw =>
    refine .inl ?_
    rw [unitLength?, if_neg hw]
  | case3 rest hw =>
    refine .inl ?_
    rw [unitLength?, if_pos hw]
  | case4 rest hw =>
    refine .inl ?_
    rw [unitLength?, if_neg hw]
  | case5 rest hcall hcolon => exact .inl (unitLength?_word w hlt hcall hcolon)

/-- a word that ends in a dot announces neither parameters nor a module -/
theorem ofWord_dotted {w : String} (hw : endsInDot w.toList = true) (rest : List Token) :
    ofWord w rest = (plain (plainName w), 0) := by
  fun_cases ofWord w rest with
  | case1 rest hfunction => exact absurd hw (Bool.eq_false_iff.1 (undotted_of_isFunctionWord hfunction))
  | case3 rest hmodule => exact absurd hw (Bool.eq_false_iff.1 (undotted_of_isModuleWord hmodule))
  | case2 | case4 | case5 => rfl

theorem first_ends (t : Token) (rest : List Token) :
    EndsWith (unitLength? (t :: rest)) rest (first t rest) := by
  fun_cases first t rest with
  | case1 w rest piece n hpiece =>
    have hends := bracketed_ends .angle w rest (generic (String.ofList (dropDot w.toList)))
    rw [hpiece] at hends
    rw [unitLength?, map_shift _ (show 2 + 1 = 3 from rfl)]
    exact hends.cons _
  | case2 w rest hlt hw =>
    have hends := ofWord_ends (w := w) hlt
    rw [ofWord_dotted hw] at hends
    exact .inl (hends.resolve_right fun h => h.2.2 trivial)
  | case3 w rest hlt hw => exact ofWord_ends hlt
  | case4 rest =>
    rw [unitLength?]
    exact bracketed_ends ..
  | case5 rest =>
    rw [unitLength?]
    exact bracketed_ends ..
  | case6 m rest hparen hbrace hm => exact .inl (unitLength?_mark hparen hbrace rest)
  | case7 m rest hparen hbrace hm => exact .inl (unitLength?_mark hparen hbrace rest)

end Piece

/-- the piece that begins at a place of a list, and the place behind it -/
def pieceAt? (tokens : List Token) (j : Nat) : Option (Piece × Nat) :=
  match tokens.drop j with
  | [] => none
  | t :: rest => some ((Piece.first t rest).1, j + 1 + (Piece.first t rest).2)

theorem pieceAt?_of_drop {tokens rest : List Token} {j : Nat} {t : Token}
    (hdrop : tokens.drop j = t :: rest) :
    pieceAt? tokens j = some ((Piece.first t rest).1, j + 1 + (Piece.first t rest).2) := by
  rw [pieceAt?, hdrop]

end DocTypes
