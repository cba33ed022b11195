import DocTypes.Proofs.Piece.Barred

/-!
# Spans one behind the other

To tell where a piece ends, one looks ahead: at the next token, at the closing mark of a bracket, at
the result type of a function.  If a span ends in a bar or a comma and all its brackets are closed,
none of this reaches beyond its end, whatever stands there.  Then its pieces are the same with other
tokens behind it.

* `Sealed`               spans that are empty or end in a bar or a comma;
* `Piece.Closed`         pieces none of whose brackets is left unclosed;
* `closing?_congr`       what stands behind a closing token has no part in finding it;
* `unitLength?_append`   a type that ends within a sealed span ends there with more behind it;
* `Piece.first_append`   so does the first piece, which is the same;
* `pieces_append`        and so are all pieces.
-/

namespace DocTypes

/-! ## sealed spans -/

/-- nothing, or tokens that end in a bar or a comma -/
def Sealed (tokens : List Token) : Prop :=
  ∀ t ∈ tokens.getLast?, t = .mark .bar ∨ t = .mark .comma

instance : DecidablePred Sealed := fun tokens =>
  inferInstanceAs (Decidable (∀ t ∈ tokens.getLast?, _))

namespace Sealed

variable {t : Token} {rest : List Token}

theorem right {front : List Token} (h : Sealed (front ++ rest)) : Sealed rest := by
  intro last hlast
  refine h last ?_
  rw [List.getLast?_append, Option.mem_def.1 hlast]
  rfl

theorem tail (h : Sealed (t :: rest)) : Sealed rest :=
  have h : Sealed ([t] ++ rest) := h
  h.right

theorem drop (h : Sealed rest) (n : Nat) : Sealed (rest.drop n) := by
  rw [← List.take_append_drop n rest] at h
  exact h.right

/-- behind a token that is neither, something follows -/
theorem ne_nil (h : Sealed (t :: rest)) (hbar : t ≠ .mark .bar) (hcomma : t ≠ .mark .comma) :
    rest ≠ [] := by
  rintro rfl
  exact (h t rfl).elim hbar hcomma

theorem ne_nil_of_word {w : String} (h : Sealed (.word w :: rest)) : rest ≠ [] :=
  h.ne_nil nofun nofun

theorem ne_nil_of_rparen (h : Sealed (.mark .rparen :: rest)) : rest ≠ [] :=
  h.ne_nil nofun nofun

end Sealed

/-! ## the next tokens -/

/-- what the next token is not, it is not with more behind it -/
theorem append_ne_cons {rest : List Token} (hne : rest ≠ []) {t : Token}
    (h : ∀ more, rest ≠ t :: more) (behind : List Token) : ∀ more, rest ++ behind ≠ t :: more := by
  intro more heq
  cases rest with
  | nil => exact hne rfl
  | cons next rest => exact h rest (congrArg (· :: rest) (List.cons.inj heq).1)

/-- no colon of a sealed span announces what is behind the span -/
theorem append_ne_colon {rest : List Token} (hsealed : Sealed rest) (hne : rest ≠ [])
    (h : ∀ first more, rest ≠ .mark .colon :: first :: more) (behind : List Token) :
    ∀ first more, rest ++ behind ≠ .mark .colon :: first :: more := by
  intro first more heq
  rcases rest with _ | ⟨t, _ | ⟨next, rest⟩⟩
  · exact hne rfl
  · obtain rfl : t = .mark .colon := (List.cons.inj heq).1
    exact hsealed.ne_nil nofun nofun rfl
  · obtain rfl : t = .mark .colon := (List.cons.inj heq).1
    exact h next rest rfl

/-! ## brackets -/

theorem exists_cons_of_take {t : Token} {rest tokens : List Token} {k : Nat}
    (h : tokens.take (k + 1) = (t :: rest).take (k + 1)) :
    ∃ rest', tokens = t :: rest' ∧ rest'.take k = rest.take k := by
  cases tokens with
  | nil => cases h
  | cons t' rest' =>
    obtain ⟨rfl, hrest⟩ := List.cons.inj h
    exact ⟨rest', rfl, hrest⟩

/-- a closing token is found by the tokens up to it, whatever stands behind -/
theorem closing?_congr {o c : Token} {depth i : Nat} {tokens tokens' : List Token}
    (h : closing? o c depth tokens = some i) (hsame : tokens'.take (i + 1) = tokens.take (i + 1)) :
    closing? o c depth tokens' = some i := by
  fun_induction closing? o c depth tokens generalizing i tokens' with
  | case1 => cases h
  | case2 depth rest ih =>
    obtain ⟨j, hj, rfl⟩ := Option.map_eq_some_iff.1 h
    obtain ⟨rest', rfl, hrest⟩ := exists_cons_of_take hsame
    rw [closing?_cons_opening, ih hj hrest, Option.map_some]
  | case3 rest hne ih =>
    obtain ⟨j, hj, rfl⟩ := Option.map_eq_some_iff.1 h
    obtain ⟨rest', rfl, hrest⟩ := exists_cons_of_take hsame
    rw [closing?_cons_zero _ hne, ih hj hrest, Option.map_some]
  | case4 rest hne =>
    obtain rfl := Option.some.inj h
    obtain ⟨rest', rfl, -⟩ := exists_cons_of_take hsame
    exact closing?_cons_last rest' (Ne.symm hne)
  | case5 rest d hne ih =>
    obtain ⟨j, hj, rfl⟩ := Option.map_eq_some_iff.1 h
    obtain ⟨rest', rfl, hrest⟩ := exists_cons_of_take hsame
    rw [closing?_cons_closing _ _ (Ne.symm hne), ih hj hrest, Option.map_some]
  | case6 depth t rest ho hc ih =>
    obtain ⟨j, hj, rfl⟩ := Option.map_eq_some_iff.1 h
    obtain ⟨rest', rfl, hrest⟩ := exists_cons_of_take hsame
    rw [closing?_cons_of_ne _ _ ho hc, ih hj hrest, Option.map_some]

section
variable {b : Bracket} {rest : List Token} {n : Nat} (h : b.interior? rest = some n)
include h

theorem Bracket.interior?_append (behind : List Token) : b.interior? (rest ++ behind) = some n :=
  closing?_congr h (List.take_append_of_le_length (interior?_lt h))

theorem Bracket.interior?_take {k : Nat} (hk : n < k) : b.interior? (rest.take k) = some n := by
  refine closing?_congr h ?_
  rw [List.take_take, Nat.min_eq_left hk]

end

/-- the parameters of a function and what stands behind them, or anything else there -/
theorem exists_params {rest : List Token} {n : Nat} (h : Bracket.paren.interior? rest = some n) :
    ∃ params after, rest = params ++ .mark .rparen :: after ∧ params.length = n ∧
      ∀ after', Bracket.paren.interior? (params ++ .mark .rparen :: after') = some params.length := by
  obtain ⟨params, after, rfl, rfl⟩ : ∃ params after,
      rest = params ++ .mark .rparen :: after ∧ params.length = n :=
    ⟨rest.take n, rest.drop (n + 1), Bracket.interior?_eq_some h, Bracket.length_interior h⟩
  refine ⟨params, after, rfl, rfl, fun after' => closing?_congr h ?_⟩
  rw [List.take_length_add_append, List.take_length_add_append]
  rfl

/-! ## how far a type reaches -/

theorem unitLength?_le {tokens : List Token} {n : Nat} (hne : tokens ≠ [])
    (h : unitLength? tokens = some n) : n ≤ tokens.length := by
  fun_induction unitLength? tokens generalizing n with
  | case1 w rest | case2 rest | case3 rest =>
    obtain ⟨k, hk, rfl⟩ := Option.map_eq_some_iff.1 h
    have := Bracket.interior?_lt hk
    simp only [List.length_cons]
    omega
  | case4 => cases h
  | case5 w rest hw k hk first more hdrop ih =>
    obtain ⟨j, hj, rfl⟩ := Option.map_eq_some_iff.1 h
    have hresult := ih (List.cons_ne_nil first more) hj
    have hlength := congrArg List.length hdrop
    simp only [List.length_drop, List.length_cons] at hlength hresult ⊢
    omega
  | case6 w rest hw k hk =>
    obtain rfl := Option.some.inj h
    have := Bracket.interior?_lt hk
    simp only [List.length_cons]
    omega
  | case8 w rest =>
    obtain rfl := Option.some.inj h
    exact Nat.le_refl _
  | case7 | case9 | case10 =>
    obtain rfl := Option.some.inj h
    exact List.length_pos_of_ne_nil hne

theorem unitLength?_append {tokens : List Token} (hsealed : Sealed tokens)
    (hfree : ModuleFree tokens) (hne : tokens ≠ []) {n : Nat} (h : unitLength? tokens = some n)
    (behind : List Token) : unitLength? (tokens ++ behind) = some n := by
  fun_induction unitLength? tokens generalizing n with
  | case1 w rest | case2 rest | case3 rest =>
    obtain ⟨k, hk, rfl⟩ := Option.map_eq_some_iff.1 h
    simp only [List.cons_append, unitLength?, Bracket.interior?_append hk, Option.map_some]
  | case4 => cases h
  | case5 w rest hw k hk first more hdrop ih =>
    obtain ⟨params, after, rfl, rfl, hparams⟩ := exists_params hk
    obtain rfl : after = .mark .colon :: first :: more :=
      (drop_past params _ after 0).symm.trans hdrop
    obtain ⟨j, hj, rfl⟩ := Option.map_eq_some_iff.1 h
    have hresult := ih hsealed.tail.tail.right.tail.tail hfree.tail.tail.right.tail.tail
      (List.cons_ne_nil first more) hj
    rw [List.cons_append, List.cons_append, List.append_assoc, List.cons_append,
      unitLength?_of_interior hw _ _ (hparams _)]
    exact congrArg (Option.map (· + (params.length + 4))) hresult
  | case6 w rest hw k hk hother =>
    obtain ⟨params, after, rfl, rfl, hparams⟩ := exists_params hk
    have hafter : Sealed (.mark .rparen :: after) := hsealed.tail.tail.right
    have hcolon : ∀ first more, after ≠ .mark .colon :: first :: more := by
      rintro first more rfl
      exact hother first more (drop_past params _ _ 0)
    have hnone := append_ne_colon hafter.tail hafter.ne_nil_of_rparen hcolon behind
    rw [List.cons_append, List.cons_append, List.append_assoc, List.cons_append,
      unitLength?_of_interior hw _ _ (hparams _), ← h]
    split
    · rename_i hannounced
      exact absurd hannounced (hnone _ _)
    · rfl
  | case7 w rest hw =>
    rw [List.cons_append, List.cons_append, unitLength?, if_neg hw]
    exact h
  | case8 w rest hw => exact absurd hw hfree.no_reference
  | case9 w rest hw =>
    rw [List.cons_append, List.cons_append, unitLength?, if_neg hw]
    exact h
  | case10 tokens hargs hparen hbrace hcall hcolon =>
    rcases tokens with _ | ⟨m | w, rest⟩
    · exact absurd rfl hne
    · rw [List.cons_append, unitLength?_mark _ _ (rest ++ behind)]
      · exact h
      · rintro rfl
        exact hparen _ rfl
      · rintro rfl
        exact hbrace _ rfl
    · have hrest : rest ≠ [] := hsealed.ne_nil_of_word
      rw [List.cons_append, unitLength?_word w (append_ne_cons hrest _ behind)
        (append_ne_cons hrest _ behind) (append_ne_cons hrest _ behind)]
      · exact h
      · rintro more rfl
        exact hargs w more rfl
      · rintro more rfl
        exact hcall w more rfl
      · rintro more rfl
        exact hcolon w more rfl

/-! ## the first piece -/

def Tail.Closed : Tail → Prop
  | unclosed _ => False
  | absent | span _ => True

/-- no bracket of the piece, and none of the result that it announces, is left unclosed -/
def Piece.Closed : Piece → Prop
  | unclosed _ _ => False
  | function _ _ result => result.Closed
  | plain _ | generic _ _ | group _ | record _ | reference _ _ _ | pathless | separator | stray _ =>
    True

section
variable (behind : List Token)

theorem bracketed_append {b : Bracket} {fragment : String} {rest : List Token}
    {make : List Token → Piece} (h : (bracketed b fragment rest make).1.Closed) :
    bracketed b fragment (rest ++ behind) make = bracketed b fragment rest make := by
  cases hn : b.interior? rest with
  | none =>
    rw [bracketed_unclosed hn] at h
    exact h.elim
  | some n =>
    have htake : (rest ++ behind).take n = rest.take n :=
      List.take_append_of_le_length (Nat.le_of_lt (Bracket.interior?_lt hn))
    rw [bracketed, bracketed, hn, Bracket.interior?_append hn]
    simp only [htake]

theorem resultTail_append {after : List Token} (hsealed : Sealed after) (hfree : ModuleFree after)
    (hne : after ≠ []) (h : (resultTail after).1.Closed) :
    resultTail (after ++ behind) = resultTail after := by
  by_cases hcolon : ∃ first more, after = .mark .colon :: first :: more
  · obtain ⟨first, more, rfl⟩ := hcolon
    have hresult : first :: more ≠ [] := List.cons_ne_nil first more
    cases hn : unitLength? (first :: more) with
    | none =>
      rw [resultTail_unclosed hn] at h
      exact h.elim
    | some n =>
      have hreach : unitLength? (first :: (more ++ behind)) = some n :=
        unitLength?_append hsealed.tail hfree.tail hresult hn behind
      have htake : (first :: (more ++ behind)).take n = (first :: more).take n :=
        List.take_append_of_le_length (unitLength?_le hresult hn)
      rw [List.cons_append, List.cons_append, resultTail_span hn, resultTail_span hreach, htake]
  · have hnone : ∀ first more, after ≠ .mark .colon :: first :: more :=
      fun first more hafter => hcolon ⟨first, more, hafter⟩
    rw [resultTail_absent hnone, resultTail_absent (append_ne_colon hsealed hne hnone behind)]

theorem functionPiece_append {name : String} {rest : List Token} (hsealed : Sealed rest)
    (hfree : ModuleFree rest) (h : (functionPiece name rest).1.Closed) :
    functionPiece name (rest ++ behind) = functionPiece name rest := by
  cases hn : Bracket.paren.interior? rest with
  | none =>
    rw [functionPiece_unclosed hn] at h
    exact h.elim
  | some n =>
    obtain ⟨params, after, rfl, rfl, hparams⟩ := exists_params hn
    have hafter : Sealed (.mark .rparen :: after) := hsealed.right
    rw [functionPiece_of_interior name hn] at h ⊢
    rw [List.append_assoc, List.cons_append, functionPiece_of_interior name (hparams _),
      resultTail_append behind hafter.tail hfree.right.tail hafter.ne_nil_of_rparen h]

namespace Piece

theorem ofWord_append {w : String} {rest : List Token} (hsealed : Sealed (.word w :: rest))
    (hfree : ModuleFree (.word w :: rest)) (h : (ofWord w rest).1.Closed) :
    ofWord w (rest ++ behind) = ofWord w rest := by
  fun_cases ofWord w rest with
  | case1 rest hw piece n hpiece =>
    rw [ofWord, if_pos hw] at h
    have hsame : functionPiece w (rest ++ behind) = functionPiece w rest :=
      functionPiece_append behind hsealed.tail.tail hfree.tail.tail h
    rw [List.cons_append, ofWord, if_pos hw, hsame, hpiece]
  | case2 rest hw => rw [List.cons_append, ofWord, if_neg hw]
  | case3 rest hw => exact absurd hw hfree.no_reference
  | case4 rest hw => rw [List.cons_append, ofWord, if_neg hw]
  | case5 rest hcall hcolon =>
    have hrest : rest ≠ [] := hsealed.ne_nil_of_word
    exact ofWord_plain w (append_ne_cons hrest hcall behind) (append_ne_cons hrest hcolon behind)

theorem first_append {t : Token} {rest : List Token} (hsealed : Sealed (t :: rest))
    (hfree : ModuleFree (t :: rest)) (h : (first t rest).1.Closed) :
    first t (rest ++ behind) = first t rest := by
  fun_cases first t rest with
  | case1 w rest piece n hpiece =>
    rw [first] at h
    rw [List.cons_append, first, bracketed_append behind h, hpiece]
  | case2 w rest hlt hw =>
    rw [first_word hlt, if_pos hw] at h
    exact h.elim
  | case3 w rest hlt hw =>
    have hrest : rest ≠ [] := hsealed.ne_nil_of_word
    rw [first_word hlt, if_neg hw] at h
    rw [first_word (append_ne_cons hrest hlt behind), if_neg hw]
    exact ofWord_append behind hsealed hfree h
  | case4 rest => exact bracketed_append behind h
  | case5 rest => exact bracketed_append behind h
  | case6 rest m hparen hbrace hm =>
    rw [first, if_pos hm]
    · exact hparen
    · exact hbrace
  | case7 rest m hparen hbrace hm =>
    rw [first, if_neg hm]
    · exact hparen
    · exact hbrace

end Piece

end

/-! ## how many tokens a piece takes up -/

theorem bracketed_le (b : Bracket) (fragment : String) (rest : List Token)
    (make : List Token → Piece) : (bracketed b fragment rest make).2 ≤ rest.length := by
  unfold bracketed
  split
  · exact Bracket.interior?_lt ‹_›
  · exact Nat.le_refl _

theorem resultTail_le (after : List Token) : (resultTail after).2 ≤ after.length := by
  fun_cases resultTail after with
  | case1 first more n hn => exact Nat.succ_le_succ (unitLength?_le (List.cons_ne_nil _ _) hn)
  | case2 | case3 => simp

theorem functionPiece_le (name : String) (rest : List Token) :
    (functionPiece name rest).2 ≤ rest.length := by
  fun_cases functionPiece name rest with
  | case1 n hn result =>
    have hlt := Bracket.interior?_lt hn
    have hresult : result.2 ≤ (rest.drop (n + 1)).length := resultTail_le _
    rw [List.length_drop] at hresult
    show n + 1 + result.2 ≤ rest.length
    omega
  | case2 => exact Nat.le_refl _

namespace Piece

theorem first_le (t : Token) (rest : List Token) : (first t rest).2 ≤ rest.length := by
  fun_cases first t rest with
  | case1 w rest piece n h =>
    have hle := bracketed_le .angle w rest (generic (String.ofList (dropDot w.toList)))
    rw [h] at hle
    exact Nat.succ_le_succ hle
  | case3 w rest _ hw =>
    fun_cases ofWord w rest with
    | case1 rest hw piece n h =>
      have hle := functionPiece_le w rest
      rw [h] at hle
      exact Nat.succ_le_succ hle
    | case3 => exact Nat.le_refl _
    | case2 | case4 | case5 => exact Nat.zero_le _
  | case4 rest | case5 rest => exact bracketed_le ..
  | case2 | case6 | case7 => exact Nat.zero_le _

end Piece

/-! ## all pieces -/

/-- the pieces of a sealed span, with more behind it -/
theorem pieces_append {tokens : List Token} (hsealed : Sealed tokens) (hfree : ModuleFree tokens)
    (h : ∀ piece ∈ pieces tokens, piece.Closed) (behind : List Token) :
    pieces (tokens ++ behind) = pieces tokens ++ pieces behind := by
  fun_induction pieces tokens with
  | case1 => rfl
  | case2 t rest piece n hfirst ih =>
    obtain ⟨hpiece, hmore⟩ := List.forall_mem_cons.1 h
    have hclosed : (Piece.first t rest).1.Closed := by rwa [hfirst]
    have hsame := Piece.first_append behind hsealed hfree hclosed
    have hle : n ≤ rest.length := by
      have hle := Piece.first_le t rest
      rwa [hfirst] at hle
    have hdrop : (rest ++ behind).drop n = rest.drop n ++ behind :=
      List.drop_append_of_le_length hle
    have hfreeRest : ModuleFree (rest.drop n) := hfree.tail.of_isInfix (List.drop_suffix n rest).isInfix
    rw [List.cons_append, pieces_cons, hsame, hfirst]
    show piece :: pieces ((rest ++ behind).drop n) = _
    rw [hdrop, ih (hsealed.tail.drop n) hfreeRest hmore, List.cons_append]

end DocTypes
