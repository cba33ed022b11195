import DocTypes.Proofs.Bracket.Nested
import DocTypes.Piece
import Mathlib.Data.List.Chain
import Mathlib.Data.List.Forall2

/-!
# What a piece is made from

The pieces of a span cut it into stretches of tokens, one after the other, and nothing of the span
is lost between them.

* `Piece.Covers`        the stretches that a piece can be made from;
* `Piece.first_covers`  the first piece of a span is made from the tokens that it takes up;
* `pieces_cover`        the stretches of all pieces of a span, joined, are the span;
* `exists_covers_of_mem`  each piece is made from one of them;
* `ModuleFree`            spans without a reference into a module.
-/

namespace DocTypes

open Text (upper mem_upper)

/-- the tokens that announce a result, and those of the result -/
inductive Tail.Covers : Tail → List Token → Prop where
  | absent : Covers .absent []
  | unclosed (first : Token) (more : List Token) :
    Covers (.unclosed first) (.mark .colon :: first :: more)
  | span (tokens : List Token) : Covers (.span tokens) (.mark .colon :: tokens)

inductive Piece.Covers : Piece → List Token → Prop where
  | plain {w : String} (hw : endsInDot w.toList = false) : Covers (.plain (plainName w)) [.word w]
  | generic (w : String) (args : List Token) :
    Covers (.generic (String.ofList (dropDot w.toList)) args)
      (.word w :: .mark .lt :: (args ++ [.mark .gt]))
  | group (body : List Token) : Covers (.group body) (.mark .lparen :: (body ++ [.mark .rparen]))
  | record (body : List Token) : Covers (.record body) (.mark .lbrace :: (body ++ [.mark .rbrace]))
  | function {w : String} (hw : isFunctionWord w = true) (params : List Token) {result : Tail}
      {tail : List Token} (htail : result.Covers tail) :
    Covers (.function w params result)
      (.word w :: .mark .lparen :: (params ++ .mark .rparen :: tail))
  | reference {w : String} (hw : isModuleWord w = true) (rest : List Token) :
    Covers (referencePiece rest) (.word w :: .mark .colon :: rest)
  | separator {m : Mark} (hm : m.isSeparator = true) : Covers .separator [.mark m]
  | stray {m : Mark} (hm : m.isSeparator = false) : Covers (.stray m) [.mark m]
  | unclosed (fragment : String) (b : Bracket) (tokens : List Token) :
    Covers (.unclosed fragment b) tokens

/-! ## words known by their capitals -/

/-- a word whose capitals have no dot does not end in one -/
theorem undotted_of_upper {w : String} (h : '.' ∉ (upper w).toList) :
    endsInDot w.toList = false := by
  rw [endsInDot, beq_eq_false_iff_ne]
  exact fun hlast => h (mem_upper rfl (List.mem_of_getLast? hlast))

theorem undotted_of_isFunctionWord {w : String} (hw : isFunctionWord w = true) :
    endsInDot w.toList = false := by
  refine undotted_of_upper ?_
  rw [beq_iff_eq.1 hw]
  decide

theorem undotted_of_isModuleWord {w : String} (hw : isModuleWord w = true) :
    endsInDot w.toList = false := by
  refine undotted_of_upper ?_
  rw [beq_iff_eq.1 hw]
  decide

/-! ## the parts of a piece -/

theorem bracketed_of_eq_some {b : Bracket} {rest : List Token} {n : Nat}
    (hn : b.interior? rest = some n) (fragment : String) (make : List Token → Piece) :
    bracketed b fragment rest make = (make (rest.take n), n + 1) := by
  rw [bracketed, hn]

theorem bracketed_of_interior {b : Bracket} (fragment : String) {body after : List Token}
    (hn : b.interior? (body ++ .mark b.closer :: after) = some body.length)
    (make : List Token → Piece) :
    bracketed b fragment (body ++ .mark b.closer :: after) make = (make body, body.length + 1) := by
  rw [bracketed_of_eq_some hn, List.take_left]

theorem bracketed_of_nested (b : Bracket) (fragment : String) {body : List Token}
    (hbody : Nested body) (after : List Token) (make : List Token → Piece) :
    bracketed b fragment (body ++ .mark b.closer :: after) make = (make body, body.length + 1) :=
  bracketed_of_interior fragment (b.interior?_of_nested hbody after) make

theorem bracketed_unclosed {b : Bracket} {rest : List Token} (h : b.interior? rest = none)
    (fragment : String) (make : List Token → Piece) :
    bracketed b fragment rest make = (.unclosed fragment b, rest.length) := by
  rw [bracketed, h]

theorem drop_past (body : List Token) (t : Token) (after : List Token) (n : Nat) :
    (body ++ t :: after).drop (body.length + 1 + n) = after.drop n := by
  rw [Nat.add_assoc, Nat.add_comm 1, List.drop_length_add_append, List.drop_succ_cons]

theorem take_past (body : List Token) (t : Token) (after : List Token) (n : Nat) :
    (body ++ t :: after).take (body.length + 1 + n) = body ++ t :: after.take n := by
  rw [Nat.add_assoc, Nat.add_comm 1, List.take_length_add_append, List.take_succ_cons]

/-- behind an opening mark stands the interior of the bracket with its closing mark, or the bracket
is not closed -/
theorem bracketed_cases (b : Bracket) (fragment : String) (rest : List Token)
    (make : List Token → Piece) :
    (∃ body after, rest = body ++ .mark b.closer :: after ∧
      bracketed b fragment rest make = (make body, body.length + 1)) ∨
    bracketed b fragment rest make = (.unclosed fragment b, rest.length) := by
  unfold bracketed
  split
  · rename_i n hn
    refine .inl ⟨rest.take n, rest.drop (n + 1), Bracket.interior?_eq_some hn, ?_⟩
    rw [Bracket.length_interior hn]
  · exact .inr rfl

/-- the same, as a piece that begins with the tokens `front` up to the opening mark -/
theorem bracketed_covers (b : Bracket) (fragment : String) (rest : List Token)
    (make : List Token → Piece) (front : List Token)
    (hmake : ∀ body, (make body).Covers (front ++ (body ++ [.mark b.closer]))) :
    (bracketed b fragment rest make).1.Covers
      (front ++ rest.take (bracketed b fragment rest make).2) := by
  rcases bracketed_cases b fragment rest make with ⟨body, after, hrest, h⟩ | h
  · have htake : rest.take (body.length + 1) = body ++ [.mark b.closer] := by
      rw [hrest, List.take_length_add_append, List.take_succ_cons, List.take_zero]
    rw [h, htake]
    exact hmake body
  · rw [h]
    exact .unclosed ..

theorem resultTail_covers (rest : List Token) :
    (resultTail rest).1.Covers (rest.take (resultTail rest).2) := by
  fun_cases resultTail rest with
  | case1 first more n hn => exact .span _
  | case2 first more hn =>
    have : (Token.mark .colon :: first :: more).take (more.length + 2)
        = .mark .colon :: first :: more := List.take_of_length_le (Nat.le_refl _)
    rw [this]
    exact .unclosed first more
  | case3 => exact .absent

theorem functionPiece_covers {w : String} (hw : isFunctionWord w = true) (rest : List Token) :
    (functionPiece w rest).1.Covers
      (.word w :: .mark .lparen :: rest.take (functionPiece w rest).2) := by
  fun_cases functionPiece w rest with
  | case1 n hn result =>
    have hlen : (rest.take n).length = n := Bracket.length_interior hn
    have htake : rest.take (n + 1 + result.2)
        = rest.take n ++ .mark .rparen :: (rest.drop (n + 1)).take result.2 :=
      calc rest.take (n + 1 + result.2)
        _ = (rest.take n ++ .mark .rparen :: rest.drop (n + 1)).take
            ((rest.take n).length + (result.2 + 1)) := by
          rw [hlen, Nat.add_assoc, Nat.add_comm 1]
          exact congrArg (List.take _) (Bracket.interior?_eq_some hn)
        _ = _ := by rw [List.take_length_add_append, List.take_succ_cons]
    rw [htake]
    exact .function hw _ (resultTail_covers _)
  | case2 => exact .unclosed ..

theorem functionPiece_unclosed {rest : List Token} (h : Bracket.paren.interior? rest = none)
    (name : String) : functionPiece name rest = (.unclosed name .paren, rest.length) := by
  rw [functionPiece, h]

/-- a function, once the end of its parameters is found -/
theorem functionPiece_of_eq_some (name : String) {rest : List Token} {n : Nat}
    (hn : Bracket.paren.interior? rest = some n) :
    functionPiece name rest
      = (.function name (rest.take n) (resultTail (rest.drop (n + 1))).1,
          n + 1 + (resultTail (rest.drop (n + 1))).2) := by
  rw [functionPiece, hn]

theorem functionPiece_of_interior (name : String) {params after : List Token}
    (hn : Bracket.paren.interior? (params ++ .mark .rparen :: after) = some params.length) :
    functionPiece name (params ++ .mark .rparen :: after)
      = (.function name params (resultTail after).1,
          params.length + 1 + (resultTail after).2) := by
  have hdrop : (params ++ Token.mark .rparen :: after).drop (params.length + 1) = after :=
    drop_past params _ after 0
  rw [functionPiece_of_eq_some name hn, hdrop, List.take_left]

theorem unitLength?_unclosed {w : String} (hw : isFunctionWord w = true) {rest : List Token}
    (h : Bracket.paren.interior? rest = none) :
    unitLength? (.word w :: .mark .lparen :: rest) = none := by
  rw [unitLength?, if_pos hw]
  split
  · rfl
  · rename_i n hsome
    cases h.symm.trans hsome

/-- how far a function reaches, once the end of its parameters is found -/
theorem unitLength?_of_interior {w : String} (hw : isFunctionWord w = true)
    (params after : List Token) :
    Bracket.paren.interior? (params ++ .mark .rparen :: after) = some params.length →
    unitLength? (.word w :: .mark .lparen :: (params ++ .mark .rparen :: after))
      = match after with
        | .mark .colon :: first :: more =>
          (unitLength? (first :: more)).map (· + (params.length + 4))
        | _ => some (params.length + 3) := by
  intro hn
  have hdrop : (params ++ Token.mark .rparen :: after).drop (params.length + 1) = after :=
    drop_past params _ after 0
  rw [unitLength?, if_pos hw]
  split
  · rename_i hnone
    cases hnone.symm.trans hn
  · rename_i n hsome
    obtain rfl := Option.some.inj (hn.symm.trans hsome)
    rw [hdrop]
    split
    · rfl
    · rename_i hother
      split
      · exact (hother _ _ rfl).elim
      · rfl

/-- the path of a module, up to its arguments or to the end of the span -/
def pathTokens (rest : List Token) : List Token := rest.takeWhile fun t => t != .mark .lt

/-- the arguments behind the path of a module -/
def pathTail (rest : List Token) : Tail := argumentTail (rest.dropWhile fun t => t != .mark .lt)

/-- a reference has the two parts of its path, unless the first of them is empty -/
theorem referencePiece_cases (rest : List Token) :
    ((splitPath (Token.joined (pathTokens rest)).toList).1 = [] ∧
      referencePiece rest = .pathless) ∨
    ∃ name qualifier, name ≠ "" ∧
      splitPath (Token.joined (pathTokens rest)).toList
        = (name.toList, qualifier.map String.toList) ∧
      referencePiece rest = .reference name qualifier (pathTail rest) := by
  unfold referencePiece pathTokens
  dsimp only
  generalize splitPath _ = split
  obtain ⟨path, qualifier⟩ := split
  dsimp only
  split
  · rename_i hpath
    exact .inl ⟨List.isEmpty_iff.1 hpath, rfl⟩
  · rename_i hpath
    refine .inr ⟨_, _, fun hempty => hpath ?_, ?_, rfl⟩
    · rw [List.isEmpty_iff]
      exact String.ofList_eq_empty_iff.1 hempty
    · simp [Function.comp_def]

theorem referencePiece_of_splitPath {rest : List Token} {name : String} {qualifier : Option String}
    (hname : name ≠ "") (h : splitPath (Token.joined (pathTokens rest)).toList
      = (name.toList, qualifier.map String.toList)) :
    referencePiece rest = .reference name qualifier (pathTail rest) := by
  rcases referencePiece_cases rest with ⟨hpath, -⟩ | ⟨name', qualifier', -, hsplit, heq⟩
  · rw [h] at hpath
    exact absurd (String.toList_eq_nil_iff.1 hpath) hname
  · obtain ⟨hpath, hmember⟩ := Prod.ext_iff.1 (hsplit.symm.trans h)
    rw [heq, String.toList_inj.1 hpath,
      Option.map_injective (fun _ _ => String.toList_inj.1) hmember]

/-! ## pieces -/

/-- what begins with one mark does not begin with another -/
theorem mark_cons_ne {m k : Mark} (h : m ≠ k) (rest : List Token) :
    ∀ more, Token.mark m :: rest ≠ .mark k :: more := fun _ heq =>
  h (Token.mark.inj (List.cons.inj heq).1)

namespace Piece

section
variable {w : String} {rest : List Token}

theorem first_word (h : ∀ more, rest ≠ .mark .lt :: more) :
    first (.word w) rest
      = if endsInDot w.toList then (unclosed w .angle, 0) else ofWord w rest := by
  rw [first]
  exact h

theorem first_undotted (h : ∀ more, rest ≠ .mark .lt :: more) (hw : endsInDot w.toList = false) :
    first (.word w) rest = ofWord w rest := by
  rw [first_word h, if_neg (Bool.eq_false_iff.1 hw)]

theorem first_call (hw : isFunctionWord w = true) :
    first (.word w) (.mark .lparen :: rest)
      = ((functionPiece w rest).1, (functionPiece w rest).2 + 1) := by
  rw [first_undotted (mark_cons_ne (by decide) rest) (undotted_of_isFunctionWord hw), ofWord,
    if_pos hw]

theorem first_module (hw : isModuleWord w = true) :
    first (.word w) (.mark .colon :: rest) = (referencePiece rest, rest.length + 1) := by
  rw [first_undotted (mark_cons_ne (by decide) rest) (undotted_of_isModuleWord hw), ofWord,
    if_pos hw]

end

theorem ofWord_covers {w : String} (hw : endsInDot w.toList = false) (rest : List Token) :
    (ofWord w rest).1.Covers (.word w :: rest.take (ofWord w rest).2) := by
  fun_cases ofWord w rest with
  | case1 rest hf piece n h =>
    have := functionPiece_covers hf rest
    rwa [h] at this
  | case3 rest hm =>
    rw [List.take_succ_cons, List.take_length]
    exact .reference hm rest
  | case2 | case4 | case5 => exact .plain hw

theorem first_covers (t : Token) (rest : List Token) :
    (first t rest).1.Covers (t :: rest.take (first t rest).2) := by
  fun_cases first t rest with
  | case1 w rest piece n h =>
    have := bracketed_covers .angle w rest (generic (String.ofList (dropDot w.toList)))
      [.word w, .mark .lt] fun body => .generic w body
    rwa [h] at this
  | case2 => exact .unclosed ..
  | case3 w rest _ hw => exact ofWord_covers (Bool.eq_false_iff.2 hw) rest
  | case4 rest => exact bracketed_covers .paren _ rest group [.mark .lparen] .group
  | case5 rest => exact bracketed_covers .brace _ rest record [.mark .lbrace] .record
  | case6 rest m _ _ hm => exact .separator hm
  | case7 rest m _ _ hm => exact .stray (Bool.eq_false_iff.2 hm)

end Piece

/-! ## fields and parameters -/

theorem Field.ofTokens_eq_typed {tokens : List Token} {key : String} {value : List Token}
    (h : Field.ofTokens tokens = .typed key value) :
    tokens = .word key :: .mark .colon :: value := by
  unfold Field.ofTokens at h
  split at h
  · obtain ⟨rfl, rfl⟩ := Field.typed.inj h
    rfl
  · cases h
  · cases h

theorem Field.ofTokens_eq_untyped {tokens : List Token} {key : String}
    (h : Field.ofTokens tokens = .untyped key) : .word key ∈ tokens := by
  unfold Field.ofTokens at h
  split at h
  · cases h
  · obtain rfl := Field.untyped.inj h
    exact List.mem_cons_self
  · cases h

/-- a parameter is its type, or its name, a colon and its type -/
theorem paramType_cases (tokens : List Token) :
    tokens = paramType tokens ∨
      ∃ name, tokens = .word name :: .mark .colon :: paramType tokens := by
  fun_cases paramType tokens with
  | case1 => exact .inl rfl
  | case2 name => exact .inr ⟨name, rfl⟩
  | case3 => exact .inl rfl

/-! ## all pieces -/

theorem pieces_cons (t : Token) (rest : List Token) :
    pieces (t :: rest) = (Piece.first t rest).1 :: pieces (rest.drop (Piece.first t rest).2) := by
  rw [pieces]

/-- a span that its first piece takes up -/
theorem pieces_eq_singleton {t : Token} {rest : List Token} {piece : Piece}
    (h : Piece.first t rest = (piece, rest.length)) : pieces (t :: rest) = [piece] := by
  rw [pieces_cons, h, List.drop_length, pieces]

theorem pieces_cover (tokens : List Token) :
    ∃ stretches, List.Forall₂ Piece.Covers (pieces tokens) stretches ∧
      stretches.flatten = tokens := by
  fun_induction pieces tokens with
  | case1 => exact ⟨[], .nil, rfl⟩
  | case2 t rest piece n h ih =>
    obtain ⟨stretches, hcover, hflat⟩ := ih
    have hfirst := Piece.first_covers t rest
    rw [h] at hfirst
    refine ⟨(t :: rest.take n) :: stretches, .cons hfirst hcover, ?_⟩
    rw [List.flatten_cons, hflat, List.cons_append, List.take_append_drop]

/-- a separator is a piece of its own -/
theorem pieces_separator {m : Mark} (hm : m.isSeparator = true) (rest : List Token) :
    pieces (.mark m :: rest) = .separator :: pieces rest := by
  cases m with
  | lt | gt | lparen | rparen | lbrace | rbrace => cases hm
  | bar | comma | colon =>
    rw [pieces_cons]
    rfl

/-- each piece is made from a stretch of the span -/
theorem exists_covers_of_mem {tokens : List Token} {piece : Piece} (h : piece ∈ pieces tokens) :
    ∃ stretch, piece.Covers stretch ∧ stretch <:+: tokens := by
  obtain ⟨stretches, hcover, rfl⟩ := pieces_cover tokens
  generalize pieces stretches.flatten = ps at hcover h
  induction hcover with
  | nil => cases h
  | @cons _ first _ rest hfirst _ ih =>
    rw [List.flatten_cons]
    rcases List.mem_cons.1 h with rfl | h
    · exact ⟨first, hfirst, (List.prefix_append first rest.flatten).isInfix⟩
    · obtain ⟨stretch, hstretch, hinfix⟩ := ih h
      exact ⟨stretch, hstretch, hinfix.trans (List.suffix_append first rest.flatten).isInfix⟩

/-! ## spans without a reference into a module -/

def Token.isModule : Token → Bool
  | .word w => isModuleWord w
  | .mark _ => false

/-- no module word is right before a colon -/
def ModuleFree (tokens : List Token) : Prop :=
  tokens.IsChain fun a b => ¬(a.isModule = true ∧ b = .mark .colon)

instance : DecidablePred ModuleFree := fun _ => inferInstanceAs (Decidable (List.IsChain _ _))

namespace ModuleFree

theorem of_isInfix {a b : List Token} (h : ModuleFree b) (hab : a <:+: b) : ModuleFree a :=
  List.IsChain.infix h hab

theorem tail {t : Token} {rest : List Token} (h : ModuleFree (t :: rest)) : ModuleFree rest :=
  h.of_isInfix (List.suffix_cons t rest).isInfix

theorem left {a b : List Token} (h : ModuleFree (a ++ b)) : ModuleFree a :=
  h.of_isInfix (List.prefix_append a b).isInfix

theorem right {a b : List Token} (h : ModuleFree (a ++ b)) : ModuleFree b :=
  h.of_isInfix (List.suffix_append a b).isInfix

theorem no_reference {w : String} {rest : List Token}
    (h : ModuleFree (.word w :: .mark .colon :: rest)) : ¬isModuleWord w = true := fun hw =>
  (List.isChain_cons_cons.1 h).1 ⟨hw, rfl⟩

theorem of_mem_splitCommas {tokens span : List Token} (h : ModuleFree tokens)
    (hs : span ∈ splitCommas tokens) : ModuleFree span :=
  h.of_isInfix (infix_of_mem_segments (List.mem_of_mem_filter hs))

theorem of_paramType {tokens : List Token} (h : ModuleFree tokens) :
    ModuleFree (paramType tokens) := by
  rcases paramType_cases tokens with htype | ⟨name, htype⟩
  · rwa [← htype]
  · rw [htype] at h
    exact h.tail.tail

end ModuleFree

end DocTypes
