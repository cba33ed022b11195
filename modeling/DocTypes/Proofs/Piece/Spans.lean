import DocTypes.Proofs.Piece.Cover

/-!
# The spans inside a piece

What stands in the brackets of a piece is read one level deeper.  Each such span is a stretch of the
tokens that the piece is made from, and the first of these tokens is not in it.

* `Piece.spans`              the spans inside a piece;
* `Piece.Covers.inside`      each of them is a stretch of the tokens behind the first;
* `length_lt_of_mem_spans`   so it is shorter than the whole span that the piece is in.
-/

namespace DocTypes

def Field.spans : Field → List (List Token)
  | typed _ value => [value]
  | nameless | untyped _ => []

def Tail.spans : Tail → List (List Token)
  | span tokens => [tokens]
  | absent | unclosed _ => []

/-- the spans inside a piece, as they are read one level deeper -/
def Piece.spans : Piece → List (List Token)
  | generic _ args => [args]
  | group body => [body]
  | record body => (splitCommas body).flatMap fun tokens => (Field.ofTokens tokens).spans
  | function _ params result => (splitCommas params).map paramType ++ result.spans
  | reference _ _ args => args.spans
  | plain _ | pathless | separator | stray _ | unclosed _ _ => []

/-! ## the parts of a piece -/

theorem infix_of_mem_splitCommas {tokens span : List Token} (h : span ∈ splitCommas tokens) :
    span <:+: tokens := infix_of_mem_segments (List.mem_of_mem_filter h)

theorem Field.infix_of_mem_spans {tokens span : List Token}
    (h : span ∈ (Field.ofTokens tokens).spans) : span <:+: tokens := by
  cases hfield : Field.ofTokens tokens with
  | nameless =>
    rw [hfield] at h
    cases h
  | untyped key =>
    rw [hfield] at h
    cases h
  | typed key value =>
    rw [hfield] at h
    obtain rfl := List.mem_singleton.1 h
    rw [Field.ofTokens_eq_typed hfield]
    exact List.infix_cons (List.suffix_cons _ _).isInfix

theorem paramType_isInfix (tokens : List Token) : paramType tokens <:+: tokens := by
  rcases paramType_cases tokens with htype | ⟨name, htype⟩
  · exact htype ▸ List.infix_rfl
  · have hinfix : paramType tokens <:+: .word name :: .mark .colon :: paramType tokens :=
      List.infix_cons (List.suffix_cons _ _).isInfix
    rwa [← htype] at hinfix

theorem Tail.Covers.infix_of_mem_spans {result : Tail} {tail span : List Token}
    (hc : result.Covers tail) (h : span ∈ result.spans) : span <:+: tail := by
  cases hc with
  | absent => cases h
  | unclosed first more => cases h
  | span tokens =>
    obtain rfl := List.mem_singleton.1 h
    exact (List.suffix_cons _ _).isInfix

theorem infix_of_mem_argumentTail {rest span : List Token}
    (h : span ∈ (argumentTail rest).spans) : span <:+: rest := by
  unfold argumentTail at h
  split at h
  · cases h
  · split at h
    · obtain rfl := List.mem_singleton.1 h
      exact List.infix_cons (List.take_prefix _ _).isInfix
    · cases h

theorem infix_of_mem_referencePiece {rest span : List Token}
    (h : span ∈ (referencePiece rest).spans) : span <:+: rest := by
  rcases referencePiece_cases rest with ⟨-, heq⟩ | ⟨name, qualifier, -, -, heq⟩
  · rw [heq] at h
    cases h
  · rw [heq] at h
    exact (infix_of_mem_argumentTail h).trans (List.dropWhile_suffix _).isInfix

/-! ## pieces -/

/-- a span inside a piece is a stretch of the tokens behind the first -/
theorem Piece.Covers.inside {piece : Piece} {tokens span : List Token} (hc : piece.Covers tokens)
    (h : span ∈ piece.spans) : ∃ t rest, tokens = t :: rest ∧ span <:+: rest := by
  cases hc with
  | plain => cases h
  | generic w args =>
    obtain rfl := List.mem_singleton.1 h
    exact ⟨_, _, rfl, List.infix_cons (List.prefix_append _ _).isInfix⟩
  | group body =>
    obtain rfl := List.mem_singleton.1 h
    exact ⟨_, _, rfl, (List.prefix_append _ _).isInfix⟩
  | record body =>
    obtain ⟨field, hfield, h⟩ := List.mem_flatMap.1 h
    have hbody := (Field.infix_of_mem_spans h).trans (infix_of_mem_splitCommas hfield)
    exact ⟨_, _, rfl, hbody.trans (List.prefix_append _ _).isInfix⟩
  | @function w _ params result tail htail =>
    refine ⟨_, _, rfl, List.infix_cons ?_⟩
    rcases List.mem_append.1 h with h | h
    · obtain ⟨param, hparam, rfl⟩ := List.mem_map.1 h
      have hparams := (paramType_isInfix param).trans (infix_of_mem_splitCommas hparam)
      exact hparams.trans (List.prefix_append _ _).isInfix
    · have hresult := List.infix_cons (a := Token.mark .rparen) (htail.infix_of_mem_spans h)
      exact hresult.trans (List.suffix_append _ _).isInfix
  | @reference w _ rest =>
    exact ⟨_, _, rfl, List.infix_cons (infix_of_mem_referencePiece h)⟩
  | separator => cases h
  | stray => cases h
  | unclosed => cases h

theorem length_lt_of_mem_spans {tokens span : List Token} {piece : Piece}
    (hp : piece ∈ pieces tokens) (h : span ∈ piece.spans) : span.length < tokens.length := by
  obtain ⟨stretch, hcovers, hinfix⟩ := exists_covers_of_mem hp
  obtain ⟨t, rest, rfl, hspan⟩ := hcovers.inside h
  exact Nat.lt_of_le_of_lt hspan.length_le hinfix.length_le

end DocTypes
