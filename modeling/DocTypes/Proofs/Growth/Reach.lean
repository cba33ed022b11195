import DocTypes.Proofs.Growth.Nodes
import DocTypes.Proofs.Piece.Reach

/-!
# The type that begins at a place

Where a type ends is found without reading it.  A reading comes to the same place: behind its first
piece it goes on where the type ends, and the piece adds what the tokens of the type add when they
are read alone.  If the type has no end, then the piece takes up all the rest of the span, and a
warning tells of the bracket.

* `spanGrowth_first`           what a span adds is what its first piece adds, and then the rest;
* `spanGrowth_first_alone`     the tokens of the piece, read alone, add the same;
* `Piece.warns_of_not_closed`  a piece with an unclosed bracket is reported;
* `first_piece_reach`          the reading of a piece from a place on, and the walk from there.
-/

namespace DocTypes

open Growth (degrade chain_cons append_empty append_of_unhalted)

section
variable (scope : Scope) (levels : Nat) (t : Token) (rest : List Token)

theorem spanGrowth_first :
    spanGrowth scope (levels + 1) (t :: rest)
      = (Piece.first t rest).1.growth scope (spanGrowth scope levels)
        ++ spanGrowth scope (levels + 1) (rest.drop (Piece.first t rest).2) := by
  rw [spanGrowth, pieces_cons, List.map_cons, chain_cons, spanGrowth]

theorem spanGrowth_first_alone :
    spanGrowth scope (levels + 1) (t :: rest.take (Piece.first t rest).2)
      = (Piece.first t rest).1.growth scope (spanGrowth scope levels) := by
  have hlength : (rest.take (Piece.first t rest).2).length = (Piece.first t rest).2 :=
    List.length_take_of_le (Piece.first_le t rest)
  have hpieces : pieces (t :: rest.take (Piece.first t rest).2) = [(Piece.first t rest).1] := by
    apply pieces_eq_singleton
    rw [Piece.first_take, hlength]
  rw [spanGrowth, hpieces]
  exact append_empty _

end

section
variable {scope : Scope} (hlenient : scope.config.strict = false)
include hlenient

theorem degrade_warns (flaw : Flaw) :
    ∃ d ∈ diagnostics (degrade scope flaw).journal, d.anomaly = flaw.anomaly := by
  unfold degrade Growth.warn
  rw [hlenient]
  exact ⟨_, List.mem_cons_self, rfl⟩

theorem Piece.warns_of_not_closed {levels : Nat} {piece : Piece} (h : ¬piece.Closed) :
    ∃ d ∈ diagnostics (piece.growth scope (spanGrowth scope levels)).journal,
      d.anomaly = .unbalancedBracket := by
  cases piece with
  | unclosed fragment b => exact degrade_warns hlenient (.unclosed fragment b)
  | function name params result =>
    cases result with
    | unclosed first =>
      obtain ⟨d, hd, hanomaly⟩ := degrade_warns hlenient (.unclosedResult first)
      have hparams : (scope.params (spanGrowth scope levels) params).halt = none :=
        (params_adds hlenient (spanGrowth_adds hlenient levels) params).halt
      refine ⟨d, ?_, hanomaly⟩
      show d ∈ diagnostics (scope.params (spanGrowth scope levels) params
        ++ degrade scope (.unclosedResult first)).journal
      rw [append_of_unhalted hparams, diagnostics_append]
      exact List.mem_append_right _ hd
    | absent | span => exact absurd trivial h
  | plain | generic | group | record | reference | pathless | separator | stray =>
    exact absurd trivial h

end

theorem Config.levels_succ {config : Config} {depth : Int} (h : depth ≤ config.maxDepth) :
    config.levels depth = config.levels (depth + 1) + 1 := by
  unfold Config.levels
  omega

/-- For any place in a list there is one end of the type that begins there, or none.  Where there is
one, a lenient reading from the place on goes on behind it, and has added what the tokens up to it
add alone.  Where there is none, it comes to the end of the list, and a warning tells of a bracket. -/
theorem first_piece_reach {config : Config} (hlenient : config.strict = false) {depth : Int}
    (hdepth : depth ≤ config.maxDepth) (source : String) {tokens : List Token} {j : Nat}
    (hj : j < tokens.length) :
    let scope : Scope := ⟨source, config⟩
    let read := spanGrowth scope (config.levels depth)
    ∃ e piece n,
      (∀ e', Reaches tokens j e' ↔ e' = e) ∧
      e.map (· + 1) = (unitLength? (tokens.drop j)).map (· + j) ∧
      pieceAt? tokens j = some (piece, n) ∧ j < n ∧ n ≤ tokens.length ∧
      let growth := piece.growth scope (spanGrowth scope (config.levels (depth + 1)))
      read (tokens.drop j) = growth ++ read (tokens.drop n) ∧
      (∀ last, e = some last → n = last + 1 ∧ read (tokens.extract j (last + 1)) = growth) ∧
      (e = none → n = tokens.length ∧
        ∃ d ∈ diagnostics growth.journal, d.anomaly = .unbalancedBracket) := by
  intro scope read
  obtain ⟨e, hreach, heq⟩ := exists_reach hj
  obtain ⟨t, rest, hdrop⟩ : ∃ t rest, tokens.drop j = t :: rest :=
    ⟨_, _, List.drop_eq_getElem_cons hj⟩
  have hlength := length_of_drop hdrop
  have hle := Piece.first_le t rest
  have hread : read = spanGrowth scope (config.levels (depth + 1) + 1) := by
    show spanGrowth scope (config.levels depth) = _
    rw [Config.levels_succ hdepth]
  have hbehind : tokens.drop (j + 1 + (Piece.first t rest).2)
      = rest.drop (Piece.first t rest).2 := by
    rw [← List.drop_drop, drop_succ_of_drop hdrop]
  refine ⟨e, (Piece.first t rest).1, j + 1 + (Piece.first t rest).2, hreach, heq,
    pieceAt?_of_drop hdrop, by omega, by omega, ?_, ?_, ?_⟩
  · rw [hbehind, hdrop, hread]
    exact spanGrowth_first ..
  · rintro last rfl
    rw [hdrop] at heq
    rcases Piece.first_ends t rest with hends | ⟨hnone, -, -⟩
    · rw [hends] at heq
      have hlast : last + 1 = (Piece.first t rest).2 + 1 + j := Option.some.inj heq
      have hspan : last + 1 - j = (Piece.first t rest).2 + 1 := by omega
      refine ⟨by omega, ?_⟩
      rw [List.extract_eq_take_drop, hdrop, hspan, List.take_succ_cons, hread]
      exact spanGrowth_first_alone ..
    · rw [hnone] at heq
      cases heq
  · rintro rfl
    rw [hdrop] at heq
    rcases Piece.first_ends t rest with hends | ⟨-, hall, hclosed⟩
    · rw [hends] at heq
      cases heq
    · exact ⟨by omega, Piece.warns_of_not_closed hlenient hclosed⟩

/-- a chain of function types that ends in one with arguments, behind a mark that closes nothing; and
a mark at the end of the list whose bracket is not closed, at the deepest level that is read -/
theorem first_piece_reach_of_chain :
    let config : Config := {}
    let tokens : List Token := [.mark .rparen, .word "function", .mark .lparen, .mark .rparen,
      .mark .colon, .word "Function", .mark .lparen, .word "a", .mark .rparen, .mark .colon,
      .word "Map.", .mark .lt, .word "b", .mark .gt, .mark .bar, .mark .lbrace]
    let scope : Scope := ⟨"", config⟩
    config.strict = false ∧ (64 : Int) ≤ config.maxDepth ∧ 1 < tokens.length ∧ 15 < tokens.length ∧
      Reaches tokens 1 (some 13) ∧ Reaches tokens 15 none ∧
      (∃ piece, pieceAt? tokens 1 = some (piece, 14) ∧
        spanGrowth scope (config.levels 64) (tokens.extract 1 14)
          = piece.growth scope (spanGrowth scope (config.levels (64 + 1)))) ∧
      ∃ piece, pieceAt? tokens 15 = some (piece, 16) ∧
        ∃ d ∈ diagnostics (piece.growth scope (spanGrowth scope (config.levels (64 + 1)))).journal,
          d.anomaly = .unbalancedBracket := by
  intro config tokens scope
  have hlenient : config.strict = false := rfl
  have hdepth : (64 : Int) ≤ config.maxDepth := by decide
  have hone : 1 < tokens.length := by decide
  have hlast : 15 < tokens.length := by decide
  have hchain : Reaches tokens 1 (some 13) := by
    have hfirst : look tokens 1 = .result 5 := by decide
    have hsecond : look tokens 5 = .result 10 := by decide
    have hmap : look tokens 10 = .ends (some 13) := by decide
    exact .result hfirst (.result hsecond (.ends hmap))
  have hopen : Reaches tokens 15 none := .ends (by decide)
  refine ⟨hlenient, hdepth, hone, hlast, hchain, hopen, ?_, ?_⟩
  · obtain ⟨e, piece, n, hreach, -, hpiece, -, -, -, hends, -⟩ :=
      first_piece_reach hlenient hdepth "" hone
    obtain ⟨rfl, hread⟩ := hends 13 ((hreach _).1 hchain).symm
    exact ⟨piece, hpiece, hread⟩
  · obtain ⟨e, piece, n, hreach, -, hpiece, -, -, -, -, hnone⟩ :=
      first_piece_reach hlenient hdepth "" hlast
    obtain ⟨rfl, hwarns⟩ := hnone ((hreach _).1 hopen).symm
    exact ⟨piece, hpiece, hwarns⟩

end DocTypes
