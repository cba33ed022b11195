import DocTypes.Proofs.Growth.Source
import DocTypes.Proofs.Piece.Append

/-!
# What stands before an unclosed bracket

A bracket that is not closed takes up the rest of its span and is repaired by a single `any`.  What
stands before it is not touched: if it is cut off by a bar or a comma and is read without a warning
when it stands alone, it adds the same nodes in front of the `any`, and the one warning is that
about the bracket.

* `Piece.closed_of_silent`    a piece that is read silently leaves no bracket unclosed;
* `spanGrowth_append`         a silent, sealed span and any other tokens behind it;
* `Opening`                   tokens that begin with a bracket;
* `Opening.pieces_eq`         if the bracket is not closed, they are a single piece;
* `silent_before_unclosed`    what stands before an unclosed bracket is read as if it stood alone.
-/

namespace DocTypes

open Growth (Silent chain chain_cons degrade append_assoc append_empty append_of_unhalted
  not_silent_degrade silent_append silent_chain)

/-! ## silent spans -/

theorem chain_append (gs hs : List Growth) : chain (gs ++ hs) = chain gs ++ chain hs := by
  induction gs with
  | nil => rfl
  | cons g gs ih => rw [List.cons_append, chain_cons, chain_cons, ih, append_assoc]

theorem Piece.closed_of_silent {scope : Scope} {inner : List Token → Growth} {piece : Piece}
    (h : (piece.growth scope inner).Silent) : piece.Closed := by
  cases piece with
  | function name params result =>
    have hresult := (silent_append.1 h.of_under).2
    cases result with
    | unclosed first => exact not_silent_degrade _ hresult
    | absent | span => trivial
  | unclosed fragment b => exact not_silent_degrade _ h
  | plain | generic | group | record | reference | pathless | separator | stray => trivial

/-- a silent, sealed span adds its own nodes first, whatever stands behind it -/
theorem spanGrowth_append {scope : Scope} {levels : Nat} {tokens : List Token}
    (hsealed : Sealed tokens) (hfree : ModuleFree tokens)
    (hsilent : (spanGrowth scope levels tokens).Silent) (behind : List Token) :
    spanGrowth scope levels (tokens ++ behind)
      = spanGrowth scope levels tokens ++ spanGrowth scope levels behind := by
  cases levels with
  | zero => exact absurd hsilent (not_silent_degrade _)
  | succ levels =>
    have hclosed : ∀ piece ∈ pieces tokens, piece.Closed := fun piece hp =>
      Piece.closed_of_silent (silent_chain.1 hsilent _ (List.mem_map_of_mem hp))
    rw [spanGrowth, pieces_append hsealed hfree hclosed, List.map_append, chain_append]
    rfl

/-- whether a reading is silent does not depend on the expression that warnings show -/
theorem spanGrowth_silent_source {config : Config} (hlenient : config.strict = false)
    {source : String} {levels : Nat} {tokens : List Token}
    (h : diagnostics (spanGrowth ⟨source, config⟩ levels tokens).journal = []) (source' : String) :
    (spanGrowth ⟨source', config⟩ levels tokens).Silent := by
  have hkept : Growth.Kept ⟨source, config⟩ ⟨source', config⟩ Growth.Alike := Growth.kept_alike rfl
  have hanomalies := (hkept.span rfl levels tokens).anomalies
  rw [h] at hanomalies
  exact spanGrowth_silent hlenient (List.map_eq_nil_iff.1 hanomalies.symm)

/-! ## unclosed brackets -/

/-- tokens that begin with the bracket of a type: the text that shows the bracket, its kind, and the
place of its opening mark -/
inductive Opening : List Token → String → Bracket → Nat → Prop where
  | args (w : String) (rest : List Token) : Opening (.word w :: .mark .lt :: rest) w .angle 1
  | group (rest : List Token) : Opening (.mark .lparen :: rest) (Token.mark .lparen).text .paren 0
  | record (rest : List Token) : Opening (.mark .lbrace :: rest) (Token.mark .lbrace).text .brace 0
  | function {w : String} (hw : isFunctionWord w = true) (rest : List Token) :
    Opening (.word w :: .mark .lparen :: rest) w .paren 1

/-- a bracket whose end is not found from its opening mark on has no interior -/
theorem interior?_eq_none {tokens rest : List Token} {b : Bracket} {place : Nat}
    (hdrop : tokens.drop place = .mark b.opener :: rest)
    (h : matchIndex? tokens place (.mark b.opener) (.mark b.closer) = none) :
    b.interior? rest = none := by
  rw [b.matchIndex?_of_drop hdrop, Option.map_eq_none_iff] at h
  exact h

theorem Opening.pieces_eq {tokens : List Token} {fragment : String} {b : Bracket} {place : Nat}
    (h : Opening tokens fragment b place)
    (hunclosed : matchIndex? tokens place (.mark b.opener) (.mark b.closer) = none) :
    pieces tokens = [.unclosed fragment b] := by
  cases h with
  | args w rest =>
    have hnone : Bracket.angle.interior? rest = none := interior?_eq_none rfl hunclosed
    refine pieces_eq_singleton ?_
    rw [Piece.first, bracketed_unclosed hnone]
    rfl
  | group rest =>
    have hnone : Bracket.paren.interior? rest = none := interior?_eq_none rfl hunclosed
    exact pieces_eq_singleton (bracketed_unclosed hnone _ _)
  | record rest =>
    have hnone : Bracket.brace.interior? rest = none := interior?_eq_none rfl hunclosed
    exact pieces_eq_singleton (bracketed_unclosed hnone _ _)
  | function hw rest =>
    have hnone : Bracket.paren.interior? rest = none := interior?_eq_none rfl hunclosed
    refine pieces_eq_singleton ?_
    rw [Piece.first_call hw, functionPiece_unclosed hnone]
    rfl

/-- Whatever tokens begin with an unclosed bracket, they add one `any`, with one warning. -/
theorem Opening.growth_eq {scope : Scope} (hlenient : scope.config.strict = false) (levels : Nat)
    {tokens : List Token} {fragment : String} {b : Bracket} {place : Nat}
    (h : Opening tokens fragment b place)
    (hunclosed : matchIndex? tokens place (.mark b.opener) (.mark b.closer) = none) :
    spanGrowth scope (levels + 1) tokens
      = ⟨[.any], [.warning ((Flaw.unclosed fragment b).warning scope.source)], none⟩ := by
  have hwarn : Growth.warn scope (.unclosed fragment b)
      = ⟨[], [.warning ((Flaw.unclosed fragment b).warning scope.source)], none⟩ := by
    rw [Growth.warn, hlenient]
    rfl
  rw [spanGrowth, h.pieces_eq hunclosed]
  refine (append_empty _).trans ?_
  show degrade scope (.unclosed fragment b) = _
  rw [degrade, hwarn]
  rfl

/-- What stands before an unclosed bracket is read as if it stood alone: if it ends in a bar or a
comma and has no diagnostics at some depth, for some expression, then at that depth, for every
expression, it adds the same nodes with the bracket behind it.  The bracket adds one `any` to them,
and its flaw is the one diagnostic. -/
theorem silent_before_unclosed {config : Config} (hlenient : config.strict = false) {depth : Int}
    {before behind : List Token} (hsealed : Sealed before) (hfree : ModuleFree before)
    {fragment : String} {b : Bracket} {place : Nat} (hopening : Opening behind fragment b place)
    (hunclosed : matchIndex? behind place (.mark b.opener) (.mark b.closer) = none) :
    let read (source : String) (tokens : List Token) : Growth :=
      spanGrowth ⟨source, config⟩ (config.levels depth) tokens
    ∀ source, diagnostics (read source before).journal = [] → ∀ source',
      (read source' (before ++ behind)).nodes = (read source' before).nodes ++ [.any] ∧
      (read source' (before ++ behind)).halt = none ∧
      diagnostics (read source' (before ++ behind)).journal
        = [⟨.unbalancedBracket, (Flaw.unclosed fragment b).message source'⟩] := by
  intro read source hquiet source'
  have hsilent : (read source' before).Silent :=
    spanGrowth_silent_source hlenient hquiet source'
  obtain ⟨levels, hlevels⟩ : ∃ levels, config.levels depth = levels + 1 := by
    refine Nat.exists_eq_succ_of_ne_zero fun hzero => ?_
    -- beyond the last level nothing is read silently
    unfold read at hsilent
    rw [hzero] at hsilent
    exact not_silent_degrade _ hsilent
  have hbehind : spanGrowth ⟨source', config⟩ (levels + 1) behind = _ :=
    hopening.growth_eq hlenient levels hunclosed
  rw [← hlevels] at hbehind
  have hread : read source' (before ++ behind) = read source' before ++ _ :=
    spanGrowth_append hsealed hfree hsilent behind
  rw [hread, hbehind, append_of_unhalted hsilent.halt, hsilent.journal]
  exact ⟨rfl, rfl, rfl⟩

/-- a function whose result has arguments, and a bar; then arguments with a record and no end, one
level deep of three -/
theorem silent_before_unclosed_of_arguments :
    let config : Config := { maxDepth := 3 }
    let before : List Token := [.word "function", .mark .lparen, .word "x", .mark .rparen,
      .mark .colon, .word "Set.", .mark .lt, .word "y", .mark .gt, .mark .bar]
    let behind : List Token := [.word "Map.", .mark .lt, .mark .lbrace, .word "k", .mark .rbrace]
    let read (source : String) (tokens : List Token) : Growth :=
      spanGrowth ⟨source, config⟩ (config.levels 1) tokens
    diagnostics (read "" before).journal = [] ∧ ∀ source,
      (read source (before ++ behind)).nodes = (read source before).nodes ++ [.any] ∧
      (read source (before ++ behind)).halt = none ∧
      diagnostics (read source (before ++ behind)).journal
        = [⟨.unbalancedBracket, (Flaw.unclosed "Map." .angle).message source⟩] := by
  intro config before behind read
  have hquiet : diagnostics (read "" before).journal = [] := by decide +kernel
  exact ⟨hquiet, silent_before_unclosed rfl (by decide) (by decide) (.args "Map." _) (by decide)
    "" hquiet⟩

end DocTypes
