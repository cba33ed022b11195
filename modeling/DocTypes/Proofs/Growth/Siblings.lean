import DocTypes.Proofs.Expression.Pieces
import DocTypes.Proofs.Growth.Nodes

/-!
# Fields and parameters side by side

What is wrong with a field of a record, or with a parameter of a function, is repaired on the spot
and reported there: as long as the brackets of each nest properly, all of them together come to what
they come to one by one.  Whatever else stands in them, the end of the bracket and the commas between
them are found.

* `Undivided`                   properly nested spans without a comma outside their brackets;
* `Bracket.enclose`             a span between the two marks of a bracket;
* `chain_splitCommas_join`      what the spans between commas add, one span after the other;
* `spanGrowth_record`, `spanGrowth_function`  a record or a function that is a span of its own;
* `siblings_apart`              records and functions of spans that are undivided.
-/

namespace DocTypes

open Growth (add chain chain_cons append_empty append_of_unhalted)

/-! ## undivided spans -/

inductive Undivided : List Token → Prop where
  | nil : Undivided []
  | plain {t : Token} {rest : List Token} (ht : t.isBracket = false) (hcomma : t ≠ .mark .comma)
      (hrest : Undivided rest) : Undivided (t :: rest)
  | bracket (b : Bracket) {body rest : List Token} (hbody : Nested body) (hrest : Undivided rest) :
    Undivided (.mark b.opener :: (body ++ .mark b.closer :: rest))

/-- what is behind a span is one segment if both together are one -/
theorem eq_of_extendFirstSegment {front rest : List Token} {more : List (List Token)}
    (hne : more ≠ []) (h : extendFirstSegment front more = [front ++ rest]) : more = [rest] := by
  cases more with
  | nil => exact absurd rfl hne
  | cons first more =>
    obtain ⟨hfirst, rfl⟩ := List.cons.inj h
    rw [List.append_cancel_left hfirst]

namespace Undivided

variable {span : List Token}

theorem nested (h : Undivided span) : Nested span := by
  induction h with
  | nil => exact .nil
  | plain ht _ _ ih => exact .plain ht ih
  | bracket b hbody _ ih => exact .bracket b hbody ih

theorem unsplit (h : Undivided span) : Unsplit span := by
  induction h with
  | nil => exact unsplit_nil
  | plain ht hcomma _ ih => exact (unsplit_plain ht hcomma).append ih
  | @bracket b body rest hbody _ ih =>
    have happend := (unsplit_bracket b hbody).append ih
    rwa [List.cons_append, List.append_assoc, List.singleton_append] at happend

/-- a nested span that is not cut has no comma outside its brackets -/
theorem of_segments (h : Nested span) (hs : segments (.mark .comma) 0 span = [span]) :
    Undivided span := by
  induction h with
  | nil => exact .nil
  | @plain t rest ht _ ih =>
    by_cases hcomma : t = .mark .comma
    · rw [hcomma, segments_separator rfl] at hs
      cases hs
    · rw [segments_plain ht (.inl hcomma), extendSegment_eq] at hs
      exact .plain ht hcomma (ih (eq_of_extendFirstSegment (segments_ne_nil _ _ _) hs))
  | @bracket b body rest hbody _ _ ih =>
    have hspan : Token.mark b.opener :: (body ++ .mark b.closer :: rest)
        = (.mark b.opener :: (body ++ [.mark b.closer])) ++ rest := by
      rw [List.cons_append, List.append_assoc, List.singleton_append]
    rw [segments_bracket b hbody, hspan] at hs
    exact .bracket b hbody (ih (eq_of_extendFirstSegment (segments_ne_nil _ _ _) hs))

theorem iff_segments : Undivided span ↔ Nested span ∧ segments (.mark .comma) 0 span = [span] := by
  refine ⟨fun h => ⟨h.nested, ?_⟩, fun h => of_segments h.1 h.2⟩
  have hs := h.unsplit []
  rw [List.append_nil] at hs
  rw [hs]
  exact congrArg ([·]) (List.append_nil span)

instance : DecidablePred Undivided := fun _ => decidable_of_iff _ iff_segments.symm

end Undivided

/-! ## one after the other -/

theorem chain_of_unhalted {ι : Type} {f : ι → Growth} {xs : List ι}
    (h : ∀ x ∈ xs, (f x).halt = none) :
    chain (xs.map f)
      = ⟨xs.flatMap fun x => (f x).nodes, xs.flatMap fun x => (f x).journal, none⟩ := by
  induction xs with
  | nil => rfl
  | cons x xs ih =>
    obtain ⟨hx, hxs⟩ := List.forall_mem_cons.1 h
    rw [List.map_cons, chain_cons, append_of_unhalted hx, ih hxs, List.flatMap_cons,
      List.flatMap_cons]

section
variable {each : List Token → Growth} (heach : ∀ span, (each span).halt = none)
include heach

/-- what is read between commas adds up to what is read of each span alone -/
theorem chain_splitCommas_join {spans : List (List Token)}
    (hspans : ∀ span ∈ spans, span ≠ [] ∧ Undivided span) :
    chain ((splitCommas (Mark.comma.join spans)).map each)
      = ⟨spans.flatMap fun span => (each span).nodes,
          spans.flatMap fun span => (each span).journal, none⟩ := by
  rw [splitCommas_join (fun span hs => (hspans span hs).2.unsplit) fun span hs => (hspans span hs).1]
  exact chain_of_unhalted fun span _ => heach span

theorem chain_splitCommas_self {span : List Token} (hspan : span ≠ [] ∧ Undivided span) :
    chain ((splitCommas span).map each) = each span := by
  have hone : ∀ s ∈ [span], s ≠ [] ∧ Undivided s := List.forall_mem_singleton.2 hspan
  have hchain := chain_splitCommas_join heach hone
  rw [Mark.join, List.intercalate_singleton, List.flatMap_singleton, List.flatMap_singleton] at hchain
  rw [hchain, ← heach span]

end

/-! ## brackets that are a span of their own -/

def Bracket.enclose (b : Bracket) (body : List Token) : List Token :=
  .mark b.opener :: (body ++ [.mark b.closer])

section
variable (scope : Scope) (levels : Nat) {body : List Token} (hbody : Nested body)
include hbody

theorem spanGrowth_record :
    spanGrowth scope (levels + 1) (Bracket.brace.enclose body)
      = (scope.fields (spanGrowth scope levels) body).under .record "Object" := by
  have hfirst := Piece.first_record hbody []
  have hpieces : pieces (Bracket.brace.enclose body) = [.record body] := by
    show pieces (.mark .lbrace :: (body ++ [.mark .rbrace])) = _
    rw [pieces_cons, hfirst, drop_past body (.mark .rbrace) [] 0, List.drop_zero, pieces]
  rw [spanGrowth, hpieces]
  exact append_empty _

theorem spanGrowth_function {w : String} (hw : isFunctionWord w = true) :
    spanGrowth scope (levels + 1) (.word w :: Bracket.paren.enclose body)
      = (scope.params (spanGrowth scope levels) body ++ add (.leaf "void")).under .function w := by
  have hfirst := Piece.first_function hw hbody []
  have hpieces : pieces (.word w :: Bracket.paren.enclose body) = [.function w body .absent] := by
    show pieces (.word w :: .mark .lparen :: (body ++ [.mark .rparen])) = _
    rw [pieces_cons, hfirst]
    show Piece.function w body .absent
      :: pieces ((body ++ [Token.mark .rparen]).drop (body.length + 1)) = _
    rw [drop_past body (.mark .rparen) [] 0, List.drop_zero, pieces]
  rw [spanGrowth, hpieces]
  exact append_empty _

end

/-! ## fields and parameters -/

/-- A record of fields has the parts of the records of each field alone, and a function of
parameters those of the functions of each parameter alone, before its result; what is warned of is
what is warned of alone.  The fields and parameters may be malformed in any way that leaves their
brackets nested. -/
theorem siblings_apart {scope : Scope} (hlenient : scope.config.strict = false) {depth : Int}
    (hdepth : depth ≤ scope.config.maxDepth) {spans : List (List Token)}
    (hspans : ∀ span ∈ spans, span ≠ [] ∧ Undivided span) {w : String}
    (hw : isFunctionWord w = true) :
    let read (tokens : List Token) : Growth := spanGrowth scope (scope.config.levels depth) tokens
    let record (body : List Token) : List Token := Bracket.brace.enclose body
    let function (body : List Token) : List Token := .word w :: Bracket.paren.enclose body
    ∃ fields params : List Token → List Node,
      (∀ span ∈ spans, (read (record span)).nodes = [.mk .record "Object" (fields span)]) ∧
      (∀ span ∈ spans,
        (read (function span)).nodes = [.mk .function w (params span ++ [.leaf "void"])]) ∧
      read (record (Mark.comma.join spans))
        = ⟨[.mk .record "Object" (spans.flatMap fields)],
            spans.flatMap fun span => (read (record span)).journal, none⟩ ∧
      read (function (Mark.comma.join spans))
        = ⟨[.mk .function w (spans.flatMap params ++ [.leaf "void"])],
            spans.flatMap fun span => (read (function span)).journal, none⟩ := by
  intro read record function
  obtain ⟨levels, hlevels⟩ : ∃ levels, scope.config.levels depth = levels + 1 :=
    ⟨(scope.config.maxDepth - depth).toNat, by unfold Config.levels; omega⟩
  have hinner := spanGrowth_adds hlenient levels
  let field (span : List Token) : Growth :=
    scope.field (spanGrowth scope levels) (Field.ofTokens span)
  let param (span : List Token) : Growth :=
    scope.unit (spanGrowth scope levels) (paramType span)
  have hfield (span : List Token) : (field span).halt = none :=
    (field_adds hlenient hinner (Field.ofTokens span)).halt
  have hparam (span : List Token) : (param span).halt = none :=
    (unit_adds hlenient hinner (paramType span)).halt
  have hwhole : Nested (Mark.comma.join spans) :=
    Expression.nested_join .comma rfl fun span hs => (hspans span hs).2.nested
  have hrecord {body : List Token} (hbody : Nested body) : read (record body)
      = (chain ((splitCommas body).map field)).under .record "Object" := by
    show spanGrowth scope (scope.config.levels depth) _ = _
    rw [hlevels]
    exact spanGrowth_record scope levels hbody
  have hfunction {body : List Token} (hbody : Nested body) : read (function body)
      = (chain ((splitCommas body).map param) ++ add (.leaf "void")).under .function w := by
    show spanGrowth scope (scope.config.levels depth) _ = _
    rw [hlevels]
    exact spanGrowth_function scope levels hbody hw
  -- each span alone is one field, or one parameter
  have hrecords : ∀ span ∈ spans, read (record span) = (field span).under .record "Object" := by
    intro span hs
    rw [hrecord (hspans span hs).2.nested, chain_splitCommas_self hfield (hspans span hs)]
  have hfunctions : ∀ span ∈ spans,
      read (function span) = (param span ++ add (.leaf "void")).under .function w := by
    intro span hs
    rw [hfunction (hspans span hs).2.nested, chain_splitCommas_self hparam (hspans span hs)]
  refine ⟨fun span => (field span).nodes, fun span => (param span).nodes, fun span hs => ?_,
    fun span hs => ?_, ?_, ?_⟩
  · rw [hrecords span hs]
    rfl
  · rw [hfunctions span hs, append_of_unhalted (hparam span)]
    rfl
  · have hjournal : (spans.flatMap fun span => (read (record span)).journal)
        = spans.flatMap fun span => (field span).journal :=
      List.flatMap_congr fun span hs => by rw [hrecords span hs]; rfl
    rw [hrecord hwhole, chain_splitCommas_join hfield hspans, hjournal]
    rfl
  · have hjournal : (spans.flatMap fun span => (read (function span)).journal)
        = spans.flatMap fun span => (param span).journal :=
      List.flatMap_congr fun span hs => by
        rw [hfunctions span hs, append_of_unhalted (hparam span)]
        exact List.append_nil _
    rw [hfunction hwhole, chain_splitCommas_join hparam hspans, hjournal,
      append_of_unhalted rfl]
    show Growth.mk _ (_ ++ []) _ = _
    rw [List.append_nil]
    rfl

/-- fields and parameters that lack a name, a type or all but a bracket, two levels deep -/
theorem siblings_apart_of_flawed :
    let scope : Scope := ⟨"…", { maxDepth := 2 }⟩
    let spans : List (List Token) := [[.mark .colon, .word "a"],
      [.word "k", .mark .colon, .mark .lparen, .mark .comma, .mark .rparen, .word "b."],
      [.word "module", .mark .colon, .mark .lbrace, .mark .bar, .mark .rbrace]]
    let read (tokens : List Token) : Growth := spanGrowth scope (scope.config.levels 2) tokens
    let record (body : List Token) : List Token := Bracket.brace.enclose body
    let function (body : List Token) : List Token :=
      .word "functıon" :: Bracket.paren.enclose body
    (∀ span ∈ spans, span ≠ [] ∧ Undivided span) ∧
    ∃ fields params : List Token → List Node,
      (∀ span ∈ spans, (read (record span)).nodes = [.mk .record "Object" (fields span)]) ∧
      (∀ span ∈ spans, (read (function span)).nodes
        = [.mk .function "functıon" (params span ++ [.leaf "void"])]) ∧
      read (record (Mark.comma.join spans))
        = ⟨[.mk .record "Object" (spans.flatMap fields)],
            spans.flatMap fun span => (read (record span)).journal, none⟩ ∧
      read (function (Mark.comma.join spans))
        = ⟨[.mk .function "functıon" (spans.flatMap params ++ [.leaf "void"])],
            spans.flatMap fun span => (read (function span)).journal, none⟩ := by
  intro scope spans
  have hspans : ∀ span ∈ spans, span ≠ [] ∧ Undivided span := by decide
  exact ⟨hspans, siblings_apart rfl (by decide) hspans (by decide +kernel)⟩

end DocTypes
