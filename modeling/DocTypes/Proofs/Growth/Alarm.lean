import DocTypes.Proofs.Growth.Journal
import DocTypes.Proofs.Piece.Tidy

/-!
# No false alarm about brackets

The reader of an expression warns of a bracket only if something is wrong with the brackets: an
expression whose brackets are properly nested and whose angle brackets are attached to words is
read without such a warning, whatever else is wrong with it.

* `Entry.Harmless`              no warning of a bracket;
* `Piece.Sound.harmless`        a sound piece warns of no bracket if the spans inside it do not;
* `spanGrowth_harmless`         nor does a tidy span, however many levels may be opened;
* `ofText_no_bracket_warning`   nor does an expression.
-/

namespace DocTypes

open Growth (every_add every_empty every_chain every_warn every_degrade)

/-- no warning of a bracket -/
def Entry.Harmless (e : Entry) : Prop := ∀ d ∈ e.diagnostic?, d.anomaly ≠ .unbalancedBracket

theorem harmless_warning {flaw : Flaw} (source : String)
    (h : flaw.anomaly ≠ .unbalancedBracket) : (Entry.warning (flaw.warning source)).Harmless := by
  intro d hd
  obtain rfl := Option.some.inj hd
  exact h

/-! ## fields and parameters -/

theorem mem_splitCommas_of_tidy {body : List Token} (h : Tidy body) :
    ∀ span ∈ splitCommas body, Tidy span := fun span hs =>
  h.of_mem_segments (m := .comma) rfl span (List.mem_of_mem_filter hs)

theorem Field.value_of_tidy {tokens : List Token} (h : Tidy tokens) {key : String}
    {value : List Token} (hf : Field.ofTokens tokens = .typed key value) : Tidy value := by
  rw [Field.ofTokens_eq_typed hf] at h
  exact (h.of_word nofun).2.of_separator rfl

theorem paramType_of_tidy {tokens : List Token} (h : Tidy tokens) : Tidy (paramType tokens) := by
  rcases paramType_cases tokens with htype | ⟨name, htype⟩
  · rwa [← htype]
  · rw [htype] at h
    exact (h.of_word nofun).2.of_separator rfl

/-! ## pieces and spans -/

section
variable {scope : Scope} {inner : List Token → Growth}
  (hinner : ∀ tokens, Tidy tokens → (inner tokens).Every Entry.Harmless)
include hinner

theorem unit_harmless {tokens : List Token} (h : Tidy tokens) :
    (scope.unit inner tokens).Every Entry.Harmless :=
  (hinner tokens h).unit (harmless_warning _ nofun)

theorem field_harmless {tokens : List Token} (h : Tidy tokens) :
    (scope.field inner (Field.ofTokens tokens)).Every Entry.Harmless := by
  cases hf : Field.ofTokens tokens with
  | nameless => exact every_warn (harmless_warning _ nofun)
  | untyped key => exact (every_add _).append (every_degrade (harmless_warning _ nofun))
  | typed key value =>
    exact (every_add _).append (unit_harmless hinner (Field.value_of_tidy h hf))

theorem fields_harmless {body : List Token} (h : Tidy body) :
    (scope.fields inner body).Every Entry.Harmless := by
  refine every_chain fun g hg => ?_
  obtain ⟨tokens, ht, rfl⟩ := List.mem_map.1 hg
  exact field_harmless hinner (mem_splitCommas_of_tidy h tokens ht)

theorem params_harmless {params : List Token} (h : Tidy params) :
    (scope.params inner params).Every Entry.Harmless := by
  refine every_chain fun g hg => ?_
  obtain ⟨tokens, ht, rfl⟩ := List.mem_map.1 hg
  exact unit_harmless hinner (paramType_of_tidy (mem_splitCommas_of_tidy h tokens ht))

theorem result_harmless {result : Tail} (h : result.Sound) :
    (scope.result inner result).Every Entry.Harmless := by
  cases result with
  | absent => exact every_add _
  | unclosed first => exact h.elim
  | span tokens => exact unit_harmless hinner h

theorem arguments_harmless {path : String} {args : Tail} (h : args.Sound) :
    (scope.arguments inner path args).Every Entry.Harmless := by
  cases args with
  | absent => exact every_empty
  | unclosed first => exact h.elim
  | span tokens => exact hinner tokens h

theorem Piece.Sound.harmless {piece : Piece} (h : piece.Sound) :
    (piece.growth scope inner).Every Entry.Harmless := by
  cases piece with
  | plain name => exact every_add _
  | generic name args => exact (hinner args h).under _ _
  | group body => exact (hinner body h).under _ _
  | record body => exact (fields_harmless hinner h).under _ _
  | function name params result =>
    exact ((params_harmless hinner h.1).append (result_harmless hinner h.2)).under _ _
  | reference path qualifier args => exact (arguments_harmless hinner h).under _ _
  | pathless => exact every_degrade (harmless_warning _ nofun)
  | separator => exact every_empty
  | stray m => exact h.elim
  | unclosed fragment b => exact h.elim

end

theorem spanGrowth_harmless (scope : Scope) (levels : Nat) {tokens : List Token}
    (h : Tidy tokens) : (spanGrowth scope levels tokens).Every Entry.Harmless := by
  -- brackets that are not read at all are reported as too deep, not as unbalanced
  induction levels generalizing tokens with
  | zero => exact every_degrade (harmless_warning _ nofun)
  | succ levels ih =>
    refine every_chain fun g hg => ?_
    obtain ⟨piece, hp, rfl⟩ := List.mem_map.1 hg
    exact (pieces_sound h piece hp).harmless fun inner ht => ih ht

/-- no false alarm about brackets -/
theorem ofText_no_bracket_warning {text : String} (hn : Nested (tokenize text))
    (ha : AnglesAttached (tokenize text)) (config : Config) :
    ∀ d ∈ (Node.ofText config text).diagnostics, d.anomaly ≠ .unbalancedBracket := by
  have ht : Tidy (tokenize text) := tidy_of_nested hn ha
  by_cases hblank : tokenize text = []
  · rw [Node.ofText_blank config hblank]
    unfold Run.warn
    cases config.strict
    · intro d hd
      obtain rfl := List.mem_singleton.1 hd
      nofun
    · nofun
  · rw [Node.ofText_diagnostics config hblank]
    intro d hd
    obtain ⟨e, he, hed⟩ := List.mem_filterMap.1 hd
    have hspan : ∀ tokens, Tidy tokens →
        (spanGrowth ⟨text, config⟩ (config.levels 0) tokens).Every Entry.Harmless := fun _ =>
      spanGrowth_harmless ⟨text, config⟩ (config.levels 0)
    exact unit_harmless hspan ht e he d hed

/-- a field without a type, two without a name, brackets nested too deep, a module without a path -/
theorem ofText_no_bracket_warning_of_flawed :
    let text := "{a, (), : b}|function(x: , y.<()>): module:~<p.<>>"
    let flawed := Node.ofText { maxDepth := 2 } text
    flawed.diagnostics.map Diagnostic.anomaly = [.unresolvedMember, .unresolvedMember,
        .unresolvedMember, .depthExceeded, .unknownTypeName] ∧
      ∀ d ∈ flawed.diagnostics, d.anomaly ≠ .unbalancedBracket :=
  ⟨by decide +kernel, ofText_no_bracket_warning (by decide) (by decide) _⟩

end DocTypes
