import DocTypes.Proofs.Bracket.Attached
import DocTypes.Proofs.Growth.Strict
import DocTypes.Proofs.Piece.Cover
import Mathlib.Data.List.Chain

/-!
# Silence means nested brackets

An expression that is read without any warning has properly nested brackets, although the partner
of each bracket is looked for among those of its own kind alone: where brackets of two kinds cross,
one of them is left unclosed in the interior of the other.  References into modules are set aside,
since what follows the arguments of a module is not read.

* `Piece.Covers.attached`       the tokens of a silent piece are nested, and their angle brackets
                                open behind words, if this holds of the silent spans inside it;
* `attached_of_silent_span`     it holds of a silent span, however many levels may be opened;
* `attached_of_no_diagnostics`  so it holds of an expression without diagnostics;
* `nested_of_no_diagnostics`    in particular its brackets are nested.
-/

namespace DocTypes

open Growth (Silent not_silent_warn not_silent_degrade silent_append silent_chain)

/-! ## pieces -/

section
variable {scope : Scope} {inner : List Token → Growth}
  (hinner : ∀ tokens, ModuleFree tokens → (inner tokens).Silent → Attached tokens)
include hinner

theorem attached_of_silent_unit {tokens : List Token} (hfree : ModuleFree tokens)
    (h : (scope.unit inner tokens).Silent) : Attached tokens := hinner tokens hfree h.of_unit

theorem attached_of_silent_field {tokens : List Token} (hfree : ModuleFree tokens)
    (h : (scope.field inner (Field.ofTokens tokens)).Silent) : Attached tokens := by
  cases hf : Field.ofTokens tokens with
  | nameless =>
    rw [hf] at h
    exact absurd h (not_silent_warn _)
  | untyped key =>
    rw [hf] at h
    exact absurd (silent_append.1 h).2 (not_silent_degrade _)
  | typed key value =>
    rw [hf] at h
    obtain rfl := Field.ofTokens_eq_typed hf
    have hvalue : ModuleFree value := hfree.tail.tail
    exact .word key (.separator (m := .colon) rfl (attached_of_silent_unit hinner hvalue
      (silent_append.1 h).2))

theorem attached_of_silent_fields {body : List Token} (hfree : ModuleFree body)
    (h : (scope.fields inner body).Silent) : Attached body :=
  joins_attached.of_splitCommas attached_comma fun _ hs =>
    attached_of_silent_field hinner (hfree.of_mem_splitCommas hs)
      (silent_chain.1 h _ (List.mem_map_of_mem hs))

theorem attached_of_silent_params {params : List Token} (hfree : ModuleFree params)
    (h : (scope.params inner params).Silent) : Attached params := by
  refine joins_attached.of_splitCommas attached_comma fun tokens hs => ?_
  have hunit := silent_chain.1 h _ (List.mem_map_of_mem hs)
  have htokens := hfree.of_mem_splitCommas hs
  have htype := attached_of_silent_unit hinner htokens.of_paramType hunit
  rcases paramType_cases tokens with hsame | ⟨name, hnamed⟩
  · rwa [hsame]
  · rw [hnamed]
    exact .word name (.separator (m := .colon) rfl htype)

theorem attached_of_silent_result {result : Tail} {tail : List Token} (hc : result.Covers tail)
    (hfree : ModuleFree tail) (h : (scope.result inner result).Silent) : Attached tail := by
  cases hc with
  | absent => exact .nil
  | unclosed first more => exact absurd h (not_silent_degrade _)
  | span tokens =>
    have htokens : ModuleFree tokens := hfree.tail
    exact .separator (m := .colon) rfl (attached_of_silent_unit hinner htokens h)

theorem Piece.Covers.attached {piece : Piece} {tokens : List Token} (hc : piece.Covers tokens)
    (hfree : ModuleFree tokens) (h : (piece.growth scope inner).Silent) : Attached tokens := by
  cases hc with
  | plain => exact .word _ .nil
  | generic w args =>
    have hargs : ModuleFree args := hfree.tail.tail.left
    exact .args w (hinner args hargs h.of_under) .nil
  | group body =>
    have hbody : ModuleFree body := hfree.tail.left
    exact .bracket (b := .paren) nofun (hinner body hbody h.of_under) .nil
  | record body =>
    have hbody : ModuleFree body := hfree.tail.left
    exact .bracket (b := .brace) nofun (attached_of_silent_fields hinner hbody h.of_under) .nil
  | @function w _ params result tail htail =>
    obtain ⟨hp, hr⟩ := silent_append.1 h.of_under
    have hparams : ModuleFree params := hfree.tail.tail.left
    have hresult : ModuleFree tail := hfree.tail.tail.right.tail
    exact .word w (.bracket (b := .paren) nofun (attached_of_silent_params hinner hparams hp)
      (attached_of_silent_result hinner htail hresult hr))
  | @reference w hw rest => exact absurd ⟨hw, rfl⟩ (List.isChain_cons_cons.1 hfree).1
  | @separator m hm => exact .separator hm .nil
  | stray => exact absurd h (not_silent_warn _)
  | unclosed => exact absurd h (not_silent_degrade _)

end

/-! ## spans -/

/-- stretches without a module reference, side by side, whose pieces are silent -/
theorem attached_of_silent_pieces {scope : Scope} {inner : List Token → Growth}
    (hinner : ∀ tokens, ModuleFree tokens → (inner tokens).Silent → Attached tokens)
    {ps : List Piece} {stretches : List (List Token)}
    (hcover : List.Forall₂ Piece.Covers ps stretches) (hfree : ModuleFree stretches.flatten)
    (h : ∀ piece ∈ ps, (piece.growth scope inner).Silent) :
    Attached stretches.flatten := by
  induction hcover with
  | nil => exact .nil
  | @cons piece first ps rest hfirst _ ih =>
    rw [List.flatten_cons] at hfree ⊢
    have hhead : ModuleFree first := hfree.left
    have htail : ModuleFree rest.flatten := hfree.right
    exact (hfirst.attached hinner hhead (h piece List.mem_cons_self)).append
      (ih htail fun p hp => h p (List.mem_cons_of_mem _ hp))

theorem attached_of_silent_span (scope : Scope) (levels : Nat) {tokens : List Token}
    (hfree : ModuleFree tokens) (h : (spanGrowth scope levels tokens).Silent) :
    Attached tokens := by
  induction levels generalizing tokens with
  | zero => exact absurd h (not_silent_degrade _)
  | succ levels ih =>
    -- a closer found for one kind may have cut a pair of another; then a stretch is not silent
    obtain ⟨stretches, hcover, rfl⟩ := pieces_cover tokens
    have hsilent : ∀ piece ∈ pieces stretches.flatten,
        (piece.growth scope (spanGrowth scope levels)).Silent := fun piece hp =>
      silent_chain.1 h _ (List.mem_map_of_mem hp)
    exact attached_of_silent_pieces (fun _ => ih) hcover hfree hsilent

/-- without diagnostics, a reading that is not strict is silent -/
theorem wholeGrowth_silent {config : Config} {text : String} (hs : config.strict = false)
    (h : diagnostics (wholeGrowth config text).journal = []) :
    (wholeGrowth config text).Silent := by
  rw [wholeGrowth_lenient hs] at h ⊢
  exact (wholeGrowth_mirrors config text).silent h

theorem attached_of_no_diagnostics {config : Config} {text : String}
    (hfree : ModuleFree (tokenize text)) (hs : config.strict = false)
    (h : (Node.ofText config text).diagnostics = []) : Attached (tokenize text) := by
  by_cases hblank : tokenize text = []
  · rw [hblank]
    exact .nil
  · rw [Node.ofText_diagnostics config hblank] at h
    exact attached_of_silent_span _ _ hfree (wholeGrowth_silent hs h).of_unit

/-- silence means nested brackets -/
theorem nested_of_no_diagnostics {config : Config} {text : String}
    (hfree : ModuleFree (tokenize text)) (hs : config.strict = false)
    (h : (Node.ofText config text).diagnostics = []) : Nested (tokenize text) :=
  (attached_of_no_diagnostics hfree hs h).nested

/-- a record of a group and a function, three levels deep -/
theorem nested_of_no_diagnostics_of_record :
    (Node.ofText {} "{a: (b|c.<d, e>), f: function(g: h): {}}").diagnostics = [] ∧
      Nested (tokenize "{a: (b|c.<d, e>), f: function(g: h): {}}") :=
  have h : (Node.ofText {} "{a: (b|c.<d, e>), f: function(g: h): {}}").diagnostics = [] := by
    decide +kernel
  ⟨h, nested_of_no_diagnostics (by decide) rfl h⟩

end DocTypes
