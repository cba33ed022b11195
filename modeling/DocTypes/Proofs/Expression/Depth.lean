import DocTypes.Proofs.Expression.Tree
import DocTypes.Proofs.Growth.Silence

/-!
# How deep an expression may nest

The height of a well-formed bare union is just what the settings have to allow: if they allow less,
then some bracket is not read, and a warning tells of it.

* `Expression.silent_of_mem_spans`        an expression is read in silence only if the spans inside
  it are;
* `Expression.height_le_of_silent`        then it was given levels enough;
* `diagnostics_eq_nil_iff_spanHeight_le`  a written union is read without diagnostics just if its
  height is allowed.
-/

namespace DocTypes

open Expression
open Growth (Silent silent_append silent_chain not_silent_degrade)

namespace Expression

theorem foldr_max_le {ns : List Nat} {k : Nat} (h : ∀ n ∈ ns, n ≤ k) : ns.foldr max 0 ≤ k := by
  induction ns with
  | nil => exact Nat.zero_le k
  | cons n ns ih =>
    obtain ⟨hn, hns⟩ := List.forall_mem_cons.1 h
    rw [List.foldr_cons]
    exact Nat.max_le.2 ⟨hn, ih hns⟩

/-- the mark between the expressions of the spans inside an expression -/
def separator : Expression → Mark
  | generic .. | reference .. => .comma
  | _ => .bar

/-- an expression is read in silence only if the spans inside it are -/
theorem silent_of_mem_spans {e : Expression} (h : e.WellFormed) {scope : Scope}
    {inner : List Token → Growth} (hs : (e.piece.growth scope inner).Silent)
    {span : List Expression} (hspan : span ∈ e.spans) :
    (inner (spanTokens e.separator span)).Silent := by
  have hspelled := h.spelled
  cases e with
  | name w => cases hspan
  | generic w dotted args =>
    obtain rfl := List.mem_singleton.1 hspan
    exact hs.of_under
  | group alternatives =>
    obtain rfl := List.mem_singleton.1 hspan
    exact hs.of_under
  | record fields =>
    obtain ⟨f, hf, rfl⟩ := List.mem_map.1 hspan
    have hfields := hs.of_under
    rw [Scope.fields, splitCommas_fieldsTokens, List.map_map] at hfields
    have hfield : (scope.field inner
        (Field.ofTokens (fieldTokens f.1 (spanTokens .bar f.2)))).Silent :=
      silent_chain.1 hfields _ (List.mem_map_of_mem hf)
    rw [ofTokens_fieldTokens f.1 (spanTokens_ne_nil .bar (hspelled f hf).2)] at hfield
    exact (silent_append.1 hfield).2.of_unit
  | function w params result =>
    obtain ⟨hparams, hresult⟩ := silent_append.1 hs.of_under
    rcases List.mem_append.1 hspan with hspan | hspan
    · obtain ⟨p, hp, rfl⟩ := List.mem_map.1 hspan
      obtain ⟨hkey, hne⟩ := hspelled.2.2 p hp
      rw [Scope.params, splitCommas_paramsTokens fun p hp => (hspelled.2.2 p hp).2,
        List.map_map] at hparams
      have hparam : (scope.unit inner
          (paramType (paramTokens p.1 (spanTokens .bar p.2)))).Silent :=
        silent_chain.1 hparams _ (List.mem_map_of_mem hp)
      rw [paramType_paramTokens (fun key hk => (hkey key hk).2) hne
        (h.children p.2 (mem_spans_param hp))] at hparam
      exact hparam.of_unit
    · cases result with
      | none => cases hspan
      | some r =>
        obtain rfl := List.mem_singleton.1 hspan
        show (inner (spanTokens .bar [r])).Silent
        rw [spanTokens_singleton]
        exact hresult.of_unit
  | reference w path qualifier args =>
    cases args with
    | none => cases hspan
    | some a =>
      obtain rfl := List.mem_singleton.1 hspan
      exact hs.of_under

theorem separator_eq (e : Expression) : e.separator = .bar ∨ e.separator = .comma := by
  cases e
  case generic | reference => exact .inr rfl
  all_goals exact .inl rfl

theorem spanHeight_lt_of_silent {m : Mark} (hm : m = .bar ∨ m = .comma) {span : List Expression}
    (hwf : ∀ e ∈ span, e.WellFormed) (hopen : OpenLast span) {scope : Scope}
    (hheight : ∀ e ∈ span, ∀ levels,
      (e.piece.growth scope (spanGrowth scope levels)).Silent → e.height ≤ levels)
    {levels : Nat} (hs : (spanGrowth scope levels (spanTokens m span)).Silent) :
    spanHeight span < levels := by
  cases levels with
  | zero => exact absurd hs (not_silent_degrade _)
  | succ levels =>
    rw [spanGrowth_spanTokens scope levels hm hwf hopen] at hs
    refine Nat.lt_succ_of_le (foldr_max_le (List.forall_mem_map.2 fun e he => ?_))
    exact hheight e he levels (silent_chain.1 hs _ (List.mem_map_of_mem he))

theorem height_le_of_silent {e : Expression} (h : e.WellFormed) {scope : Scope} {levels : Nat}
    (hs : (e.piece.growth scope (spanGrowth scope levels)).Silent) : e.height ≤ levels := by
  induction h generalizing levels with
  | @mk e spelled openLast children ih =>
    rw [height_eq]
    refine foldr_max_le (List.forall_mem_map.2 fun span hspan => ?_)
    have hsilent := silent_of_mem_spans (.mk spelled openLast children) hs hspan
    exact spanHeight_lt_of_silent e.separator_eq (children span hspan) (openLast span hspan)
      (fun child hc _ => ih span hspan child hc) hsilent

end Expression

/-- a written union is read without diagnostics just if its height is allowed -/
theorem diagnostics_eq_nil_iff_spanHeight_le {union : List Expression} (hne : union ≠ [])
    (hwf : ∀ e ∈ union, e.WellFormed) (hopen : OpenLast union) {text : String}
    (htokens : tokenize text = spanTokens .bar union) {config : Config}
    (hstrict : config.strict = false) :
    (Node.ofText config text).diagnostics = [] ↔ spanHeight union ≤ config.maxDepth := by
  have hblank : tokenize text ≠ [] := by
    rw [htokens]
    exact spanTokens_ne_nil .bar hne
  rw [Node.ofText_diagnostics config hblank]
  constructor
  · intro hnil
    have hsilent := (wholeGrowth_silent hstrict hnil).of_unit
    rw [htokens] at hsilent
    have hheight := spanHeight_lt_of_silent (.inl rfl) hwf hopen
      (fun e he _ => height_le_of_silent (hwf e he)) hsilent
    unfold Config.levels at hheight
    omega
  · intro hdepth
    rw [wholeGrowth_union hne hwf hopen htokens hdepth]
    rfl

end DocTypes
