import DocTypes.Proofs.Growth.Nodes
import DocTypes.Proofs.Growth.Silence
import DocTypes.Proofs.Growth.Source
import DocTypes.Proofs.Piece.Barred
import DocTypes.Proofs.Token.Written

/-!
# Types side by side

No separator is needed between two types: where one stands right behind another, they are read as
if a bar stood between them.  So an expression without diagnostics may have types side by side, and
it means what it means with bars.

* `Piece.Covers.barred`    a piece adds the same with bars in the spans inside it;
* `spanGrowth_barred`      so does a span, however many levels may be opened;
* `exists_text_barred`     an expression can be written with bars;
* `ofText_barred`          with bars it has the same tree, and diagnostics of the same categories;
* `side_by_side_of_no_diagnostics`  what stands side by side in an expression without diagnostics.
-/

namespace DocTypes

open Growth (Alike Kept kept_alike alike_self alike_warn)

/-! ## pieces -/

section
variable {scope scope' : Scope} (hstrict : scope'.config.strict = scope.config.strict)
  {inner inner' : List Token → Growth}
  (hinner : ∀ tokens, ModuleFree tokens → Alike (inner tokens) (inner' (barred tokens)))
include hstrict hinner

theorem unit_barred {tokens : List Token} (hfree : ModuleFree tokens) :
    Alike (scope.unit inner tokens) (scope'.unit inner' (barred tokens)) :=
  Alike.unit hstrict (hinner tokens hfree) tokens (barred tokens)

theorem field_barred {tokens : List Token} (hfree : ModuleFree tokens) :
    Alike (scope.field inner (.ofTokens tokens)) (scope'.field inner' (.ofTokens (barred tokens))) := by
  rw [Field.ofTokens_barred]
  cases hf : Field.ofTokens tokens with
  | nameless => exact alike_warn hstrict rfl
  | untyped key => exact (alike_self _).append ((kept_alike hstrict).degrade _)
  | typed key value =>
    obtain rfl := Field.ofTokens_eq_typed hf
    exact (alike_self _).append (unit_barred hstrict hinner hfree.tail.tail)

theorem fields_barred {body : List Token} (hfree : ModuleFree body) :
    Alike (scope.fields inner body) (scope'.fields inner' (barred body)) := by
  unfold Scope.fields
  rw [splitCommas_barred, List.map_map]
  exact (kept_alike hstrict).chain fun span hs =>
    field_barred hstrict hinner (hfree.of_mem_splitCommas hs)

theorem param_barred {tokens : List Token} (hfree : ModuleFree tokens) :
    Alike (scope.unit inner (paramType tokens))
      (scope'.unit inner' (paramType (barred tokens))) := by
  rw [paramType_barred]
  exact unit_barred hstrict hinner hfree.of_paramType

theorem params_barred {params : List Token} (hfree : ModuleFree params) :
    Alike (scope.params inner params) (scope'.params inner' (barred params)) := by
  unfold Scope.params
  rw [splitCommas_barred, List.map_map]
  exact (kept_alike hstrict).chain fun span hs =>
    param_barred hstrict hinner (hfree.of_mem_splitCommas hs)

theorem result_barred {result : Tail} {tail : List Token} (hc : result.Covers tail)
    (hfree : ModuleFree tail) :
    Alike (scope.result inner result) (scope'.result inner' result.withBars) := by
  cases hc with
  | absent => exact alike_self _
  | unclosed first more => exact (kept_alike hstrict).degrade _
  | span tokens => exact unit_barred hstrict hinner hfree.tail

theorem Piece.Covers.barred {piece : Piece} {tokens : List Token} (hc : piece.Covers tokens)
    (hfree : ModuleFree tokens) :
    Alike (piece.growth scope inner) (piece.withBars.growth scope' inner') := by
  cases hc with
  | plain => exact alike_self _
  | generic w args =>
    have hargs : ModuleFree args := hfree.tail.tail.left
    exact (hinner args hargs).under _ _
  | group body =>
    have hbody : ModuleFree body := hfree.tail.left
    exact (hinner body hbody).under _ _
  | record body =>
    have hbody : ModuleFree body := hfree.tail.left
    exact (fields_barred hstrict hinner hbody).under _ _
  | @function w _ params result tail htail =>
    have hparams : ModuleFree params := hfree.tail.tail.left
    have hresult : ModuleFree tail := hfree.tail.tail.right.tail
    exact ((params_barred hstrict hinner hparams).append
      (result_barred hstrict hinner htail hresult)).under _ _
  | reference hw => exact absurd hw hfree.no_reference
  | separator => exact alike_self _
  | stray => exact alike_warn hstrict rfl
  | unclosed => exact (kept_alike hstrict).degrade _

/-! ## spans -/

omit hstrict hinner in
/-- a bar in front of the rest adds nothing -/
theorem chain_pieces_barredBehind (t : Token) (rest : List Token) :
    Growth.chain ((pieces (barredBehind t rest)).map (Piece.growth scope inner))
      = Growth.chain ((pieces (barred rest)).map (Piece.growth scope inner)) := by
  rcases pieces_barredBehind t rest with h | h
  · rw [h]
  · rw [h, List.map_cons, Growth.chain_cons]
    exact Growth.empty_append _

theorem chain_pieces_barred {tokens : List Token} (hfree : ModuleFree tokens) :
    Alike (Growth.chain ((pieces tokens).map (Piece.growth scope inner)))
      (Growth.chain ((pieces (barred tokens)).map (Piece.growth scope' inner'))) := by
  fun_induction pieces tokens with
  | case1 =>
    rw [barred, pieces]
    exact alike_self _
  | case2 t rest piece n h ih =>
    have hpiece := Piece.first_covers t rest
    obtain ⟨last, hpieces⟩ := pieces_barred_cons hfree
    rw [h] at hpiece hpieces
    have hcut : ModuleFree (t :: rest.take n ++ rest.drop n) := by
      rwa [List.cons_append, List.take_append_drop]
    rw [hpieces, List.map_cons, List.map_cons, Growth.chain_cons, Growth.chain_cons,
      chain_pieces_barredBehind]
    exact (hpiece.barred hstrict hinner hcut.left).append (ih hcut.right)

end

theorem spanGrowth_barred {scope scope' : Scope}
    (hstrict : scope'.config.strict = scope.config.strict)
    (hlimit : scope'.config.maxDepth = scope.config.maxDepth) (levels : Nat) {tokens : List Token}
    (hfree : ModuleFree tokens) :
    Alike (spanGrowth scope levels tokens) (spanGrowth scope' levels (barred tokens)) := by
  induction levels generalizing tokens with
  | zero =>
    rw [spanGrowth, spanGrowth, hlimit]
    exact (kept_alike hstrict).degrade _
  | succ levels ih => exact chain_pieces_barred hstrict (fun _ => ih) hfree

/-! ## whole expressions -/

theorem barred_eq_nil {tokens : List Token} : barred tokens = [] ↔ tokens = [] := by
  cases tokens <;> simp [barred]

theorem ofText_barred (config : Config) {text text' : String} (hfree : ModuleFree (tokenize text))
    (h : tokenize text' = barred (tokenize text)) :
    (Node.ofText config text).result? = (Node.ofText config text').result? ∧
      (Node.ofText config text).diagnostics.map (·.anomaly)
        = (Node.ofText config text').diagnostics.map (·.anomaly) := by
  have hstrict : (Scope.mk text' config).config.strict = (Scope.mk text config).config.strict := rfl
  refine Node.ofText_of_alike config (by rw [h, barred_eq_nil]) ?_
  unfold wholeGrowth
  rw [h]
  exact unit_barred hstrict (fun _ => spanGrowth_barred hstrict rfl (config.levels 0)) hfree

theorem Canonical.barred {tokens : List Token} (h : Canonical tokens) :
    Canonical (barred tokens) := by
  have hbehind (t : Token) {rest : List Token} (hrest : Canonical (DocTypes.barred rest)) :
      Canonical (barredBehind t rest) := by
    rcases barredBehind_cases t rest with hsame | hbar
    · rwa [hsame]
    · rw [hbar]
      exact .mark .bar hrest
  induction h with
  | nil => exact .nil
  | word hw => exact .word hw
  | mark m _ ih => exact .mark m (hbehind _ ih)
  | @wordMark w hw m rest _ ih =>
    have hrest := hbehind (.mark m) ih
    rw [DocTypes.barred]
    rcases barredBehind_cases (.word w) (.mark m :: rest) with hsame | hbar
    · rw [hsame]
      exact .wordMark hw m hrest
    · rw [hbar]
      exact .wordMark hw .bar (.mark m hrest)

/-- an expression can be written with bars -/
theorem exists_text_barred (text : String) : ∃ text', tokenize text' = barred (tokenize text) :=
  ⟨_, tokenize_joined (canonical_tokenize text).barred⟩

/-! ## silence -/

/-- in an expression without diagnostics no angle bracket opens right behind a closing mark, and
types side by side are read as if bars stood between them -/
theorem side_by_side_of_no_diagnostics {config : Config} {text : String}
    (hfree : ModuleFree (tokenize text)) (hs : config.strict = false)
    (h : (Node.ofText config text).diagnostics = []) :
    (tokenize text).IsChain (¬Wordless · ·) ∧
    (barred (tokenize text)).IsChain (fun a b => a.adjoins b = false) ∧
    (∃ text', tokenize text' = barred (tokenize text)) ∧
    ∃ tree, (Node.ofText config text).outcome = .ok tree ∧
      ∀ text', tokenize text' = barred (tokenize text) →
        (Node.ofText config text').outcome = .ok tree ∧
        (Node.ofText config text').diagnostics = [] := by
  have hattached := attached_of_no_diagnostics hfree hs h
  refine ⟨hattached.no_wordless, barred_separated _, exists_text_barred text, _,
    Node.ofText_lenient hs text, fun text' htext' => ?_⟩
  obtain ⟨htree, hanomalies⟩ := ofText_barred config hfree htext'
  rw [Run.result?, Run.result?, Node.ofText_lenient hs, Node.ofText_lenient hs] at htree
  rw [h] at hanomalies
  refine ⟨?_, List.map_eq_nil_iff.1 hanomalies.symm⟩
  rw [Node.ofText_lenient hs, Option.some.inj htree]

/-- a group before a name, with a record behind the name and a group in the place of an argument -/
theorem side_by_side_of_no_diagnostics_of_group :
    (Node.ofText {} "(a)b{c: d} | E.<f(g)>").diagnostics = [] ∧
      (Node.ofText {} "(a)|b|{c: d}|E.<f|(g)>").diagnostics = [] ∧
      ∃ tree, (Node.ofText {} "(a)b{c: d} | E.<f(g)>").outcome = .ok tree ∧
        (Node.ofText {} "(a)|b|{c: d}|E.<f|(g)>").outcome = .ok tree := by
  have h : (Node.ofText {} "(a)b{c: d} | E.<f(g)>").diagnostics = [] := by decide +kernel
  obtain ⟨-, -, -, tree, htree, hbarred⟩ :=
    side_by_side_of_no_diagnostics (by decide +kernel) rfl h
  obtain ⟨htree', h'⟩ := hbarred "(a)|b|{c: d}|E.<f|(g)>" (by decide +kernel)
  exact ⟨h, h', tree, htree, htree'⟩

/-- types may stand side by side without a diagnostic -/
theorem not_apart_of_group :
    ModuleFree (tokenize "(a)b") ∧ (Node.ofText {} "(a)b").diagnostics = [] ∧
      ¬(tokenize "(a)b").IsChain fun a b => a.adjoins b = false ∧ ¬Wordless a b := by
  decide +kernel

end DocTypes
