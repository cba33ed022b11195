import DocTypes.Proofs.Expression.Pieces
import DocTypes.Proofs.Growth.Journal

/-!
# Reading back what was written

A well-formed bare union that is written out, with blanks wherever they may stand, is read as the
tree that it stands for, and nothing is warned of, as long as its brackets do not nest deeper than
the settings allow.

* `Growth.clean`             a reading that adds nodes and does nothing else;
* `spanGrowth_of_parted`     a span is read expression by expression, whichever of bars and commas
  part them;
* `growth_piece`             an expression adds its tree, if enough levels may be opened;
* `ofText_written`           the tree of an expression that was written out.
-/

namespace DocTypes

namespace Growth

def clean (nodes : List Node) : Growth := ⟨nodes, [], none⟩

theorem clean_append (a b : List Node) : clean a ++ clean b = clean (a ++ b) := rfl

theorem clean_under (nodes : List Node) (kind : Kind) (name : String) :
    (clean nodes).under kind name = clean [.mk kind name nodes] := rfl

theorem clean_unit {scope : Scope} {nodes : List Node} (h : nodes ≠ []) (span : List Token) :
    (clean nodes).unit scope span = clean [.ofUnion nodes] := by
  match nodes with
  | [] => exact absurd rfl h
  | [_] => rfl
  | _ :: _ :: _ => rfl

theorem chain_clean {ι : Type} {xs : List ι} {f : ι → Growth} {nodes : ι → List Node}
    (h : ∀ x ∈ xs, f x = clean (nodes x)) : chain (xs.map f) = clean (xs.flatMap nodes) := by
  induction xs with
  | nil => rfl
  | cons x xs ih =>
    obtain ⟨hx, hxs⟩ := List.forall_mem_cons.1 h
    rw [List.map_cons, chain_cons, hx, ih hxs, clean_append, List.flatMap_cons]

end Growth

namespace Expression

open Growth (clean clean_append clean_under clean_unit chain_clean chain chain_cons append_empty)

/-! ## spans -/

theorem OpenLast.isOpen_eq_false {e next : Expression} {more : List Expression}
    (h : OpenLast (e :: next :: more)) : e.isOpen = false := h e List.mem_cons_self

theorem OpenLast.tail {e : Expression} {more : List Expression} (h : OpenLast (e :: more)) :
    OpenLast more := by
  cases more with
  | nil => nofun
  | cons next more => exact fun f hf => h f (List.mem_cons_of_mem _ hf)

theorem spanTokens_cons_cons (m : Mark) (e next : Expression) (more : List Expression) :
    spanTokens m (e :: next :: more) = e.tokens ++ .mark m :: spanTokens m (next :: more) := by
  unfold spanTokens Mark.join
  rw [List.map_cons, List.map_cons, List.intercalate_cons_cons, List.append_assoc]
  rfl

theorem spanTokens_singleton (m : Mark) (e : Expression) : spanTokens m [e] = e.tokens := by
  unfold spanTokens Mark.join
  rw [List.map_singleton, List.intercalate_singleton]

/-- expressions written one after the other, with a bar or a comma between any two of them -/
inductive Parted : List Expression → List Token → Prop where
  | nil : Parted [] []
  | single (e : Expression) : Parted [e] e.tokens
  | cons (e : Expression) {m : Mark} (hm : m = .bar ∨ m = .comma) {next : Expression}
    {more : List Expression} {tokens : List Token} (h : Parted (next :: more) tokens) :
    Parted (e :: next :: more) (e.tokens ++ .mark m :: tokens)

theorem parted_spanTokens {m : Mark} (hm : m = .bar ∨ m = .comma) (span : List Expression) :
    Parted span (spanTokens m span) := by
  induction span with
  | nil => exact .nil
  | cons e more ih =>
    cases more with
    | nil =>
      rw [spanTokens_singleton]
      exact .single e
    | cons next more =>
      rw [spanTokens_cons_cons]
      exact .cons e hm ih

/-- it makes no difference which of the two marks stands where -/
theorem spanGrowth_of_parted (scope : Scope) (levels : Nat) {span : List Expression}
    {tokens : List Token} (h : Parted span tokens) (hwf : ∀ e ∈ span, e.WellFormed)
    (hopen : OpenLast span) :
    spanGrowth scope (levels + 1) tokens
      = chain (span.map fun e => e.piece.growth scope (spanGrowth scope levels)) := by
  show chain ((pieces tokens).map _) = _
  induction h with
  | nil =>
    rw [pieces]
    rfl
  | single e =>
    have hpieces := pieces_tokens (hwf e List.mem_cons_self) .nothing
    rw [List.append_nil, pieces] at hpieces
    rw [hpieces]
    rfl
  | @cons e m hm next more tokens _ ih =>
    obtain ⟨he, hmore⟩ := List.forall_mem_cons.1 hwf
    have hfollows := Follows.mark hm hopen.isOpen_eq_false tokens
    have hseparator : m.isSeparator = true := by rcases hm with rfl | rfl <;> rfl
    rw [pieces_tokens he hfollows, pieces_separator hseparator, List.map_cons, List.map_cons, chain_cons,
      chain_cons, ih hmore hopen.tail]
    rfl

/-- a span is read expression by expression -/
theorem spanGrowth_spanTokens (scope : Scope) (levels : Nat) {m : Mark}
    (hm : m = .bar ∨ m = .comma) {span : List Expression} (hwf : ∀ e ∈ span, e.WellFormed)
    (hopen : OpenLast span) :
    spanGrowth scope (levels + 1) (spanTokens m span)
      = chain (span.map fun e => e.piece.growth scope (spanGrowth scope levels)) :=
  spanGrowth_of_parted scope levels (parted_spanTokens hm span) hwf hopen

/-! ## fields and parameters -/

theorem ofTokens_fieldTokens (key : String) {value : List Token} (h : value ≠ []) :
    Field.ofTokens (fieldTokens key value) = .typed key value := by
  obtain ⟨first, more, rfl⟩ := List.exists_cons_of_ne_nil h
  rfl

/-- a type without a name is not mistaken for one with a name -/
theorem paramType_spanTokens {span : List Expression} (hwf : ∀ e ∈ span, e.WellFormed) :
    paramType (spanTokens .bar span) = spanTokens .bar span := by
  cases span with
  | nil => rfl
  | cons e more =>
    have hrest : ∃ rest, spanTokens .bar (e :: more) = e.tokens ++ rest ∧
        ∀ t ∈ rest.head?, t = .mark .bar := by
      cases more with
      | nil => exact ⟨[], by rw [spanTokens_singleton, List.append_nil], nofun⟩
      | cons next more =>
        refine ⟨_, spanTokens_cons_cons .bar e next more, ?_⟩
        rintro t ⟨⟩
        rfl
    obtain ⟨rest, hspan, hbar⟩ := hrest
    have hspelled := (hwf e List.mem_cons_self).spelled
    rw [hspan]
    cases e with
    | name w =>
      rw [tokens_name]
      cases rest with
      | nil => rfl
      | cons t rest =>
        obtain rfl := hbar t rfl
        rfl
    | generic w dotted args =>
      rw [tokens_generic]
      rfl
    | group alternatives =>
      rw [tokens_group]
      rfl
    | record fields =>
      rw [tokens_record]
      rfl
    | function w params result =>
      rw [tokens_function]
      rfl
    | reference w path qualifier args =>
      obtain ⟨-, hmodule, -⟩ := hspelled
      rw [tokens_reference]
      cases args with
      | none => exact if_pos hmodule
      | some a => exact if_pos hmodule

theorem paramType_paramTokens {key : Option String}
    (hkey : ∀ k ∈ key, isModuleWord k = false) {span : List Expression} (hne : span ≠ [])
    (hwf : ∀ e ∈ span, e.WellFormed) :
    paramType (paramTokens key (spanTokens .bar span)) = spanTokens .bar span := by
  cases key with
  | none => exact paramType_spanTokens hwf
  | some k =>
    obtain ⟨first, more, hspan⟩ := List.exists_cons_of_ne_nil (spanTokens_ne_nil .bar hne)
    rw [hspan]
    show (if isModuleWord k then _ else _) = _
    rw [if_neg (by simp [hkey k rfl])]

section
variable {scope : Scope} {inner : List Token → Growth}

theorem fields_fieldsTokens {fields : List (String × List Expression)}
    (hne : ∀ f ∈ fields, f.2 ≠ [])
    (hinner : ∀ f ∈ fields, inner (spanTokens .bar f.2) = clean (f.2.map node)) :
    scope.fields inner (fieldsTokens fields)
      = clean (fields.flatMap fun f => [.leaf f.1, .ofUnion (f.2.map node)]) := by
  rw [Scope.fields, splitCommas_fieldsTokens, List.map_map]
  refine chain_clean fun f hf => ?_
  have hvalue : scope.unit inner (spanTokens .bar f.2) = clean [.ofUnion (f.2.map node)] := by
    rw [Scope.unit, hinner f hf, clean_unit (by simpa using hne f hf)]
  show scope.field inner (Field.ofTokens (fieldTokens f.1 (spanTokens .bar f.2))) = _
  rw [ofTokens_fieldTokens f.1 (spanTokens_ne_nil .bar (hne f hf)), Scope.field, hvalue]
  rfl

theorem params_paramsTokens {params : List (Option String × List Expression)}
    (hkey : ∀ p ∈ params, ∀ key ∈ p.1, isModuleWord key = false)
    (hne : ∀ p ∈ params, p.2 ≠ []) (hwf : ∀ p ∈ params, ∀ e ∈ p.2, e.WellFormed)
    (hinner : ∀ p ∈ params, inner (spanTokens .bar p.2) = clean (p.2.map node)) :
    scope.params inner (paramsTokens params)
      = clean (params.map fun p => .ofUnion (p.2.map node)) := by
  have hparam : ∀ p ∈ params,
      scope.unit inner (paramType (paramTokens p.1 (spanTokens .bar p.2)))
        = clean [.ofUnion (p.2.map node)] := by
    intro p hp
    rw [paramType_paramTokens (hkey p hp) (hne p hp) (hwf p hp), Scope.unit, hinner p hp,
      clean_unit (by simpa using hne p hp)]
  have hchain := chain_clean hparam
  rw [← List.map_eq_flatMap] at hchain
  rw [Scope.params, splitCommas_paramsTokens hne, List.map_map]
  exact hchain

theorem result_ofSpan? {result : Option Expression}
    (hinner : ∀ r ∈ result, inner r.tokens = clean [r.node]) :
    scope.result inner (.ofSpan? (result.map tokens)) = clean [resultNode result] := by
  cases result with
  | none => rfl
  | some r =>
    show (inner r.tokens).unit scope _ = _
    rw [hinner r rfl]
    rfl

end

/-! ## trees -/

theorem growth_piece {e : Expression} (h : e.WellFormed) (scope : Scope) {levels : Nat}
    (hl : e.height ≤ levels) :
    e.piece.growth scope (spanGrowth scope levels) = clean [e.node] := by
  induction h generalizing levels with
  | @mk e spelled openLast children ih =>
    -- the spans of `e` are read with one level less, which is enough for what stands in them
    have hspan {m : Mark} (hm : m = .bar ∨ m = .comma) {span : List Expression}
        (hs : span ∈ e.spans) :
        spanGrowth scope levels (spanTokens m span) = clean (span.map node) := by
      have hheight := spanHeight_lt_height hs
      obtain ⟨l, rfl⟩ : ∃ l, levels = l + 1 := ⟨levels - 1, by omega⟩
      have hchild : ∀ child ∈ span,
          child.piece.growth scope (spanGrowth scope l) = clean [child.node] := by
        intro child hc
        have hheight' := height_le_spanHeight hc
        exact ih span hs child hc (by omega)
      rw [spanGrowth_spanTokens scope l hm (children span hs) (openLast span hs),
        chain_clean hchild, List.map_eq_flatMap]
    cases e with
    | name w =>
      rw [node]
      rfl
    | generic w dotted args =>
      rw [node, piece, Piece.growth, hspan (.inr rfl) (List.mem_singleton.2 rfl), clean_under]
    | group alternatives =>
      rw [node, piece, Piece.growth, hspan (.inl rfl) (List.mem_singleton.2 rfl), clean_under]
      rfl
    | record fields =>
      rw [node, piece, Piece.growth, fields_fieldsTokens (fun f hf => (spelled f hf).2)
        fun f hf => hspan (.inl rfl) (mem_spans_field hf), clean_under]
    | function w params result =>
      obtain ⟨-, -, hspelled⟩ := spelled
      have hparams : scope.params (spanGrowth scope levels) (paramsTokens params) = _ :=
        params_paramsTokens (fun p hp key hk => ((hspelled p hp).1 key hk).2)
          (fun p hp => (hspelled p hp).2) (fun p hp => children p.2 (mem_spans_param hp))
          fun p hp => hspan (.inl rfl) (mem_spans_param hp)
      have hresult : ∀ r ∈ result, spanGrowth scope levels r.tokens = clean [r.node] := by
        rintro r rfl
        have hr := hspan (m := .bar) (.inl rfl) mem_spans_result
        rwa [spanTokens_singleton] at hr
      rw [node_function, piece, Piece.growth, hparams, result_ofSpan? hresult, clean_append,
        clean_under]
    | reference w path qualifier args =>
      rw [node_reference, piece, Piece.growth]
      cases args with
      | none => rfl
      | some a =>
        show (spanGrowth scope levels (spanTokens .comma a.2)).under _ _ = _
        rw [hspan (.inr rfl) (List.mem_singleton.2 rfl), clean_under]
        rfl

end Expression

/-! ## whole expressions -/

open Expression
open Growth (chain_clean)

theorem wholeGrowth_union {union : List Expression} (hne : union ≠ [])
    (hwf : ∀ e ∈ union, e.WellFormed) (hopen : OpenLast union) {text : String}
    (htokens : tokenize text = spanTokens .bar union) {config : Config}
    (hdepth : spanHeight union ≤ config.maxDepth) :
    wholeGrowth config text = Growth.clean [.ofUnion (union.map node)] := by
  obtain ⟨levels, hlevels⟩ : ∃ levels, config.levels 0 = levels + 1 :=
    ⟨config.maxDepth.toNat, by unfold Config.levels; omega⟩
  have hgrowth : ∀ e ∈ union, e.piece.growth ⟨text, config⟩ (spanGrowth ⟨text, config⟩ levels)
      = Growth.clean [e.node] := by
    intro e he
    have hheight := height_le_spanHeight he
    refine growth_piece (hwf e he) _ ?_
    unfold Config.levels at hlevels
    omega
  rw [wholeGrowth, Scope.unit, htokens, hlevels, spanGrowth_spanTokens _ _ (.inl rfl) hwf hopen,
    chain_clean hgrowth, ← List.map_eq_flatMap, Growth.clean_unit (by simpa using hne)]

/-- a well-formed bare union that is written out is read as its tree, and nothing is warned of -/
theorem ofText_written {union : List Expression} (hne : union ≠ [])
    (hwf : ∀ e ∈ union, e.WellFormed) (hopen : OpenLast union) {text : String}
    (htext : Written (spanTokens .bar union) text.toList) {config : Config}
    (hdepth : spanHeight union ≤ config.maxDepth) :
    (Node.ofText config text).outcome = .ok (.ofUnion (union.map node)) ∧
      (Node.ofText config text).diagnostics = [] := by
  have htokens : tokenize text = spanTokens .bar union :=
    tokenize_of_written (canonical_spanTokens .bar hwf) htext
  have hblank : tokenize text ≠ [] := by
    rw [htokens]
    exact spanTokens_ne_nil .bar hne
  have hwhole := wholeGrowth_union hne hwf hopen htokens hdepth
  constructor
  · rw [Node.ofText_tokens config hblank, hwhole]
    rfl
  · rw [Node.ofText_diagnostics config hblank, hwhole]
    rfl

/-- a record whose values hold references into modules, at the end of their spans, and results
that follow one another -/
theorem ofText_written_of_record :
    let text :=
      "{ a: (x|y.< z,module:m/n~q.<k> >), b: function(n: c|d,Function()): function(): module:p }| *"
    let reference := Expression.reference "module" "m/n" (some "q") (some (true, [.name "k"]))
    let result := Expression.function "function" [] (some (.reference "module" "p" none none))
    let params := [(some "n", [.name "c", .name "d"]), (none, [.function "Function" [] none])]
    let union : List Expression :=
      [.record [("a", [.group [.name "x", .generic "y" true [.name "z", reference]]]),
        ("b", [.function "function" params (some result)])], .name "*"]
    (Node.ofText { strict := true, maxDepth := 4 } text).outcome = .ok (.ofUnion (union.map node)) ∧
      (Node.ofText { strict := true, maxDepth := 4 } text).diagnostics = [] := by
  intro text reference result params union
  have htokens : tokenize text = spanTokens .bar union := by
    decide +kernel
  have hwritten := written_tokenize text
  rw [htokens] at hwritten
  exact ofText_written (by decide) (by decide +kernel) (by decide) hwritten (by decide +kernel)

end DocTypes
