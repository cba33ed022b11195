import DocTypes.Proofs.Expression.Depth

/-!
# Type arguments with alternatives

An argument of a generic type may be a bare union, but what stands between the angle brackets is
read as one span, in which bars and commas part the types alike.  So the node has a child for each
alternative of each argument, and it has one for each argument only where none has two alternatives.

* `argumentsTokens`     arguments, each a bare union, with commas between them;
* `parted_arguments`    their alternatives, one after the other;
* `StandsFor`           a child is the tree that an argument stands for when it is read alone;
* `ofText_arguments`    the children of the node, and when they stand for the arguments.
-/

namespace DocTypes

namespace Expression

open Growth (clean clean_under clean_unit chain_clean)

/-! ## the span between the angle brackets -/

def argumentsTokens (args : List (List Expression)) : List Token :=
  Mark.comma.join (args.map (spanTokens .bar))

theorem Parted.append {a b : List Expression} {s t : List Token} (ha : Parted a s)
    (hb : Parted b t) {m : Mark} (hm : m = .bar ∨ m = .comma) (hane : a ≠ []) (hbne : b ≠ []) :
    Parted (a ++ b) (s ++ .mark m :: t) := by
  induction ha with
  | nil => exact absurd rfl hane
  | single e =>
    obtain ⟨next, more, rfl⟩ := List.exists_cons_of_ne_nil hbne
    exact .cons e hm hb
  | cons e hk _ ih =>
    rw [List.append_assoc]
    exact .cons e hk (ih nofun)

/-- the alternatives of all arguments, one after the other -/
theorem parted_arguments {args : List (List Expression)} (h : ∀ arg ∈ args, arg ≠ []) :
    Parted args.flatten (argumentsTokens args) := by
  unfold argumentsTokens Mark.join
  induction args with
  | nil => exact .nil
  | cons arg more ih =>
    obtain ⟨harg, hmore⟩ := List.forall_mem_cons.1 h
    have hfirst : Parted arg (spanTokens .bar arg) := parted_spanTokens (.inl rfl) arg
    cases more with
    | nil =>
      rw [List.flatten_singleton, List.map_singleton, List.intercalate_singleton]
      exact hfirst
    | cons next more =>
      have hrest : (next :: more).flatten ≠ [] := by
        obtain ⟨e, rest, hnext⟩ := List.exists_cons_of_ne_nil (hmore next List.mem_cons_self)
        rw [List.flatten_cons, hnext]
        nofun
      rw [List.map_cons, List.map_cons, List.intercalate_cons_cons, List.append_assoc]
      exact hfirst.append (ih hmore) (.inr rfl) harg hrest

theorem nested_argumentsTokens (args : List (List Expression)) : Nested (argumentsTokens args) :=
  nested_join .comma rfl (List.forall_mem_map.2 fun arg _ => nested_spanTokens rfl arg)

theorem canonical_argumentsTokens {args : List (List Expression)}
    (h : ∀ arg ∈ args, ∀ e ∈ arg, e.WellFormed) : Canonical (argumentsTokens args) :=
  .intercalate .comma (List.forall_mem_map.2 fun arg ha => canonical_spanTokens .bar (h arg ha))

theorem openLast_of_closed {span : List Expression} (h : ∀ e ∈ span, e.isOpen = false) :
    OpenLast span := fun e he => h e (List.dropLast_subset span he)

theorem spanHeight_le_flatten {arg : List Expression} {args : List (List Expression)}
    (h : arg ∈ args) : spanHeight arg ≤ spanHeight args.flatten := by
  refine foldr_max_le (List.forall_mem_map.2 fun e he => ?_)
  exact height_le_spanHeight (List.mem_flatten.2 ⟨arg, h, he⟩)

/-- a generic type is read as a node with the trees of all alternatives of its arguments -/
theorem growth_generic {w : String} (hw : IsName w) (dotted : Bool) {args : List (List Expression)}
    (hne : ∀ arg ∈ args, arg ≠ [])
    (hwf : ∀ arg ∈ args, ∀ e ∈ arg, e.WellFormed ∧ e.isOpen = false) (scope : Scope)
    {levels : Nat} (hlevels : spanHeight args.flatten ≤ levels) :
    spanGrowth scope (levels + 2) (argumentTokens w dotted (argumentsTokens args))
      = clean [.mk .generic w (args.flatten.map node)] := by
  have hmem : ∀ e ∈ args.flatten, e.WellFormed ∧ e.isOpen = false := by
    intro e he
    obtain ⟨arg, harg, he⟩ := List.mem_flatten.1 he
    exact hwf arg harg e he
  have hbody : spanGrowth scope (levels + 1) (argumentsTokens args)
      = clean (args.flatten.map node) := by
    have hgrowth : ∀ e ∈ args.flatten,
        e.piece.growth scope (spanGrowth scope levels) = clean [e.node] := by
      intro e he
      have hheight := height_le_spanHeight he
      exact growth_piece (hmem e he).1 scope (by omega)
    rw [spanGrowth_of_parted scope levels (parted_arguments hne) (fun e he => (hmem e he).1)
      (openLast_of_closed fun e he => (hmem e he).2), chain_clean hgrowth, List.map_eq_flatMap]
  have hpieces : pieces (argumentTokens w dotted (argumentsTokens args))
      = [.generic w (argumentsTokens args)] := by
    have hfirst := Piece.first_args (w := headWord w dotted) (nested_argumentsTokens args) []
    rw [dropDot_headWord hw.undotted, String.ofList_toList] at hfirst
    rw [argumentTokens, pieces_cons, hfirst, List.drop_of_length_le (by simp), pieces]
  show Growth.chain ((pieces _).map _) = _
  rw [hpieces, List.map_singleton, Growth.chain_cons, Growth.chain_nil, Growth.append_empty,
    Piece.growth, hbody, clean_under]

end Expression

/-! ## children and arguments -/

open Expression

theorem forall_singleton_of_length {ι : Type} {xss : List (List ι)} (hne : ∀ xs ∈ xss, xs ≠ [])
    (h : xss.flatten.length ≤ xss.length) : ∀ xs ∈ xss, xs.length = 1 := by
  -- no list is empty, so the joined one is at least as long as there are lists
  have hle (yss : List (List ι)) (hyss : ∀ ys ∈ yss, ys ≠ []) :
      yss.length ≤ yss.flatten.length := by
    induction yss with
    | nil => exact Nat.le_refl _
    | cons ys yss ih =>
      obtain ⟨hys, hmore⟩ := List.forall_mem_cons.1 hyss
      have hpos : 0 < ys.length := List.length_pos_iff.2 hys
      have hmore := ih hmore
      rw [List.flatten_cons, List.length_append, List.length_cons]
      omega
  induction xss with
  | nil => nofun
  | cons xs xss ih =>
    obtain ⟨hxs, hmore⟩ := List.forall_mem_cons.1 hne
    have hpos : 0 < xs.length := List.length_pos_iff.2 hxs
    have hxss : xss.length ≤ xss.flatten.length := hle xss hmore
    rw [List.flatten_cons, List.length_append, List.length_cons] at h
    exact List.forall_mem_cons.2 ⟨by omega, ih hmore (by omega)⟩

/-- the child is the tree that the argument is read as when it stands alone, however it is written -/
def StandsFor (config : Config) (arg : List Expression) (child : Node) : Prop :=
  ∀ text : String, Written (spanTokens .bar arg) text.toList →
    (Node.ofText config text).outcome = .ok child

section
variable {config : Config}

theorem standsFor_iff {arg : List Expression} (hne : arg ≠ [])
    (hwf : ∀ e ∈ arg, e.WellFormed) (hopen : OpenLast arg)
    (hdepth : spanHeight arg ≤ config.maxDepth) {child : Node} :
    StandsFor config arg child ↔ child = .ofUnion (arg.map node) := by
  constructor
  · intro h
    have hwritten := written_joined (spanTokens .bar arg)
    have hread := (ofText_written hne hwf hopen hwritten hdepth).1
    exact Except.ok.inj ((h _ hwritten).symm.trans hread)
  · rintro rfl text htext
    exact (ofText_written hne hwf hopen htext hdepth).1

/-- the trees of all alternatives stand for the arguments just if none has several -/
theorem forall₂_standsFor_iff {args : List (List Expression)} (hne : ∀ arg ∈ args, arg ≠ [])
    (hwf : ∀ arg ∈ args, ∀ e ∈ arg, e.WellFormed ∧ e.isOpen = false)
    (hdepth : spanHeight args.flatten ≤ config.maxDepth) :
    List.Forall₂ (StandsFor config) args (args.flatten.map node) ↔
      ∀ arg ∈ args, arg.length = 1 := by
  constructor
  · intro h
    have hlength := h.length_eq
    rw [List.length_map] at hlength
    exact forall_singleton_of_length hne (by omega)
  · intro hsingle
    induction args with
    | nil => exact .nil
    | cons arg more ih =>
      obtain ⟨hone, hmore⟩ := List.forall_mem_cons.1 hsingle
      obtain ⟨harg, hargs⟩ := List.forall_mem_cons.1 hwf
      obtain ⟨e, rfl⟩ := List.length_eq_one_iff.1 hone
      have hfirst : spanHeight [e] ≤ config.maxDepth := by
        have hheight : spanHeight [e] ≤ spanHeight ([e] :: more).flatten :=
          spanHeight_le_flatten List.mem_cons_self
        omega
      have hrest : spanHeight more.flatten ≤ config.maxDepth := by
        have hheight : spanHeight more.flatten ≤ spanHeight ([e] :: more).flatten :=
          Nat.le_max_right _ _
        omega
      have hstands : StandsFor config [e] e.node :=
        (standsFor_iff (List.cons_ne_nil e []) (fun f hf => (harg f hf).1)
          (openLast_of_closed fun f hf => (harg f hf).2) hfirst).2 rfl
      exact .cons hstands (ih (List.forall_mem_cons.1 hne).2 hargs hrest hmore)

/-- A generic type whose arguments are bare unions has a child for each alternative of each of
them, in order.  So its children stand for its arguments just if none has several alternatives. -/
theorem ofText_arguments {w : String} (hw : IsName w) (dotted : Bool)
    {args : List (List Expression)} (hne : ∀ arg ∈ args, arg ≠ [])
    (hwf : ∀ arg ∈ args, ∀ e ∈ arg, e.WellFormed ∧ e.isOpen = false) {text : String}
    (htext : Written (argumentTokens w dotted (argumentsTokens args)) text.toList)
    (hdepth : spanHeight args.flatten < config.maxDepth) :
    ∃ children, (Node.ofText config text).outcome = .ok (.mk .generic w children) ∧
      (Node.ofText config text).diagnostics = [] ∧
      children = args.flatten.map node ∧
      (List.Forall₂ (StandsFor config) args children ↔ ∀ arg ∈ args, arg.length = 1) := by
  have htokens : tokenize text = argumentTokens w dotted (argumentsTokens args) := by
    have hargs := canonical_argumentsTokens fun arg harg e he => (hwf arg harg e he).1
    exact tokenize_of_written (canonical_argumentTokens hw.toIsWord dotted hargs) htext
  have hblank : tokenize text ≠ [] := by
    rw [htokens]
    nofun
  obtain ⟨levels, hlevels⟩ : ∃ levels, config.levels 0 = levels + 2 :=
    ⟨config.maxDepth.toNat - 1, by unfold Config.levels; omega⟩
  have hgrowth : wholeGrowth config text
      = Growth.clean [.mk .generic w (args.flatten.map node)] := by
    have hheight : spanHeight args.flatten ≤ levels := by
      unfold Config.levels at hlevels
      omega
    rw [wholeGrowth, Scope.unit, htokens, hlevels, growth_generic hw dotted hne hwf _ hheight]
    rfl
  refine ⟨args.flatten.map node, ?_, ?_, rfl,
    forall₂_standsFor_iff hne hwf (Int.le_of_lt hdepth)⟩
  · rw [Node.ofText_tokens config hblank, hgrowth]
    rfl
  · rw [Node.ofText_diagnostics config hblank, hgrowth]
    rfl

end

/-- two arguments, of which the first has the alternatives `a` and `b`: there are three children -/
theorem ofText_arguments_of_alternatives :
    let args : List (List Expression) := [[.name "a", .generic "b" false [.name "k"]], [.name "c"]]
    ∃ children, (Node.ofText {} "Foo. < a|b<k>, c >").outcome = .ok (.mk .generic "Foo" children) ∧
      (Node.ofText {} "Foo. < a|b<k>, c >").diagnostics = [] ∧
      children = args.flatten.map node ∧
      (List.Forall₂ (StandsFor {}) args children ↔ ∀ arg ∈ args, arg.length = 1) := by
  intro args
  have htokens : tokenize "Foo. < a|b<k>, c >"
      = argumentTokens "Foo" true (argumentsTokens args) := by decide +kernel
  have hwritten := written_tokenize "Foo. < a|b<k>, c >"
  rw [htokens] at hwritten
  exact ofText_arguments (by decide) true (by decide) (by decide +kernel) hwritten
    (by decide +kernel)

/-- the union `a|b` is no child: its alternatives stand among the children in its place -/
theorem not_standsFor_of_alternatives :
    let args : List (List Expression) := [[.name "a", .name "b"], [.name "c"]]
    Written (argumentTokens "Foo" false (argumentsTokens args)) "Foo<a|b, c>".toList ∧
      ¬∃ children, (Node.ofText {} "Foo<a|b, c>").outcome = .ok (.mk .generic "Foo" children) ∧
        List.Forall₂ (StandsFor {}) args children := by
  intro args
  constructor
  · have htokens : tokenize "Foo<a|b, c>"
        = argumentTokens "Foo" false (argumentsTokens args) := by decide +kernel
    rw [← htokens]
    exact written_tokenize _
  · rintro ⟨children, hread, hstands⟩
    have hthree : (Node.ofText {} "Foo<a|b, c>").outcome
        = .ok (.mk .generic "Foo" [.leaf "a", .leaf "b", .leaf "c"]) := by decide +kernel
    cases hread.symm.trans hthree
    cases hstands.length_eq

end DocTypes
