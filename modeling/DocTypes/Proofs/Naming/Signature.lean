import DocTypes.Proofs.Naming.Marks
import DocTypes.Proofs.Naming.Reported

/-!
# The parameters of a documented function

The roots of the declared parameters are shared out: each that is not variadic gives a positional
parameter, in order, and the last variadic one gives the rest parameter.  That the others give none is
told, each time naming the root that is replaced and the one that replaces it.

* `IsParam`, `IsRest`   the parameters that roots give;
* `replacements`        what is told of the variadic roots;
* `Collected`           what is known of the parameters that are collected, root by root;
* `IsThis`              the parameter that a declared `this` gives;
* `signature_of_roots`  the parameters of a function.
-/

namespace DocTypes

open PropertyNode (HasType)
open Diagnostic (OfType)

/-! ## what the roots give -/

/-- the positional parameter of a root -/
structure IsParam (config : Config) (node : PropertyNode) (param : Param TsType) : Prop where
  name : param.name = node.name
  optional : param.optional = true ↔ node.prop.optional = true ∨ node.prop.defaultValue ≠ .null
  type : HasType config node param.type

/-- the rest parameter after some variadic roots, given the one before them -/
inductive IsRest (config : Config) (before : Option (Named TsType)) :
    List PropertyNode → Option (Named TsType) → Prop where
  | kept : IsRest config before [] before
  | last (front : List PropertyNode) {node : PropertyNode} {type : TsType}
      (h : HasType config node type) :
    IsRest config before (front ++ [node]) (some ⟨node.name, type⟩)

/-- the parameter that a declared `this` gives, which only a function and a callback have -/
inductive IsThis (config : Config) (d : Doclet) : List (Param TsType) → Prop where
  | declared {this : String} {type : TsType} (hthis : d.this = some this) (hne : this ≠ "")
      (hkind : d.kind = some "function" ∨ d.kind = some "typedef")
      (htype : (resolveName config (some d) (some this)).outcome = .ok type) :
    IsThis config d [⟨⟨"this", type⟩, false⟩]
  | absent (h : d.this = none ∨ d.this = some "" ∨
      ¬(d.kind = some "function" ∨ d.kind = some "typedef")) : IsThis config d []

/-- each name but the last is replaced by the next -/
def replacements (names : List String) : List Diagnostic :=
  names.zipWith (fun previous next => (Lack.oneRest previous next).diagnostic) names.tail

/-- what is known of the parameters that roots give and of what is told, after the rest parameter
`before` -/
structure Collected (config : Config) (before : Option (Named TsType)) (nodes : List PropertyNode)
    (journal : List Diagnostic) (sig : Signature) : Prop where
  params : List.Forall₂ (IsParam config) (nodes.filter (!·.prop.variadic)) sig.params
  rest : IsRest config before (nodes.filter (·.prop.variadic)) sig.rest
  told : journal.filter Diagnostic.isReplacement = replacements
    (before.toList.map (·.name) ++ (nodes.filter (·.prop.variadic)).map (·.name))

section
variable {config : Config} {before found : Option (Named TsType)} {node : PropertyNode}
  {nodes : List PropertyNode} {type : TsType}

theorem IsRest.cons (htype : HasType config node type)
    (h : IsRest config (some ⟨node.name, type⟩) nodes found) :
    IsRest config before (node :: nodes) found := by
  cases h with
  | kept => exact .last [] htype
  | last front hlast => exact .last (node :: front) hlast

theorem isReplacement_oneRest (previous next : String) :
    (Lack.oneRest previous next).diagnostic.isReplacement = true := by
  have hmessage : (Lack.oneRest previous next).diagnostic.message
      = "Only one variadic parameter" ++ (" is allowed, replacing '"
        ++ (previous ++ ("' with '" ++ (next ++ "'.")))) := by
    show "Only one variadic parameter is allowed, replacing '" ++ previous ++ "' with '" ++ next
      ++ "'." = _
    rw [String.append_assoc, String.append_assoc, String.append_assoc, ← String.append_assoc]
    rfl
  rw [Diagnostic.isReplacement, hmessage, List.isPrefixOf_iff_prefix, String.toList_append]
  exact List.prefix_append _ _

theorem filter_of_tells {α : Type} {r : Run α} (h : r.Tells OfType) :
    r.diagnostics.filter Diagnostic.isReplacement = [] := by
  refine List.filter_eq_nil_iff.2 fun d hd => ?_
  rw [(h d hd).not_isReplacement]
  exact Bool.false_ne_true

theorem isOptionalParam_iff (p : Property) :
    p.isOptionalParam = true ↔ p.optional = true ∨ p.defaultValue ≠ .null := by
  rw [Property.isOptionalParam, Bool.or_eq_true, decide_eq_true_eq, or_comm]

theorem Doclet.isFunction_iff (d : Doclet) :
    d.isFunction = true ↔ d.kind = some "function" ∨ d.kind = some "typedef" := by
  rw [Doclet.isFunction, Doclet.isCallback, Bool.or_eq_true, beq_iff_eq, beq_iff_eq]

namespace Collected

variable {journal : List Diagnostic} {sig : Signature}

/-- what is told besides makes no difference -/
theorem told_append (h : Collected config before nodes journal sig) {others : List Diagnostic}
    (hothers : others.filter Diagnostic.isReplacement = []) :
    Collected config before nodes (others ++ journal) sig := by
  refine ⟨h.params, h.rest, ?_⟩
  rw [List.filter_append, hothers]
  exact h.told

/-- a root that is not variadic gives a positional parameter in front of those of the others -/
theorem positional {param : Param TsType} (hnode : node.prop.variadic = false)
    (hparam : IsParam config node param) (h : Collected config before nodes journal sig) :
    Collected config before (node :: nodes) journal { sig with params := param :: sig.params } := by
  have hpositional : (node :: nodes).filter (!·.prop.variadic)
      = node :: nodes.filter (!·.prop.variadic) := by
    rw [List.filter_cons, hnode]
    rfl
  have hvariadic : (node :: nodes).filter (·.prop.variadic) = nodes.filter (·.prop.variadic) := by
    rw [List.filter_cons, hnode]
    rfl
  constructor
  · rw [hpositional]
    exact .cons hparam h.params
  · rw [hvariadic]
    exact h.rest
  · rw [hvariadic]
    exact h.told

/-- a variadic root takes the place of the one before it, if there is one, and that is told -/
theorem variadic (hnode : node.prop.variadic = true) (htype : HasType config node type)
    (h : Collected config (some ⟨node.name, type⟩) nodes journal sig) :
    Collected config before (node :: nodes)
      ((before.toList.map fun previous => (Lack.oneRest previous.name node.name).diagnostic)
        ++ journal) sig := by
  have hpositional : (node :: nodes).filter (!·.prop.variadic)
      = nodes.filter (!·.prop.variadic) := by
    rw [List.filter_cons, hnode]
    rfl
  have hvariadic : (node :: nodes).filter (·.prop.variadic)
      = node :: nodes.filter (·.prop.variadic) := by
    rw [List.filter_cons, hnode]
    rfl
  constructor
  · rw [hpositional]
    exact h.params
  · rw [hvariadic]
    exact h.rest.cons htype
  · rw [hvariadic, List.filter_append, h.told]
    cases before with
    | none => rfl
    | some previous =>
      have htold := isReplacement_oneRest previous.name node.name
      show [_].filter _ ++ _ = _
      rw [List.filter_singleton, htold]
      rfl

end Collected

end

section
variable {config : Config} (hlenient : config.strict = false) (d : Doclet)
include hlenient

theorem collect_of_ok {nodes : List PropertyNode} {before : Option (Named TsType)} {sig : Signature}
    (h : (d.collect config before nodes).outcome = .ok sig) :
    Collected config before nodes (d.collect config before nodes).diagnostics sig := by
  induction nodes generalizing before sig with
  | nil =>
    cases h
    refine ⟨.nil, .kept, ?_⟩
    cases before with
    | none => rfl
    | some named => rfl
  | cons node nodes ih =>
    unfold Doclet.collect at h ⊢
    obtain ⟨type, htype, h⟩ := Run.exists_of_bind_ok h
    have hnode := PropertyNode.hasType_of_ok htype
    have htold := filter_of_tells (node.type_tells hlenient)
    rw [Run.diagnostics_bind_of_ok _ htype]
    refine Collected.told_append ?_ htold
    by_cases hvariadic : node.prop.variadic = true
    · rw [if_pos hvariadic] at h ⊢
      cases before with
      | none => exact (ih h).variadic hvariadic hnode
      | some previous =>
        rw [hlenient] at h ⊢
        exact (ih h).variadic hvariadic hnode
    · rw [if_neg hvariadic] at h ⊢
      obtain ⟨more, hmore, h⟩ := Run.exists_of_bind_ok h
      cases h
      have hparam : IsParam config node ⟨⟨node.name, type⟩, node.prop.isOptionalParam⟩ :=
        ⟨rfl, isOptionalParam_iff node.prop, hnode⟩
      have hcollected := (ih hmore).positional (eq_false_of_ne_true hvariadic) hparam
      rw [Run.diagnostics_bind_of_ok _ hmore]
      show Collected _ _ _ (_ ++ []) _
      rw [List.append_nil]
      exact hcollected

/-! ## a declared `this` -/

omit hlenient in
/-- the function type of a callback whose own `this` is `Function` again is not found -/
theorem callbackType_endless {this : String} (hthis : given d.this = some this)
    (hcallback : d.isCallback = true) (hname : NameForm.ofName (some this) = .callable) :
    (d.callbackType config).outcome = .error .endless := by
  have hfunction : d.isFunction = true := by rw [Doclet.isFunction, hcallback, Bool.or_true]
  have hpart : (d.partType config (some this)).outcome = .error .endless := by
    rw [Doclet.partType, Doclet.nameWith, hname]
    show (if d.isCallback = true then _ else _ : Run TsType).outcome = _
    rw [if_pos hcallback]
    rfl
  have hparam : (d.thisParam (d.partType config)).outcome = .error .endless := by
    rw [Doclet.thisParam, hthis]
    show (if d.isFunction = true then _ else _ : Run _).outcome = _
    rw [if_pos hfunction, Run.bind_of_error _ hpart]
  have hsignature : (d.signature config (d.partType config)).outcome = .error .endless := by
    rw [Doclet.signature, Run.bind_of_error _ hparam]
  rw [Doclet.callbackType, Run.bind_of_error _ hsignature]

theorem nameType_this_tells {this : String} (hthis : given d.this = some this) {type : TsType}
    (h : (d.nameType config (some this)).outcome = .ok type) :
    (d.nameType config (some this)).Tells OfType := by
  unfold Doclet.nameType Doclet.nameWith at h ⊢
  split
  · split
    · exact literalType_tells hlenient _
    · exact tells_pure _
  · rename_i hname
    split
    · rename_i hcallback
      rw [hname] at h
      have hendless : (d.callbackType config).outcome = .error .endless :=
        callbackType_endless d hthis hcallback hname
      dsimp only at h
      rw [if_pos hcallback] at h
      cases hendless.symm.trans h
    · exact tells_pure _
  · exact NameForm.type_tells hlenient _ _

theorem thisParam_of_ok {params : List (Param TsType)}
    (h : (d.thisParam (d.nameType config)).outcome = .ok params) :
    IsThis config d params ∧ (d.thisParam (d.nameType config)).Tells OfType := by
  unfold Doclet.thisParam at h ⊢
  cases hthis : given d.this with
  | none =>
    rw [hthis] at h
    cases h
    refine ⟨.absent ?_, tells_pure []⟩
    cases hdeclared : d.this with
    | none => exact .inl rfl
    | some this =>
      have hempty := Option.filter_eq_none_iff.1 hthis this hdeclared
      rw [decide_eq_true_eq, not_not] at hempty
      exact .inr (.inl (congrArg some hempty))
  | some this =>
    rw [hthis] at h
    obtain ⟨hsome, hne⟩ := Option.filter_eq_some_iff.1 hthis
    dsimp only at h ⊢
    by_cases hfunction : d.isFunction = true
    · rw [if_pos hfunction] at h ⊢
      obtain ⟨type, htype, h⟩ := Run.exists_of_bind_ok h
      cases h
      have htells := nameType_this_tells hlenient d hthis htype
      exact ⟨.declared hsome (of_decide_eq_true hne) (d.isFunction_iff.1 hfunction) htype,
        htells.bind fun type => tells_pure _⟩
    · rw [if_neg hfunction] at h ⊢
      cases h
      exact ⟨.absent (.inr (.inr (mt d.isFunction_iff.2 hfunction))), tells_pure []⟩

end

/-! ## the parameters -/

/-- Under lenient settings, the parameters of a function that are found are those of the roots of the
declared ones: a positional one for each root that is not variadic, in order, below a declared `this`;
and the rest parameter of the last variadic root.  Just the variadic roots are told of that others
replace, each with the next. -/
theorem signature_of_roots {config : Config} (hlenient : config.strict = false) {d : Doclet}
    {sig : Signature} (h : (resolveSignature config d).outcome = .ok sig) :
    ∃ roots this positional, (nest config.strict (d.params.getD [])).outcome = .ok roots ∧
      sig.params = this ++ positional ∧ IsThis config d this ∧
      List.Forall₂ (IsParam config) (roots.filter (!·.prop.variadic)) positional ∧
      IsRest config none (roots.filter (·.prop.variadic)) sig.rest ∧
      (resolveSignature config d).diagnostics.filter Diagnostic.isReplacement
        = replacements ((roots.filter (·.prop.variadic)).map (·.name)) := by
  unfold resolveSignature Doclet.signature at h ⊢
  obtain ⟨this, hthis, h⟩ := Run.exists_of_bind_ok h
  obtain ⟨roots, hroots, h⟩ := Run.exists_of_bind_ok h
  obtain ⟨collected, hcollected, h⟩ := Run.exists_of_bind_ok h
  cases h
  obtain ⟨hthis', hthistells⟩ := thisParam_of_ok hlenient d hthis
  have hcollect := collect_of_ok hlenient d hcollected
  refine ⟨roots, this, collected.params, hroots, rfl, hthis', hcollect.params, hcollect.rest, ?_⟩
  rw [Run.diagnostics_bind_of_ok _ hthis, Run.diagnostics_bind_of_ok _ hroots,
    Run.diagnostics_bind_of_ok _ hcollected, List.filter_append, List.filter_append,
    filter_of_tells hthistells, filter_of_tells (nest_tells config.strict _)]
  show List.filter _ (_ ++ []) = _
  rw [List.append_nil]
  exact hcollect.told

/-- two rest parameters of which the second is an orphan, among an optional one and one with parts -/
theorem signature_of_roots_of_variadic :
    let config : Config := {}
    let d : Doclet :=
      { kind := some "function", this := some "Map<string",
        params := some
          [{ name := some "a", type := some [some "Foo"], variadic := true },
            { name := some "o", type := some [some "object[]"] },
            { name := some "o[].k", type := some [], optional := true },
            { name := some "b.c", type := some [none], variadic := true, optional := true },
            { name := some "n", type := some [some "number"], defaultValue := .bool false }] }
    config.strict = false ∧ ∃ sig, (resolveSignature config d).outcome = .ok sig ∧
      ∃ roots this positional, (nest config.strict (d.params.getD [])).outcome = .ok roots ∧
        sig.params = this ++ positional ∧ IsThis config d this ∧
        List.Forall₂ (IsParam config) (roots.filter (!·.prop.variadic)) positional ∧
        IsRest config none (roots.filter (·.prop.variadic)) sig.rest ∧
        (resolveSignature config d).diagnostics.filter Diagnostic.isReplacement
          = replacements ((roots.filter (·.prop.variadic)).map (·.name)) := by
  intro config d
  have hlenient : config.strict = false := rfl
  have hfound : (resolveSignature config d).outcome.toOption.isSome = true := by decide +kernel
  obtain ⟨sig, hsig⟩ := Option.isSome_iff_exists.1 hfound
  have hsig : (resolveSignature config d).outcome = .ok sig := Run.result?_eq_some.1 hsig
  exact ⟨hlenient, sig, hsig, signature_of_roots hlenient hsig⟩

end DocTypes
