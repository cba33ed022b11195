import DocTypes.Naming.Callback
import DocTypes.Proofs.Lowering.Strict

/-!
# Strict and lenient resolutions

Every resolution under strict settings is the lenient one stopped at its first warning: it is
rejected just if the lenient one records a diagnostic, with the message of the first, and records
none itself; otherwise both come to the same.  Verbosity is not looked at.

* `StopsAtFirstWarning`              what this means for the runs of a resolution;
* `stopsAtFirstWarning_of_mirrors`   it follows if the run of any settings mirrors the lenient one;
* `strict_stops_at_first_warning`    it holds of every resolution there is.

The parts of a resolution come in the order of their definitions.
-/

namespace DocTypes

open Run (Mirrors mirrors_pure mirrors_fail mirrors_warn mirrors_mapM)

/-! ## types by name -/

theorem expressionType_mirrors (config : Config) (text : String) :
    Mirrors config.strict (expressionType config text) (expressionType config.lenient text) :=
  (Node.ofText_mirrors config text).bind fun root => root.lowerFrom_mirrors _

theorem NameForm.type_mirrors (config : Config) (context : Option String) (form : NameForm) :
    Mirrors config.strict (form.type config context) (form.type config.lenient context) := by
  cases form with
  | blank written => exact (mirrors_warn _).bind fun _ => mirrors_pure _
  | star => exact mirrors_pure _
  | keyword k => exact mirrors_pure _
  | callable => exact mirrors_pure _
  | expression text => exact expressionType_mirrors config text

theorem nameType_mirrors (config : Config) (name : Option String) :
    Mirrors config.strict (nameType config name) (nameType config.lenient name) :=
  NameForm.type_mirrors config none _

theorem unionType_mirrors {strict : Bool} {resolve resolve' : Option String → Run TsType}
    {missing missing' : Run TsType}
    (hresolve : ∀ name, Mirrors strict (resolve name) (resolve' name))
    (hmissing : Mirrors strict missing missing') (names : List (Option String)) :
    Mirrors strict (unionType resolve missing names) (unionType resolve' missing' names) := by
  match names with
  | [] => exact hmissing
  | [name] => exact hresolve name
  | first :: second :: rest =>
    exact (mirrors_mapM hresolve _).bind fun members => mirrors_pure _

theorem missingType_mirrors (config : Config) (context label : Option String) :
    Mirrors config.strict (missingType config context label)
      (missingType config.lenient context label) :=
  (mirrors_warn _).bind fun _ => mirrors_pure _

/-! ## documented properties -/

theorem checkNesting_mirrors {strict : Bool} (earlier : List String) (props : List Property) :
    Mirrors strict (checkNesting strict earlier props) (checkNesting false earlier props) := by
  induction props generalizing earlier with
  | nil => exact mirrors_pure ()
  | cons p later ih =>
    unfold checkNesting
    split
    · exact (mirrors_warn _).bind fun _ => ih _
    · split
      · exact (mirrors_warn _).bind fun _ => ih _
      · exact ih _

theorem nest_mirrors {strict : Bool} (props : List Property) :
    Mirrors strict (nest strict props) (nest false props) :=
  (checkNesting_mirrors [] props).bind fun _ => mirrors_pure _

theorem typeOf_mirrors (config : Config) (label : Option String) (names : Option TypeNames) :
    Mirrors config.strict (typeOf config label names) (typeOf config.lenient label names) :=
  unionType_mirrors (nameType_mirrors config) (missingType_mirrors config none _) _

theorem wrapParts_mirrors {strict : Bool} (names : Option TypeNames) (parts : TsType) :
    Mirrors strict (wrapParts names parts) (wrapParts names parts) := by
  unfold wrapParts
  split
  · exact mirrors_pure _
  · exact mirrors_fail nofun
  · exact mirrors_pure _

theorem partTypes_mirrors {config : Config} {nodes : List PropertyNode}
    (h : ∀ node ∈ nodes, Mirrors config.strict (node.type config) (node.type config.lenient)) :
    Mirrors config.strict (partTypes config nodes) (partTypes config.lenient nodes) := by
  induction nodes with
  | nil =>
    unfold partTypes
    exact mirrors_pure []
  | cons node nodes ih =>
    unfold partTypes
    exact (h node List.mem_cons_self).bind fun type =>
      (ih fun part hp => h part (List.mem_cons_of_mem _ hp)).bind fun types => mirrors_pure _

theorem PropertyNode.type_mirrors (config : Config) (node : PropertyNode) :
    Mirrors config.strict (node.type config) (node.type config.lenient) := by
  induction node using inductionOn with
  | mk name prop children ih =>
    cases children with
    | nil =>
      unfold PropertyNode.type
      exact typeOf_mirrors config prop.name prop.type
    | cons part parts =>
      unfold PropertyNode.type
      exact (partTypes_mirrors ih).bind fun types => wrapParts_mirrors prop.type _

theorem literalType_mirrors (config : Config) (props : List Property) :
    Mirrors config.strict (literalType config props) (literalType config.lenient props) :=
  (nest_mirrors props).bind fun _ =>
    (partTypes_mirrors fun node _ => node.type_mirrors config).bind fun _ => mirrors_pure _

/-! ## records -/

namespace Doclet

theorem collect_mirrors (config : Config) (d : Doclet) (rest : Option (Named TsType))
    (nodes : List PropertyNode) :
    Mirrors config.strict (d.collect config rest nodes) (d.collect config.lenient rest nodes) := by
  induction nodes generalizing rest with
  | nil => exact mirrors_pure _
  | cons node nodes ih =>
    unfold collect
    refine (node.type_mirrors config).bind fun type => ?_
    split
    · split
      · exact (mirrors_warn _).bind fun _ => ih _
      · exact ih _
    · exact (ih rest).bind fun more => mirrors_pure _

section
variable {strict : Bool} {resolve resolve' : Option String → Run TsType}
  (hresolve : ∀ name, Mirrors strict (resolve name) (resolve' name))
include hresolve

theorem thisParam_mirrors (d : Doclet) :
    Mirrors strict (d.thisParam resolve) (d.thisParam resolve') := by
  unfold thisParam
  split
  · split
    · exact (hresolve _).bind fun type => mirrors_pure _
    · exact mirrors_pure []
  · exact mirrors_pure []

end

section
variable {config : Config} {resolve resolve' : Option String → Run TsType}
  (hresolve : ∀ name, Mirrors config.strict (resolve name) (resolve' name))
include hresolve

theorem signature_mirrors (d : Doclet) :
    Mirrors config.strict (d.signature config resolve) (d.signature config.lenient resolve') :=
  (thisParam_mirrors hresolve d).bind fun _ => (nest_mirrors _).bind fun roots =>
    (collect_mirrors config d none roots).bind fun _ => mirrors_pure _

theorem typeOf_mirrors (d : Doclet) (label : Option String) (names : Option TypeNames) :
    Mirrors config.strict (d.typeOf config resolve label names)
      (d.typeOf config.lenient resolve' label names) := by
  refine unionType_mirrors hresolve ?_ _
  unfold missingType
  split
  · exact literalType_mirrors config _
  · exact missingType_mirrors config _ _

theorem resultType_mirrors (d : Doclet) :
    Mirrors config.strict (d.resultType config resolve) (d.resultType config.lenient resolve') := by
  unfold resultType
  split
  · exact typeOf_mirrors hresolve d none _
  · exact mirrors_pure _

end

theorem nameWith_mirrors {config : Config} {callback callback' : Doclet → Run TsType}
    (hcallback : ∀ d, Mirrors config.strict (callback d) (callback' d)) (d : Doclet)
    (name : Option String) :
    Mirrors config.strict (d.nameWith config callback name)
      (d.nameWith config.lenient callback' name) := by
  unfold nameWith
  split
  · split
    · exact literalType_mirrors config _
    · exact mirrors_pure _
  · split
    · exact hcallback d
    · exact mirrors_pure _
  · exact NameForm.type_mirrors config _ _

theorem partType_mirrors (config : Config) (d : Doclet) (name : Option String) :
    Mirrors config.strict (d.partType config name) (d.partType config.lenient name) := by
  have hendless : ∀ x, Fault.endless ≠ .rejected x := nofun
  exact nameWith_mirrors (fun _ => mirrors_fail hendless) d name

theorem callbackType_mirrors (config : Config) (d : Doclet) :
    Mirrors config.strict (d.callbackType config) (d.callbackType config.lenient) :=
  (signature_mirrors (partType_mirrors config d) d).bind fun _ =>
    (resultType_mirrors (partType_mirrors config d) d).bind fun _ => mirrors_pure _

theorem nameType_mirrors (config : Config) (d : Doclet) (name : Option String) :
    Mirrors config.strict (d.nameType config name) (d.nameType config.lenient name) :=
  nameWith_mirrors (callbackType_mirrors config) d name

end Doclet

/-! ## resolutions -/

theorem resolveName_mirrors (config : Config) (doclet : Option Doclet) (name : Option String) :
    Mirrors config.strict (resolveName config doclet name)
      (resolveName config.lenient doclet name) := by
  cases doclet with
  | none => exact nameType_mirrors config name
  | some d => exact d.nameType_mirrors config name

theorem resolveType_mirrors (config : Config) (doclet : Option Doclet) (label : Option String)
    (names : Option TypeNames) :
    Mirrors config.strict (resolveType config doclet label names)
      (resolveType config.lenient doclet label names) := by
  cases doclet with
  | none => exact typeOf_mirrors config label names
  | some d => exact d.typeOf_mirrors (d.nameType_mirrors config) label names

theorem resolveSignature_mirrors (config : Config) (d : Doclet) :
    Mirrors config.strict (resolveSignature config d) (resolveSignature config.lenient d) :=
  d.signature_mirrors (d.nameType_mirrors config)

theorem resolveResult_mirrors (config : Config) (d : Doclet) :
    Mirrors config.strict (resolveResult config d) (resolveResult config.lenient d) :=
  d.resultType_mirrors (d.nameType_mirrors config)

/-- what the runs of a resolution under strict, lenient and verbose settings have in common -/
structure StopsAtFirstWarning {α : Type} (resolution : Config → Run α) : Prop where
  /-- a strict run is rejected just if the lenient one records a diagnostic -/
  rejected_iff (config : Config) :
    (∃ r, (resolution { config with strict := true }).outcome = .error (.rejected r)) ↔
      (resolution { config with strict := false }).diagnostics ≠ []
  /-- the rejection has the message of the first diagnostic -/
  message (config : Config) (r : Rejection) :
    (resolution { config with strict := true }).outcome = .error (.rejected r) →
      (resolution { config with strict := false }).diagnostics.head?.map Diagnostic.message =
        some r.message
  /-- a strict run records nothing -/
  records (config : Config) : (resolution { config with strict := true }).diagnostics = []
  /-- without diagnostics, both come to the same -/
  outcome (config : Config) :
    (resolution { config with strict := false }).diagnostics = [] →
      (resolution { config with strict := true }).outcome =
        (resolution { config with strict := false }).outcome
  /-- a run does not depend on how much of it is logged -/
  verbose (config : Config) (verbose : Bool) :
    resolution { config with verbose } = resolution config

theorem stopsAtFirstWarning_of_mirrors {α : Type} {resolution : Config → Run α}
    (h : ∀ config, Mirrors config.strict (resolution config) (resolution config.lenient)) :
    StopsAtFirstWarning resolution := by
  have hlenient (config : Config) :
      resolution { config with strict := false } = resolution config.lenient := (h _).eq
  have hstrict (config : Config) :
      resolution { config with strict := true } = (resolution config.lenient).stopped := (h _).eq
  refine ⟨fun config => ?_, fun config r => ?_, fun config => ?_, fun config hnil => ?_,
    fun config verbose => ?_⟩
  · rw [hstrict, hlenient]
    constructor
    · rintro ⟨r, hr⟩ hnil
      rw [Run.stopped_eq_self hnil] at hr
      exact (h config).unrejected r hr
    · intro hne
      obtain ⟨w, hw⟩ := Option.ne_none_iff_exists'.1 (mt diagnostics_eq_nil.2 hne)
      exact ⟨w.rejection, (Run.stopped_rejected (h config).unrejected).2 ⟨w, hw, rfl⟩⟩
  · rw [hstrict, hlenient]
    intro hr
    obtain ⟨w, hw, rfl⟩ := (Run.stopped_rejected (h config).unrejected).1 hr
    show (diagnostics (resolution config.lenient).journal).head?.map _ = _
    rw [head?_diagnostics, hw]
    rfl
  · rw [hstrict]
    exact Run.diagnostics_stopped _
  · rw [hlenient] at hnil
    rw [hstrict, hlenient, Run.stopped_eq_self hnil]
  · rw [(h _).eq, (h config).eq]
    rfl

theorem strict_stops_at_first_warning :
    (∀ text, StopsAtFirstWarning fun config => Node.ofText config text) ∧
      (∀ text, StopsAtFirstWarning fun config => expressionType config text) ∧
      (∀ doclet name, StopsAtFirstWarning fun config => resolveName config doclet name) ∧
      (∀ doclet label names, StopsAtFirstWarning fun config =>
        resolveType config doclet label names) ∧
      (∀ props, StopsAtFirstWarning fun config => literalType config props) ∧
      (∀ doclet, StopsAtFirstWarning fun config => resolveSignature config doclet) ∧
      (∀ doclet, StopsAtFirstWarning fun config => resolveResult config doclet) ∧
      ∀ config text r, (Node.ofText config text).outcome = .error (.rejected r) →
        r.expression = text :=
  ⟨fun text => stopsAtFirstWarning_of_mirrors (Node.ofText_mirrors · text),
    fun text => stopsAtFirstWarning_of_mirrors (expressionType_mirrors · text),
    fun doclet name => stopsAtFirstWarning_of_mirrors (resolveName_mirrors · doclet name),
    fun doclet label names =>
      stopsAtFirstWarning_of_mirrors (resolveType_mirrors · doclet label names),
    fun props => stopsAtFirstWarning_of_mirrors (literalType_mirrors · props),
    fun doclet => stopsAtFirstWarning_of_mirrors (resolveSignature_mirrors · doclet),
    fun doclet => stopsAtFirstWarning_of_mirrors (resolveResult_mirrors · doclet),
    fun _ _ _ => ofText_rejection⟩

end DocTypes
