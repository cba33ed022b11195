import DocTypes.Proofs.Doclet.Nesting
import DocTypes.Proofs.Growth.Journal
import DocTypes.Proofs.Growth.Related
import DocTypes.Proofs.Lowering.Exposed
import DocTypes.Naming.Callback

/-!
# What the making of a type tells

Under lenient settings the type of a name, of declared names or of documented properties is made with
diagnostics of five kinds, whose wordings say what they are about: a flaw of an expression, a defect of
a node, a name or a type that is missing, a property that is out of place.  That a rest parameter is
replaced is told by none of them.

* `Run.Tells`                  all diagnostics of a run have a property;
* `Diagnostic.OfType`          what the making of a type can tell;
* `Diagnostic.isReplacement`   whether a diagnostic tells of a rest parameter that is replaced;
* `PropertyNode.type_tells`, `literalType_tells`  the type of a property, and of several.
-/

namespace DocTypes

/-! ## runs and their diagnostics -/

/-- all diagnostics of the run have the property -/
def Run.Tells {α : Type} (r : Run α) (P : Diagnostic → Prop) : Prop := ∀ x ∈ r.diagnostics, P x

section
variable {α β : Type} {P : Diagnostic → Prop}

theorem tells_pure (a : α) : (pure a : Run α).Tells P := nofun

theorem tells_fail (fault : Fault) : (Run.fail fault : Run α).Tells P := nofun

theorem tells_warn {strict : Bool} {w : Warning} (h : P w.toDiagnostic) :
    (Run.warn strict w).Tells P := by
  unfold Run.warn
  split
  · exact tells_fail _
  · exact List.forall_mem_singleton.2 h

theorem Run.Tells.bind {r : Run α} {f : α → Run β} (hr : r.Tells P) (hf : ∀ a, (f a).Tells P) :
    (r >>= f).Tells P := by
  cases hout : r.outcome with
  | error fault =>
    rw [Run.bind_of_error f hout]
    exact hr
  | ok a =>
    unfold Run.Tells
    rw [Run.diagnostics_bind_of_ok f hout]
    exact List.forall_mem_append.2 ⟨hr, hf a⟩

theorem Run.Tells.mapM {f : α → Run β} (h : ∀ a, (f a).Tells P) (as : List α) :
    (as.mapM f).Tells P := by
  induction as with
  | nil => exact tells_pure []
  | cons a as ih =>
    rw [List.mapM_cons]
    exact (h a).bind fun b => ih.bind fun bs => tells_pure (b :: bs)

theorem Run.Exposes.tells {r : Run α} {a : α} {defects : List Defect} (h : r.Exposes a defects)
    (hP : ∀ defect : Defect, P defect.diagnostic) : r.Tells P := by
  unfold Run.Tells
  rw [h.diagnostics]
  exact List.forall_mem_map.2 fun defect _ => hP defect

end

/-! ## what is told -/

def Lack.diagnostic (lack : Lack) : Diagnostic := ⟨lack.anomaly, lack.message⟩

namespace Diagnostic

/-- what the making of a type can tell -/
inductive OfType : Diagnostic → Prop where
  | flaw (source : String) (flaw : Flaw) : OfType (flaw.warning source).toDiagnostic
  | defect (defect : Defect) : OfType defect.diagnostic
  | name : OfType Lack.name.diagnostic
  | type (label : Option String) : OfType (Lack.type label).diagnostic
  | misplacement (m : Misplacement) : OfType m.diagnostic

/-- it tells that a rest parameter is replaced -/
def isReplacement (d : Diagnostic) : Bool :=
  "Only one variadic parameter".toList.isPrefixOf d.message.toList

/-- the text begins with other letters than the message of a replacement -/
def BeginsOtherwise (text : String) : Prop :=
  ∃ a b rest, text.toList = a :: b :: rest ∧ (a ≠ 'O' ∨ b ≠ 'n')

theorem beginsOtherwise_ofList {a b : Char} (h : a ≠ 'O' ∨ b ≠ 'n') (rest : List Char) :
    BeginsOtherwise (String.ofList (a :: b :: rest)) := ⟨a, b, rest, String.toList_ofList, h⟩

theorem BeginsOtherwise.append {text : String} (h : BeginsOtherwise text) (more : String) :
    BeginsOtherwise (text ++ more) := by
  obtain ⟨a, b, rest, htext, hletters⟩ := h
  refine ⟨a, b, rest ++ more.toList, ?_, hletters⟩
  rw [String.toList_append, htext]
  rfl

theorem BeginsOtherwise.not_isReplacement {d : Diagnostic} (h : BeginsOtherwise d.message) :
    d.isReplacement = false := by
  obtain ⟨a, b, rest, htext, hletters⟩ := h
  rw [isReplacement, ← Bool.not_eq_true, List.isPrefixOf_iff_prefix, htext]
  intro hprefix
  obtain ⟨rfl, hmore⟩ := List.cons_prefix_cons.1 hprefix
  obtain ⟨rfl, -⟩ := List.cons_prefix_cons.1 hmore
  exact hletters.elim (· rfl) (· rfl)

theorem beginsOtherwise_flaw (source : String) (flaw : Flaw) :
    BeginsOtherwise (flaw.message source) := by
  unfold Flaw.message
  cases flaw <;> simp only [String.append_assoc]
  case blank => exact (beginsOtherwise_ofList (a := 'E') (by decide) _).append _
  case tooDeep => exact (beginsOtherwise_ofList (a := 'T') (by decide) _).append _
  case pathless => exact (beginsOtherwise_ofList (a := 'M') (by decide) _).append _
  case namelessField | untypedField =>
    exact (beginsOtherwise_ofList (b := 'b') (by decide) _).append _
  case unclosed | stray | typeless | unclosedResult | unclosedArguments =>
    exact (beginsOtherwise_ofList (a := 'U') (by decide) _).append _

theorem beginsOtherwise_defect (defect : Defect) : BeginsOtherwise defect.message := by
  unfold Defect.message
  cases defect <;> simp only [String.append_assoc]
  case emptyUnion | emptyArray | emptyClass | emptyGeneric =>
    exact beginsOtherwise_ofList (a := 'U') (by decide) _
  case mapWithoutKey | mapWithoutValue | keyWithoutValue | unsupported =>
    exact (beginsOtherwise_ofList (a := 'U') (by decide) _).append _
  case mapKey => exact (beginsOtherwise_ofList (a := 'I') (by decide) _).append _

theorem beginsOtherwise_misplacement (m : Misplacement) : BeginsOtherwise m.message := by
  unfold Misplacement.message
  cases m <;> simp only [String.append_assoc]
  case unnamed => exact beginsOtherwise_ofList (a := 'P') (by decide) _
  case orphan => exact (beginsOtherwise_ofList (a := 'F') (by decide) _).append _

theorem beginsOtherwise_type (label : Option String) :
    BeginsOtherwise (Lack.type label).message := by
  unfold Lack.message
  cases label <;> simp only [String.append_assoc]
  case none => exact (beginsOtherwise_ofList (a := 'U') (by decide) _).append _
  case some => exact (beginsOtherwise_ofList (a := 'U') (by decide) _).append _

theorem beginsOtherwise_name : BeginsOtherwise Lack.name.message :=
  beginsOtherwise_ofList (a := 'U') (by decide) _

theorem OfType.not_isReplacement {d : Diagnostic} (h : OfType d) : d.isReplacement = false := by
  cases h with
  | flaw source flaw => exact (beginsOtherwise_flaw source flaw).not_isReplacement
  | defect defect => exact (beginsOtherwise_defect defect).not_isReplacement
  | name => exact beginsOtherwise_name.not_isReplacement
  | type label => exact (beginsOtherwise_type label).not_isReplacement
  | misplacement m => exact (beginsOtherwise_misplacement m).not_isReplacement

end Diagnostic

open Diagnostic (OfType)

/-! ## expressions -/

/-- a reading tells of flaws of its expression only -/
theorem kept_flaws (scope : Scope) : Growth.Kept scope scope fun g _ =>
    g.Every fun e => ∃ flaw : Flaw, e = .warning (flaw.warning scope.source) where
  empty := Growth.every_empty
  add := Growth.every_add
  warn flaw := Growth.every_warn ⟨flaw, rfl⟩
  append := Growth.Every.append
  under := Growth.Every.under
  unit hg span := hg.unit ⟨.typeless (Token.joined span), rfl⟩

theorem ofText_tells (config : Config) (text : String) : (Node.ofText config text).Tells OfType := by
  by_cases htokens : tokenize text = []
  · rw [Node.ofText_blank config htokens]
    exact (tells_warn (.flaw text .blank)).bind fun _ => tells_pure _
  · have hspan := (kept_flaws ⟨text, config⟩).span rfl (config.levels 0) (tokenize text)
    have hjournal : (wholeGrowth config text).Every fun e =>
        ∃ flaw : Flaw, e = .warning (flaw.warning text) := hspan.unit ⟨.typeless _, rfl⟩
    unfold Run.Tells
    rw [Node.ofText_diagnostics config htokens]
    intro d hd
    obtain ⟨e, he, hdiagnostic⟩ := List.mem_filterMap.1 hd
    obtain ⟨flaw, rfl⟩ := hjournal e he
    cases hdiagnostic
    exact .flaw text flaw

section
variable {config : Config} (hlenient : config.strict = false)
include hlenient

theorem expressionType_tells (text : String) : (expressionType config text).Tells OfType := by
  refine (ofText_tells config text).bind fun root => ?_
  obtain ⟨type, hlowers⟩ := Lowers.exposes root
  obtain ⟨defects, -, hexposes⟩ := hlowers _ (lowers_lowerFrom (.below []) root)
  rw [hlenient]
  exact hexposes.tells .defect

/-! ## names -/

theorem NameForm.type_tells (context : Option String) (form : NameForm) :
    (form.type config context).Tells OfType := by
  cases form with
  | blank written => exact (tells_warn .name).bind fun _ => tells_pure _
  | star => exact tells_pure _
  | keyword k => exact tells_pure _
  | callable => exact tells_pure _
  | expression text => exact expressionType_tells hlenient text

theorem nameType_tells (name : Option String) : (nameType config name).Tells OfType :=
  NameForm.type_tells hlenient none (.ofName name)

omit hlenient in
theorem unionType_tells {resolve : Option String → Run TsType} {missing : Run TsType}
    (hresolve : ∀ name, (resolve name).Tells OfType) (hmissing : missing.Tells OfType)
    (names : List (Option String)) : (unionType resolve missing names).Tells OfType := by
  unfold unionType
  split
  · exact hmissing
  · exact hresolve _
  · exact (Run.Tells.mapM hresolve _).bind fun members => tells_pure _

omit hlenient in
theorem missingType_tells (config : Config) (context label : Option String) :
    (missingType config context label).Tells OfType :=
  (tells_warn (.type label)).bind fun _ => tells_pure _

theorem typeOf_tells (label : Option String) (names : Option TypeNames) :
    (typeOf config label names).Tells OfType :=
  unionType_tells (nameType_tells hlenient) (missingType_tells config none _) _

/-! ## properties -/

omit hlenient in
theorem wrapParts_tells (names : Option TypeNames) (parts : TsType) :
    (wrapParts names parts).Tells OfType := by
  unfold wrapParts
  split
  · exact tells_pure _
  · exact tells_fail _
  · exact tells_pure _

omit hlenient in
theorem partTypes_tells {nodes : List PropertyNode}
    (h : ∀ node ∈ nodes, (node.type config).Tells OfType) : (partTypes config nodes).Tells OfType := by
  induction nodes with
  | nil =>
    unfold partTypes
    exact tells_pure []
  | cons node nodes ih =>
    obtain ⟨hnode, hnodes⟩ := List.forall_mem_cons.1 h
    unfold partTypes
    exact hnode.bind fun type => (ih hnodes).bind fun types => tells_pure _

theorem PropertyNode.type_tells (node : PropertyNode) : (node.type config).Tells OfType := by
  induction node using inductionOn with
  | mk name prop children ih =>
    cases children with
    | nil =>
      unfold PropertyNode.type
      exact typeOf_tells hlenient prop.name prop.type
    | cons part parts =>
      unfold PropertyNode.type
      exact (partTypes_tells ih).bind fun types => wrapParts_tells prop.type _

omit hlenient in
theorem checkNesting_tells (strict : Bool) (earlier : List String) (props : List Property) :
    (checkNesting strict earlier props).Tells OfType := by
  induction props generalizing earlier with
  | nil => exact tells_pure ()
  | cons p later ih =>
    unfold checkNesting
    split
    · exact (tells_warn (.misplacement .unnamed)).bind fun _ => ih earlier
    · split
      · exact (tells_warn (.misplacement (.orphan _ _))).bind fun _ => ih _
      · exact ih _

omit hlenient in
theorem nest_tells (strict : Bool) (props : List Property) : (nest strict props).Tells OfType :=
  (checkNesting_tells strict [] props).bind fun _ => tells_pure _

theorem literalType_tells (props : List Property) : (literalType config props).Tells OfType :=
  (nest_tells config.strict props).bind fun _ =>
    (partTypes_tells fun node _ => node.type_tells hlenient).bind fun _ => tells_pure _

end

end DocTypes
