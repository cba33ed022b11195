import DocTypes.Proofs.Naming.Calls

/-!
# The answers to calls

The types that are found for names, properties and records, are the answers that the calls for them should
be given: each is made of the answers to the inner calls in the way that calls are answered.  This holds
for every record but one that makes a callback a part of itself.

* `IsFunctionName`, `Doclet.IsCircular`  a callback whose `this` or result is again the name of a function;
* `callbackType_eq`    the function type of any other callback;
* `Call.value`         what a call should be answered with;
* `Call.body_value`    the answers that should be given fit together.
-/

namespace DocTypes

/-! ## circular callbacks -/

/-- a name of functions in general, in any letters and with any blanks around it -/
def IsFunctionName (name : String) : Prop :=
  Text.upper (Text.stripped name) = "FUNCTION" ∨ Text.upper (Text.stripped name) = "FUNCTION()"

instance (name : String) : Decidable (IsFunctionName name) :=
  inferInstanceAs (Decidable (_ ∨ _))

/-- a callback whose `this` is the name of a function, or whose result has one among its names -/
def Doclet.IsCircular (d : Doclet) : Prop :=
  d.kind = some "typedef" ∧
    ((∃ this, d.this = some this ∧ IsFunctionName this) ∨
      ∃ r names name, d.returns = some [r] ∧ r.type = some names ∧ some name ∈ names ∧
        IsFunctionName name)

theorem isFunctionName_iff {n : String} : IsFunctionName n ↔ isCallableName (Text.stripped n) = true := by
  rw [isCallableName, Bool.or_eq_true, beq_iff_eq, beq_iff_eq, IsFunctionName]

theorem not_isFunctionName_empty : ¬IsFunctionName "" := by decide +kernel

theorem NameForm.ofName_eq_callable {n : String} :
    NameForm.ofName (some n) = .callable ↔ IsFunctionName n := by
  constructor
  · intro h
    unfold NameForm.ofName at h
    dsimp only at h
    split at h
    · cases h
    · split at h
      · cases h
      · split at h
        · cases h
        · split at h
          · rename_i hcallable
            exact isFunctionName_iff.2 hcallable
          · cases h
  · intro h
    have hblank : Text.stripped n ≠ "" := fun hstripped => by
      rw [IsFunctionName, hstripped] at h
      exact absurd h (by decide +kernel)
    have hstar : Text.stripped n ≠ "*" := fun hstripped => by
      rw [IsFunctionName, hstripped] at h
      exact absurd h (by decide +kernel)
    have hkeyword : Keyword.ofName? (Text.stripped n) = none := by
      rw [Keyword.ofName?]
      rcases h with hcapitals | hcapitals
      · rw [hcapitals]
        decide +kernel
      · rw [hcapitals]
        decide +kernel
    unfold NameForm.ofName
    rw [Option.getD_some, if_neg hblank, if_neg hstar, hkeyword]
    exact if_pos (isFunctionName_iff.1 h)

/-- the callback is entered by the names of functions -/
theorem entersCallback_iff {d : Doclet} {name : Option String} :
    (Call.name name (some d)).entersCallback = true ↔
      d.kind = some "typedef" ∧ ∃ n, name = some n ∧ IsFunctionName n := by
  rw [Call.entersCallback, Bool.and_eq_true, decide_eq_true_eq, Doclet.isCallback, beq_iff_eq, and_comm]
  cases name with
  | none => exact and_congr_right' (iff_of_false (by decide +kernel) (by rintro ⟨n, ⟨⟩, -⟩))
  | some n =>
    rw [NameForm.ofName_eq_callable]
    exact and_congr_right' ⟨fun h => ⟨n, rfl, h⟩, fun ⟨m, hm, h⟩ => Option.some.inj hm ▸ h⟩

theorem NameForm.ofName_object : NameForm.ofName (some "object") = .keyword .object := by
  decide +kernel

theorem object_not_entersCallback (d : Doclet) :
    (Call.name (some "object") (some d)).entersCallback = false := by
  rw [Call.entersCallback, NameForm.ofName_object]
  rfl

section
variable {d : Doclet} (hd : ¬d.IsCircular)
include hd

theorem this_not_entersCallback :
    ∀ name ∈ d.thisNames, (Call.name name (some d)).entersCallback = false := by
  intro name hname
  refine eq_false_of_ne_true fun henters => ?_
  obtain ⟨hkind, n, rfl, hfunction⟩ := entersCallback_iff.1 henters
  refine hd ⟨hkind, .inl ⟨n, ?_, hfunction⟩⟩
  unfold Doclet.thisNames at hname
  split at hname
  · obtain ⟨this, hthis, heq⟩ := List.mem_map.1 hname
    cases heq
    exact (Option.filter_eq_some_iff.1 (Option.mem_toList.1 hthis)).1
  · cases hname

theorem result_not_entersCallback {r : Returned} (hreturns : d.returns = some [r]) :
    ∀ name ∈ r.type.getD [], (Call.name name (some d)).entersCallback = false := by
  intro name hname
  refine eq_false_of_ne_true fun henters => ?_
  obtain ⟨hkind, n, rfl, hfunction⟩ := entersCallback_iff.1 henters
  cases htype : r.type with
  | none =>
    rw [htype] at hname
    cases hname
  | some names =>
    rw [htype] at hname
    exact hd ⟨hkind, .inr ⟨r, names, n, hreturns, htype, hname, hfunction⟩⟩

end

/-- a name that does not enter the callback stands for the same type within the callback -/
theorem nameType_eq_partType (config : Config) {d : Doclet} {name : Option String}
    (h : (Call.name name (some d)).entersCallback = false) :
    d.nameType config name = d.partType config name := by
  unfold Doclet.nameType Doclet.partType Doclet.nameWith
  split
  · rfl
  · rename_i hcallable
    have hcallback : ¬d.isCallback = true := fun hcallback => by
      rw [Call.entersCallback, hcallable, hcallback] at h
      cases h
    rw [if_neg hcallback, if_neg hcallback]
  · rfl

/-- so the function type of a callback is made of its parameters and result -/
theorem callbackType_eq (config : Config) {d : Doclet} (hd : ¬d.IsCircular) :
    d.callbackType config = (do
      let signature ← resolveSignature config d
      let result ← resolveResult config d
      pure (.function signature.params result signature.rest)) := by
  have hthis : d.thisParam (d.nameType config) = d.thisParam (d.partType config) :=
    kept_eq.thisParam fun name hname =>
      nameType_eq_partType config (this_not_entersCallback hd name hname)
  have hsignature : resolveSignature config d = d.signature config (d.partType config) := by
    rw [resolveSignature, Doclet.signature, hthis]
    rfl
  have hresult : resolveResult config d = d.resultType config (d.partType config) := by
    unfold resolveResult Doclet.resultType
    split
    · rename_i r hreturns
      exact kept_eq.unionType (fun name hname =>
        nameType_eq_partType config (result_not_entersCallback hd hreturns name hname)) fun _ => rfl
    · rfl
  rw [hsignature, hresult]
  rfl

/-! ## answers as they should be -/

theorem collect_eq (config : Config) (d : Doclet) (rest : Option (Named TsType))
    (nodes : List PropertyNode) :
    d.collectWith config (PropertyNode.type config) rest nodes = d.collect config rest nodes := by
  induction nodes generalizing rest with
  | nil => rfl
  | cons node nodes ih =>
    unfold Doclet.collectWith Doclet.collect
    refine Run.bind_congr_of_ok fun type _ => ?_
    split
    · cases rest with
      | none => exact ih _
      | some previous => exact Run.bind_congr_of_ok fun _ _ => ih _
    · rw [ih]

theorem partTypes_eq_mapM (config : Config) (nodes : List PropertyNode) :
    partTypes config nodes = nodes.mapM (PropertyNode.type config) := by
  induction nodes with
  | nil =>
    unfold partTypes
    rfl
  | cons node nodes ih =>
    unfold partTypes
    rw [List.mapM_cons, ih]

namespace Call

/-- what a call should be answered with -/
def value (config : Config) : (c : Call) → Run c.Result
  | types names doclet label => resolveType config doclet label names
  | name n doclet => resolveName config doclet n
  | literal props => literalType config props
  | record nodes parent => do
    let types ← partTypes config nodes
    recordOf nodes parent types
  | params d => resolveSignature config d
  | result d => resolveResult config d

theorem askNode_value (config : Config) (node : PropertyNode) :
    askNode (value config) node = node.type config := by
  obtain ⟨name, prop, children⟩ := node
  cases children with
  | nil =>
    unfold PropertyNode.type
    rfl
  | cons part parts =>
    unfold PropertyNode.type
    rfl

theorem missingBody_value (config : Config) (d : Doclet) (label : Option String) :
    missingBody config (value config) (some d) label = d.missingType config label := by
  unfold missingBody Doclet.missingType
  dsimp only
  cases hprops : d.properties with
  | none => rfl
  | some props =>
    show d.nameType config (some "object") = literalType config props
    rw [Doclet.nameType, Doclet.nameWith, NameForm.ofName_object, hprops]

theorem nameBody_value (config : Config) {d : Doclet} (hd : ¬d.IsCircular) (n : Option String) :
    nameBody config (value config) n (some d) = d.nameType config n := by
  unfold nameBody Doclet.nameType Doclet.nameWith
  dsimp only
  rw [callbackType_eq config hd]
  cases NameForm.ofName n with
  | keyword k => cases k <;> rfl
  | callable | blank | star | expression => rfl

theorem literalBody_value (config : Config) (props : List Property) :
    literalBody config (value config) props = literalType config props := by
  cases props with
  | nil =>
    have hroots : nest config.strict [] = pure [] := rfl
    rw [literalType, hroots, pure_bind, partTypes_eq_mapM]
    rfl
  | cons p props => rfl

theorem paramsBody_value (config : Config) (d : Doclet) :
    paramsBody config (value config) d = resolveSignature config d := by
  have hnodes : askNode (value config) = PropertyNode.type config := funext (askNode_value config)
  unfold paramsBody
  rw [hnodes]
  simp only [collect_eq]
  rfl

/-- the answers that should be given fit together -/
theorem body_value (config : Config) {c : Call} (h : ∀ d, c.doclet? = some d → ¬d.IsCircular) :
    c.body config (value config) = c.value config := by
  cases c with
  | types names doclet label =>
    cases doclet with
    | none => rfl
    | some d =>
      show unionType _ (missingBody config (value config) (some d) label) _ = _
      rw [missingBody_value]
      rfl
  | name n doclet =>
    cases doclet with
    | none => rfl
    | some d => exact nameBody_value config (h d rfl) n
  | literal props => exact literalBody_value config props
  | record nodes parent =>
    have hnodes : nodes.mapM (askNode (value config)) = partTypes config nodes := by
      rw [partTypes_eq_mapM]
      exact kept_eq.mapM fun node _ => askNode_value config node
    show nodes.mapM (askNode (value config)) >>= _ = _
    rw [hnodes]
    rfl
  | params d => exact paramsBody_value config d
  | result d => rfl

end Call

end DocTypes
