import DocTypes.Proofs.Doclet.Nesting
import DocTypes.Proofs.Naming.Conforming

/-!
# The record of documented properties

The object type of documented properties has the shape of their forest: a property for each root, and
in the place of a node with parts the object type of its parts, or an array of it.  One thing can go
wrong under lenient settings, and it can be hidden deep in the forest: a node with parts whose one
declared name is null.

* `Run.NullJustIf`                 a run that ends with the fault of a null name in one case only;
* `PropertyNode.IsIn`              the nodes of a tree;
* `PropertyNode.HasType`           the type of a node, given those of its parts;
* `PropertyNode.type_nullJustIf`   the type of a property, by induction on its tree;
* `literalType_of_forest`          the object type of declared properties.
-/

namespace DocTypes

open Text (lower)
open TsType (Occurs forall_occurs)

/-! ## runs that meet a null name -/

/-- the run ends with the fault of a null name just if `null`, and else with a result that has the
property -/
def Run.NullJustIf {α : Type} (r : Run α) (null : Prop) (P : α → Prop) : Prop :=
  (null ∧ r.outcome = .error .nullName) ∨ (¬null ∧ r.Gives P)

section
variable {α β : Type} {P : α → Prop} {Q : β → Prop} {null null' : Prop}

theorem Run.Gives.nullJustIf {r : Run α} (h : r.Gives P) (hnull : ¬null) : r.NullJustIf null P :=
  .inr ⟨hnull, h⟩

theorem Run.NullJustIf.bind {r : Run α} {f : α → Run β} (hr : r.NullJustIf null P)
    (hf : ∀ a, P a → (f a).NullJustIf null' Q) : (r >>= f).NullJustIf (null ∨ null') Q := by
  rcases hr with ⟨hnull, herror⟩ | ⟨hnull, a, houtcome, ha⟩
  · refine .inl ⟨.inl hnull, ?_⟩
    rw [Run.bind_of_error f herror]
  · unfold NullJustIf Gives
    rw [Run.bind_of_ok f houtcome]
    rcases hf a ha with ⟨hnull', herror⟩ | ⟨hnull', hgives⟩
    · exact .inl ⟨.inr hnull', herror⟩
    · exact .inr ⟨not_or.2 ⟨hnull, hnull'⟩, hgives⟩

theorem Run.NullJustIf.map {r : Run α} {g : α → β} (hr : r.NullJustIf null P)
    (hg : ∀ a, P a → Q (g a)) : (r >>= fun a => pure (g a)).NullJustIf null Q := by
  have h := hr.bind fun a ha => (gives_pure (hg a ha)).nullJustIf not_false
  rwa [or_false] at h

end

/-! ## types without a doc comment -/

namespace TsType

def docs : TsType → List (String × String)
  | object _ _ _ _ docs => docs
  | keyword _ | this | reference _ _ | array _ | union _ | function _ _ _ | query _
  | imported _ _ _ => []

/-- no doc comment is in the type -/
def Undocumented (type : TsType) : Prop := ∀ t, Occurs t type → t.docs = []

theorem Sound.undocumented {type : TsType} (h : type.Sound) : type.Undocumented := by
  intro t ht
  have hconforms := h t ht
  cases t with
  | object => exact hconforms.2.2.1
  | keyword | this | reference | array | union | function | query | imported => rfl

theorem Undocumented.array {element : TsType} (h : element.Undocumented) :
    (TsType.array element).Undocumented := forall_occurs rfl (List.forall_mem_singleton.2 h)

end TsType

/-! ## records of properties -/

/-- an object type on several lines with a property of the given type for each node, in order, and
the marks of those declared optional -/
inductive IsRecord (nodes : List PropertyNode) (types : List TsType)
    (docs : List (String × String)) : TsType → Prop where
  | mk {properties : List (Named TsType)} {optional : NameSet}
      (hnames : properties.map (·.name) = nodes.map (·.name))
      (htypes : properties.map (·.type) = types)
      (hoptional : ∀ name, name ∈ optional ↔
        ∃ node ∈ nodes, node.prop.optional = true ∧ node.name = name) :
    IsRecord nodes types docs (.object properties optional none false docs)

/-- a property for each node, with its name and its type -/
theorem map_zipWith_named {nodes : List PropertyNode} {types : List TsType}
    (hlength : types.length = nodes.length) :
    let properties : List (Named TsType) := nodes.zipWith (fun node type => ⟨node.name, type⟩) types
    properties.map (·.name) = nodes.map (·.name) ∧ properties.map (·.type) = types := by
  induction nodes generalizing types with
  | nil =>
    cases types with
    | nil => exact ⟨rfl, rfl⟩
    | cons type types => cases hlength
  | cons node nodes ih =>
    cases types with
    | nil => cases hlength
    | cons type types =>
      obtain ⟨hnames, htypes⟩ := ih (Nat.succ.inj hlength)
      exact ⟨congrArg (node.name :: ·) hnames, congrArg (type :: ·) htypes⟩

theorem recordType_isRecord {nodes : List PropertyNode} {types : List TsType}
    (hlength : types.length = nodes.length) (docs : List (String × String)) :
    IsRecord nodes types docs (recordType nodes types docs) := by
  obtain ⟨hnames, htypes⟩ := map_zipWith_named hlength
  refine .mk hnames htypes fun name => ?_
  simp only [NameSet.mem_ofList, List.mem_map, List.mem_filter, and_assoc]

/-- the types right inside a record of properties are those of the nodes -/
theorem IsRecord.parts_eq {nodes : List PropertyNode} {types : List TsType}
    {docs : List (String × String)} {type : TsType} (h : IsRecord nodes types docs type) :
    type.parts = types := by
  cases h with
  | mk _ htypes _ => exact (List.append_nil _).trans htypes

theorem IsRecord.undocumented {nodes : List PropertyNode} {types : List TsType} {type : TsType}
    (h : IsRecord nodes types [] type) (htypes : ∀ t ∈ types, t.Undocumented) :
    type.Undocumented := by
  refine forall_occurs ?_ ?_
  · cases h
    rfl
  · rw [h.parts_eq]
    exact htypes

/-- the declared names are the one name of an array of objects -/
def Property.NamesObjectArray (p : Property) : Prop :=
  ∃ name, p.type = some [some name] ∧
    (lower name = "array.<object>" ∨ lower name = "array<object>" ∨ lower name = "object[]")

namespace PropertyNode

/-- the node is the root of a tree, or below it -/
inductive IsIn (node : PropertyNode) : PropertyNode → Prop where
  | root : IsIn node node
  | part {child parent : PropertyNode} (hchild : child ∈ parent.children) (h : IsIn node child) :
    IsIn node parent

theorem IsIn.trans {a b c : PropertyNode} (hab : IsIn a b) (hbc : IsIn b c) : IsIn a c := by
  induction hbc with
  | root => exact hab
  | part hchild _ ih => exact .part hchild ih

/-- a node with parts whose one declared name is null -/
def IsNull (node : PropertyNode) : Prop :=
  node.children ≠ [] ∧ node.prop.type = some [none]

/-- the type of a node: its own declared type, or what its parts make up -/
inductive HasType (config : Config) : PropertyNode → TsType → Prop where
  | own {name : String} {prop : Property} {type : TsType}
      (h : (resolveType config none prop.name prop.type).outcome = .ok type) :
    HasType config (.mk name prop []) type
  | record {name : String} {prop : Property} {parts : List PropertyNode} {types : List TsType}
      {type : TsType} (hparts : parts ≠ []) (hprop : ¬prop.NamesObjectArray)
      (htypes : List.Forall₂ (HasType config) parts types)
      (hrecord : IsRecord parts types [] type) : HasType config (.mk name prop parts) type
  | array {name : String} {prop : Property} {parts : List PropertyNode} {types : List TsType}
      {type : TsType} (hparts : parts ≠ []) (hprop : prop.NamesObjectArray)
      (htypes : List.Forall₂ (HasType config) parts types)
      (hrecord : IsRecord parts types [] type) : HasType config (.mk name prop parts) (.array type)

theorem exists_isNull_mk {name : String} {prop : Property} {parts : List PropertyNode} :
    (∃ node, IsIn node (mk name prop parts) ∧ node.IsNull) ↔
      (∃ part ∈ parts, ∃ node, IsIn node part ∧ node.IsNull) ∨ (mk name prop parts).IsNull := by
  constructor
  · rintro ⟨node, hin, hnull⟩
    cases hin with
    | root => exact .inr hnull
    | @part child _ hchild hin => exact .inl ⟨child, hchild, node, hin, hnull⟩
  · rintro (⟨part, hpart, node, hin, hnull⟩ | hnull)
    · exact ⟨node, .part hpart hin, hnull⟩
    · exact ⟨_, .root, hnull⟩

end PropertyNode

open PropertyNode (IsIn HasType exists_isNull_mk)

/-! ## types of properties -/

theorem isObjectArrayName_iff (name : String) : isObjectArrayName name = true ↔
    lower name = "array.<object>" ∨ lower name = "array<object>" ∨ lower name = "object[]" := by
  simp [isObjectArrayName, or_assoc]

/-- parts are wrapped in an array just if the declared names say so -/
theorem wrapParts_nullJustIf {P : TsType → Prop} {p : Property} {parts : TsType}
    (harray : p.NamesObjectArray → P (.array parts)) (hrecord : ¬p.NamesObjectArray → P parts) :
    (wrapParts p.type parts).NullJustIf (p.type = some [none]) P := by
  unfold wrapParts
  split
  · rename_i name hname
    have hnull : p.type ≠ some [none] := by
      rw [hname]
      nofun
    refine Run.Gives.nullJustIf (gives_pure ?_) hnull
    by_cases h : isObjectArrayName name = true
    · rw [if_pos h]
      exact harray ⟨name, hname, (isObjectArrayName_iff name).1 h⟩
    · rw [if_neg h]
      refine hrecord fun ⟨name', hname', h'⟩ => h ?_
      cases hname.symm.trans hname'
      exact (isObjectArrayName_iff name).2 h'
  · rename_i hname
    exact .inl ⟨hname, rfl⟩
  · rename_i hsome hnone
    exact Run.Gives.nullJustIf (gives_pure (hrecord fun ⟨name, hname, _⟩ => hsome name hname)) hnone

/-- what is shown of the type of a node -/
structure Settled (config : Config) (node : PropertyNode) (type : TsType) : Prop where
  hasType : HasType config node type
  undocumented : type.Undocumented

theorem undocumented_of_settled {config : Config} {nodes : List PropertyNode} {types : List TsType}
    (h : List.Forall₂ (Settled config) nodes types) : ∀ t ∈ types, t.Undocumented := by
  induction h with
  | nil => nofun
  | cons hnode _ ih => exact List.forall_mem_cons.2 ⟨hnode.undocumented, ih⟩

theorem partTypes_nullJustIf {config : Config} {nodes : List PropertyNode}
    (h : ∀ node ∈ nodes, (node.type config).NullJustIf (∃ n, IsIn n node ∧ n.IsNull)
      (Settled config node)) :
    (partTypes config nodes).NullJustIf (∃ node ∈ nodes, ∃ n, IsIn n node ∧ n.IsNull)
      (List.Forall₂ (Settled config) nodes) := by
  induction nodes with
  | nil =>
    unfold partTypes
    exact (gives_pure .nil).nullJustIf nofun
  | cons node nodes ih =>
    obtain ⟨hnode, hnodes⟩ := List.forall_mem_cons.1 h
    unfold partTypes
    rw [List.exists_mem_cons_iff]
    exact hnode.bind fun type htype => (ih hnodes).map fun types htypes => .cons htype htypes

/-- the type of a property is not found just if a null name is in the way, at any depth -/
theorem PropertyNode.type_nullJustIf {config : Config} (hlenient : config.strict = false)
    (node : PropertyNode) : (node.type config).NullJustIf (∃ n, IsIn n node ∧ n.IsNull)
      (Settled config node) := by
  induction node using inductionOn with
  | mk name prop children ih =>
    rw [exists_isNull_mk]
    cases children with
    | nil =>
      obtain ⟨type, htype, hsound⟩ := typeOf_gives hlenient prop.name prop.type
      unfold PropertyNode.type
      refine Run.Gives.nullJustIf ⟨type, htype, .own htype, hsound.undocumented⟩ ?_
      rintro (⟨part, hpart, -⟩ | hnull)
      · cases hpart
      · exact hnull.1 rfl
    | cons part parts =>
      have hne : part :: parts ≠ [] := List.cons_ne_nil part parts
      have hnull : (mk name prop (part :: parts)).IsNull ↔ prop.type = some [none] :=
        and_iff_right hne
      unfold PropertyNode.type
      rw [hnull]
      refine (partTypes_nullJustIf ih).bind fun types htypes => ?_
      have hrecord := recordType_isRecord htypes.length_eq.symm []
      have hparts : List.Forall₂ (HasType config) (part :: parts) types :=
        htypes.imp fun _ _ h => h.hasType
      have hundocumented := hrecord.undocumented (undocumented_of_settled htypes)
      exact wrapParts_nullJustIf
        (fun hprop => ⟨.array hne hprop hparts hrecord, hundocumented.array⟩)
        (fun hprop => ⟨.record hne hprop hparts hrecord, hundocumented⟩)

/-- Under lenient settings, declared properties have an object type unless a node with parts, at any
depth of their forest, has null for its one declared name; there is no other fault.  The type has a
property for each root, whose type is made from the tree of the root.  Doc comments are those of the
roots, and no type inside has one. -/
theorem literalType_of_forest {config : Config} (hlenient : config.strict = false)
    (props : List Property) : ∃ roots, (nest config.strict props).outcome = .ok roots ∧
      ((literalType config props).outcome = .error .nullName ↔
        ∃ root ∈ roots, ∃ node, IsIn node root ∧ node.IsNull) ∧
      ((¬∃ root ∈ roots, ∃ node, IsIn node root ∧ node.IsNull) →
        ∃ types type, (literalType config props).outcome = .ok type ∧
          List.Forall₂ (HasType config) roots types ∧
          IsRecord roots types (commentsOf roots) type ∧
          ∀ part ∈ type.parts, part.Undocumented) := by
  have hroots : (nest config.strict props).outcome = .ok (rootsAfter [] (declared props)) := by
    rw [nest, hlenient, Run.bind_of_ok _ (checkNesting_lenient [] props)]
    rfl
  have htypes := partTypes_nullJustIf fun root (_ : root ∈ rootsAfter [] (declared props)) =>
    root.type_nullJustIf hlenient
  generalize rootsAfter [] (declared props) = roots at hroots htypes
  have hliteral : (literalType config props).outcome = (partTypes config roots >>= fun types =>
      pure (recordType roots types (commentsOf roots))).outcome := by
    rw [literalType, Run.bind_of_ok _ hroots]
  refine ⟨roots, hroots, ?_⟩
  rw [hliteral]
  rcases htypes with ⟨hnull, herror⟩ | ⟨hnull, types, houtcome, htypes⟩
  · rw [Run.bind_of_error _ herror]
    exact ⟨iff_of_true rfl hnull, fun h => absurd hnull h⟩
  · have hrecord := recordType_isRecord htypes.length_eq.symm (commentsOf roots)
    rw [Run.bind_of_ok _ houtcome]
    refine ⟨iff_of_false (by rintro ⟨⟩) hnull, fun _ => ⟨types, _, rfl, ?_, hrecord, ?_⟩⟩
    · exact htypes.imp fun _ _ h => h.hasType
    · rw [hrecord.parts_eq]
      exact undocumented_of_settled htypes

/-- an array of objects with a part that has a part: it has an object type if the part names two
types, and none if it names null alone -/
theorem literalType_of_forest_of_items :
    let config : Config := {}
    let props (names : TypeNames) : List Property :=
      [{ name := some "a", type := some [some "Array.<oBject>"], description := some "…" },
        { name := some "a[].b", type := some names, optional := true },
        { name := some "a.b.c", type := some [some "{k: x}"] }]
    config.strict = false ∧
      (∃ roots types type, (literalType config (props [none, some "y"])).outcome = .ok type ∧
        List.Forall₂ (HasType config) roots types ∧
        IsRecord roots types (commentsOf roots) type ∧ ∀ part ∈ type.parts, part.Undocumented) ∧
      ∃ roots, (nest false (props [none])).outcome = .ok roots ∧
        ∃ root ∈ roots, ∃ node, IsIn node root ∧ node.IsNull := by
  intro config props
  have hlenient : config.strict = false := rfl
  obtain ⟨roots, -, hnull, hgives⟩ := literalType_of_forest hlenient (props [none, some "y"])
  obtain ⟨roots', hroots', -, hgives'⟩ := literalType_of_forest hlenient (props [none])
  have hok : (literalType config (props [none, some "y"])).outcome.isOk = true := by
    decide +kernel
  have hfails : (literalType config (props [none])).outcome.isOk = false := by decide +kernel
  have hfound : ¬∃ root ∈ roots, ∃ node, IsIn node root ∧ node.IsNull := fun h => by
    rw [hnull.2 h] at hok
    cases hok
  obtain ⟨types, type, h⟩ := hgives hfound
  refine ⟨hlenient, ⟨roots, types, type, h⟩, roots', hroots', ?_⟩
  by_contra hfound'
  obtain ⟨types', type', htype', -⟩ := hgives' hfound'
  rw [htype'] at hfails
  cases hfails

end DocTypes
