import DocTypes.Proofs.Growth.Source
import DocTypes.Proofs.Naming.Record
import DocTypes.Proofs.TsType.Member

/-!
# The marks of documented properties

In the text of a record every property is a member, in the order of the forest.  The marks of a member
are found under its name, and so properties of one name beside each other share them: all are optional
as soon as one is, and the last comment among theirs stands above each.  Where they agree, as they do
if no name comes twice, each member has the marks of its own property.

* `Marking`                  how the nodes beside each other are marked;
* `Marking.own`              by what each property says itself;
* `Marking.byName`           by what all properties of the name say;
* `PropertyNode.HasText`     the text of the type of a node, under a marking;
* `PropertyNode.HasType.written`  types are written with the marks of names;
* `literalType_text`         the text of the record of declared properties.
-/

namespace DocTypes

/-! ## markings -/

/-- how the nodes beside each other are marked: which are optional, and what their comments say -/
structure Marking where
  optional : List PropertyNode → PropertyNode → Bool
  comment : List PropertyNode → PropertyNode → String

/-- some node of the name is declared optional -/
def anyOptional (nodes : List PropertyNode) (name : String) : Bool :=
  nodes.any fun node => node.name == name && node.prop.optional

/-- the last comment of a node of the name, empty if none has one -/
def lastComment (nodes : List PropertyNode) (name : String) : String :=
  ((nodes.reverse.find? fun node => node.name == name && node.prop.comment != "").map
    (·.prop.comment)).getD ""

namespace Marking

def own : Marking where
  optional _ node := node.prop.optional
  comment _ node := node.prop.comment

def byName : Marking where
  optional nodes node := anyOptional nodes node.name
  comment nodes node := lastComment nodes node.name

/-- the same optional marks, and no comments -/
def bare (m : Marking) : Marking := { m with comment := fun _ _ => "" }

/-- the member of a node among others -/
def member (m : Marking) (nodes : List PropertyNode) (node : PropertyNode) (type : String) : Member :=
  ⟨node.name, m.optional nodes node, type, m.comment nodes node⟩

/-- a member for each node, given the texts of their types -/
def members (m : Marking) (nodes : List PropertyNode) (types : List String) : List Member :=
  (nodes.zip types).map fun (node, type) => m.member nodes node type

end Marking

/-- nodes of one name beside each other are all optional or none is -/
def Unanimous (nodes : List PropertyNode) : Prop :=
  ∀ a ∈ nodes, ∀ b ∈ nodes, a.name = b.name → a.prop.optional = b.prop.optional

/-- nodes of one name beside each other have one comment -/
def OneComment (nodes : List PropertyNode) : Prop :=
  ∀ a ∈ nodes, ∀ b ∈ nodes, a.name = b.name → a.prop.comment = b.prop.comment

section
variable {nodes : List PropertyNode}

theorem anyOptional_eq (h : Unanimous nodes) {node : PropertyNode} (hnode : node ∈ nodes) :
    anyOptional nodes node.name = node.prop.optional := by
  rw [Bool.eq_iff_iff, anyOptional, List.any_eq_true]
  constructor
  · rintro ⟨other, hother, hmarked⟩
    obtain ⟨hname, hoptional⟩ := Bool.and_eq_true_iff.1 hmarked
    rw [← hoptional]
    exact h node hnode other hother (beq_iff_eq.1 hname).symm
  · intro hoptional
    refine ⟨node, hnode, ?_⟩
    rw [hoptional, beq_self_eq_true]
    rfl

theorem lastComment_eq (h : OneComment nodes) {node : PropertyNode} (hnode : node ∈ nodes) :
    lastComment nodes node.name = node.prop.comment := by
  unfold lastComment
  cases hfind : nodes.reverse.find? fun other =>
      other.name == node.name && other.prop.comment != "" with
  | none =>
    have hnot := List.find?_eq_none.1 hfind node (List.mem_reverse.2 hnode)
    rw [beq_self_eq_true, Bool.true_and, bne_iff_ne, ne_eq, Classical.not_not] at hnot
    exact hnot.symm
  | some other =>
    have hother := List.mem_reverse.1 (List.mem_of_find?_eq_some hfind)
    have hmatch := List.find?_some hfind
    have hname := (Bool.and_eq_true_iff.1 hmatch).1
    exact h other hother node hnode (beq_iff_eq.1 hname)

theorem members_bare_eq (h : Unanimous nodes) (types : List String) :
    Marking.byName.bare.members nodes types = Marking.own.bare.members nodes types := by
  refine List.map_congr_left fun entry hentry => ?_
  have hoptional := anyOptional_eq h (List.of_mem_zip hentry).1
  show (⟨_, anyOptional nodes entry.1.name, _, ""⟩ : Member) = ⟨_, entry.1.prop.optional, _, ""⟩
  rw [hoptional]

theorem unanimous_of_anyOptional (h : ∀ node ∈ nodes, anyOptional nodes node.name = node.prop.optional) :
    Unanimous nodes := by
  intro a ha b hb hname
  rw [← h a ha, hname, h b hb]

theorem oneComment_of_lastComment (h : ∀ node ∈ nodes, lastComment nodes node.name = node.prop.comment) :
    OneComment nodes := by
  intro a ha b hb hname
  rw [← h a ha, hname, h b hb]

/-- the members have the marks of the nodes themselves just if nodes of one name agree -/
theorem members_eq_iff {types : List String} (hlength : nodes.length = types.length) :
    Marking.byName.members nodes types = Marking.own.members nodes types ↔
      Unanimous nodes ∧ OneComment nodes := by
  have hmember (node : PropertyNode) (type : String) :
      Marking.byName.member nodes node type = Marking.own.member nodes node type ↔
        anyOptional nodes node.name = node.prop.optional ∧
          lastComment nodes node.name = node.prop.comment := by
    rw [Marking.member, Marking.member, Member.mk.injEq]
    simp only [true_and]
    rfl
  rw [Marking.members, Marking.members, List.map_inj_left]
  constructor
  · intro h
    have hnodes : ∀ node ∈ nodes, anyOptional nodes node.name = node.prop.optional ∧
        lastComment nodes node.name = node.prop.comment := by
      intro node hnode
      rw [← List.map_fst_zip (Nat.le_of_eq hlength)] at hnode
      obtain ⟨entry, hentry, rfl⟩ := List.mem_map.1 hnode
      exact (hmember entry.1 entry.2).1 (h entry hentry)
    exact ⟨unanimous_of_anyOptional fun node hnode => (hnodes node hnode).1,
      oneComment_of_lastComment fun node hnode => (hnodes node hnode).2⟩
  · rintro ⟨hoptional, hcomment⟩ entry hentry
    have hnode := (List.of_mem_zip hentry).1
    exact (hmember entry.1 entry.2).2
      ⟨anyOptional_eq hoptional hnode, lastComment_eq hcomment hnode⟩

end

/-! ## comments under their names -/

theorem lookup_comments (nodes : List PropertyNode) (name : String) :
    ((nodes.map fun node => (node.name, node.prop.comment)).filter (·.2 ≠ "")).lookup name
      = (nodes.find? fun node => node.name == name && node.prop.comment != "").map
          (·.prop.comment) := by
  induction nodes with
  | nil => rfl
  | cons node nodes ih =>
    rw [List.map_cons, List.filter_cons, List.find?_cons]
    by_cases hcomment : node.prop.comment = ""
    · simp only [hcomment, ne_eq, not_true_eq_false, decide_false, Bool.false_eq_true, if_false,
        bne_self_eq_false, Bool.and_false]
      exact ih
    · have hne : (node.prop.comment != "") = true := bne_iff_ne.2 hcomment
      rw [if_pos (decide_eq_true hcomment), List.lookup_cons, hne, Bool.and_true, Bool.beq_comm]
      cases node.name == name with
      | true => rfl
      | false => exact ih

/-- of the comments of several properties of a name the last is found -/
theorem docFor_commentsOf (nodes : List PropertyNode) (name : String) :
    (docFor (commentsOf nodes) name).getD "" = lastComment nodes name := by
  rw [docFor, commentsOf, ← List.filter_reverse, ← List.map_reverse, lookup_comments]
  rfl

theorem map_memberOf {properties : List (Named TsType)} {optional : NameSet}
    {docs : List (String × String)} {nodes : List PropertyNode} {m : Marking}
    (hnames : properties.map (·.name) = nodes.map (·.name))
    (hoptional : ∀ node ∈ nodes, decide (node.name ∈ optional) = m.optional nodes node)
    (hcomment : ∀ node ∈ nodes, (docFor docs node.name).getD "" = m.comment nodes node) :
    properties.map (TsType.memberOf optional docs)
      = m.members nodes ((properties.map (·.type)).map TsType.text) := by
  generalize htexts : (properties.map (·.type)).map TsType.text = texts
  have hzip : properties.map (fun p => (p.name, p.type.text)) = (nodes.map (·.name)).zip texts := by
    rw [← htexts, ← hnames, List.map_map, List.zip_map']
    rfl
  calc properties.map (TsType.memberOf optional docs)
      = (properties.map fun p => (p.name, p.type.text)).map fun entry =>
          TsType.memberNamed optional docs entry.1 entry.2 := by
        rw [List.map_map]
        rfl
    _ = (nodes.zip texts).map fun entry =>
          TsType.memberNamed optional docs entry.1.name entry.2 := by
        rw [hzip, List.zip_map_left, List.map_map]
        rfl
    _ = m.members nodes texts := by
        refine List.map_congr_left fun entry hentry => ?_
        have hnode := (List.of_mem_zip hentry).1
        rw [TsType.memberNamed, hoptional entry.1 hnode, hcomment entry.1 hnode]
        rfl

theorem decide_mem_optional {optional : NameSet} {nodes : List PropertyNode}
    (h : ∀ name, name ∈ optional ↔ ∃ node ∈ nodes, node.prop.optional = true ∧ node.name = name)
    (name : String) : decide (name ∈ optional) = anyOptional nodes name := by
  rw [Bool.eq_iff_iff, decide_eq_true_eq, h, anyOptional, List.any_eq_true]
  simp only [Bool.and_eq_true, beq_iff_eq, and_comm]

namespace IsRecord

variable {nodes : List PropertyNode} {types : List TsType} {type : TsType}

theorem text (h : IsRecord nodes types (commentsOf nodes) type) :
    type.text = recordText (Marking.byName.members nodes (types.map TsType.text)) := by
  cases h with
  | mk hnames htypes hoptional =>
    rw [TsType.text_record, ← htypes, map_memberOf (m := .byName) hnames]
    · exact fun node _ => decide_mem_optional hoptional node.name
    · exact fun node _ => docFor_commentsOf nodes node.name

theorem text_bare (h : IsRecord nodes types [] type) :
    type.text = recordText (Marking.byName.bare.members nodes (types.map TsType.text)) := by
  cases h with
  | mk hnames htypes hoptional =>
    rw [TsType.text_record, ← htypes, map_memberOf (m := Marking.byName.bare) hnames]
    · exact fun node _ => decide_mem_optional hoptional node.name
    · exact fun node _ => rfl

theorem isCompound (h : IsRecord nodes types [] type) : type.isCompound = false := by
  cases h
  rfl

end IsRecord

/-! ## the text of a node -/

namespace PropertyNode

/-- the text of the type of a node: that of its own declared type, or what the texts of its parts make
up under a marking -/
inductive HasText (config : Config) (m : Marking) : PropertyNode → String → Prop where
  | own {name : String} {prop : Property} {type : TsType}
      (h : (resolveType config none prop.name prop.type).outcome = .ok type) :
    HasText config m (.mk name prop []) type.text
  | record {name : String} {prop : Property} {parts : List PropertyNode} {texts : List String}
      (hparts : parts ≠ []) (hprop : ¬prop.NamesObjectArray)
      (htexts : List.Forall₂ (HasText config m) parts texts) :
    HasText config m (.mk name prop parts) (recordText (m.bare.members parts texts))
  | array {name : String} {prop : Property} {parts : List PropertyNode} {texts : List String}
      (hparts : parts ≠ []) (hprop : prop.NamesObjectArray)
      (htexts : List.Forall₂ (HasText config m) parts texts) :
    HasText config m (.mk name prop parts) (recordText (m.bare.members parts texts) ++ "[]")

variable {config : Config}

/-- from types to texts, part by part -/
theorem forall₂_text {P : PropertyNode → TsType → Prop} {Q : PropertyNode → String → Prop}
    {nodes : List PropertyNode} {types : List TsType} (h : List.Forall₂ P nodes types)
    (hmem : ∀ node ∈ nodes, ∀ type, P node type → Q node type.text) :
    List.Forall₂ Q nodes (types.map TsType.text) := by
  rw [List.forall₂_map_right_iff]
  exact ((List.forall₂_and_left _ _).2 ⟨hmem, h⟩).imp fun node type h => h.1 type h.2

/-- types are written with the marks of names -/
theorem HasType.written {node : PropertyNode} {type : TsType} (h : HasType config node type) :
    HasText config .byName node type.text := by
  induction node using inductionOn generalizing type with
  | mk name prop parts ih =>
    cases h with
    | own h => exact .own h
    | record hparts hprop htypes hrecord =>
      rw [hrecord.text_bare]
      exact .record hparts hprop (forall₂_text htypes fun part hpart type => ih part hpart)
    | array hparts hprop htypes hrecord =>
      have htext := congrArg (· ++ "[]") hrecord.text_bare
      rename_i element
      have harray : (TsType.array element).text = element.text ++ "[]" := by
        show (if element.isCompound then parenthesized element.text else element.text) ++ "[]" = _
        rw [hrecord.isCompound]
        rfl
      rw [harray, htext]
      exact .array hparts hprop (forall₂_text htypes fun part hpart type => ih part hpart)

/-- these are the marks of the nodes themselves where all parts of one name agree -/
theorem HasText.own_marks {node : PropertyNode} {text : String}
    (h : HasText config .byName node text) (hagree : ∀ n, IsIn n node → Unanimous n.children) :
    HasText config .own node text := by
  induction node using inductionOn generalizing text with
  | mk name prop parts ih =>
    have htexts {texts : List String} (h : List.Forall₂ (HasText config .byName) parts texts) :
        List.Forall₂ (HasText config .own) parts texts := by
      have hmem : ∀ part ∈ parts, ∀ text, HasText config .byName part text →
          HasText config .own part text := fun part hpart text hwritten =>
        ih part hpart hwritten fun n hn => hagree n (.part hpart hn)
      exact ((List.forall₂_and_left _ _).2 ⟨hmem, h⟩).imp fun part text h => h.1 text h.2
    have hparts : Unanimous parts := hagree _ .root
    cases h with
    | own h => exact .own h
    | record hne hprop h =>
      rw [members_bare_eq hparts]
      exact .record hne hprop (htexts h)
    | array hne hprop h =>
      rw [members_bare_eq hparts]
      exact .array hne hprop (htexts h)

end PropertyNode

open PropertyNode (IsIn HasType HasText)

/-! ## types that are found -/

section
variable {config : Config}

theorem wrapParts_of_ok {p : Property} {parts type : TsType}
    (h : (wrapParts p.type parts).outcome = .ok type) :
    (p.NamesObjectArray ∧ type = .array parts) ∨ (¬p.NamesObjectArray ∧ type = parts) := by
  have hwrap : (wrapParts p.type parts).NullJustIf (p.type = some [none]) fun type =>
      (p.NamesObjectArray ∧ type = .array parts) ∨ (¬p.NamesObjectArray ∧ type = parts) :=
    wrapParts_nullJustIf (fun hprop => .inl ⟨hprop, rfl⟩) fun hprop => .inr ⟨hprop, rfl⟩
  rcases hwrap with ⟨-, herror⟩ | ⟨-, found, hfound, htype⟩
  · cases herror.symm.trans h
  · cases hfound.symm.trans h
    exact htype

theorem partTypes_of_ok {nodes : List PropertyNode} {types : List TsType}
    (hnodes : ∀ node ∈ nodes, ∀ type, (node.type config).outcome = .ok type →
      HasType config node type)
    (h : (partTypes config nodes).outcome = .ok types) :
    List.Forall₂ (HasType config) nodes types := by
  induction nodes generalizing types with
  | nil =>
    unfold partTypes at h
    cases h
    exact .nil
  | cons node nodes ih =>
    obtain ⟨hnode, hrest⟩ := List.forall_mem_cons.1 hnodes
    unfold partTypes at h
    obtain ⟨type, htype, h⟩ := Run.exists_of_bind_ok h
    obtain ⟨more, hmore, h⟩ := Run.exists_of_bind_ok h
    cases h
    exact .cons (hnode type htype) (ih hrest hmore)

/-- a type that is found for a property is made from its tree, under any settings -/
theorem PropertyNode.hasType_of_ok {node : PropertyNode} {type : TsType}
    (h : (node.type config).outcome = .ok type) : HasType config node type := by
  induction node using inductionOn generalizing type with
  | mk name prop children ih =>
    cases children with
    | nil =>
      unfold PropertyNode.type at h
      exact .own h
    | cons part parts =>
      unfold PropertyNode.type at h
      obtain ⟨types, htypes, h⟩ := Run.exists_of_bind_ok h
      have hparts := partTypes_of_ok (fun node hnode type => ih node hnode) htypes
      have hrecord := recordType_isRecord hparts.length_eq.symm []
      rcases wrapParts_of_ok h with ⟨hprop, rfl⟩ | ⟨hprop, rfl⟩
      · exact .array (List.cons_ne_nil part parts) hprop hparts hrecord
      · exact .record (List.cons_ne_nil part parts) hprop hparts hrecord

/-- an object type that is found for declared properties, under any settings -/
theorem literalType_of_ok {props : List Property} {type : TsType}
    (h : (literalType config props).outcome = .ok type) :
    ∃ roots types, (nest config.strict props).outcome = .ok roots ∧
      List.Forall₂ (HasType config) roots types ∧ IsRecord roots types (commentsOf roots) type := by
  obtain ⟨roots, hroots, h⟩ := Run.exists_of_bind_ok h
  obtain ⟨types, htypes, h⟩ := Run.exists_of_bind_ok h
  cases h
  have hparts := partTypes_of_ok (fun node _ type => node.hasType_of_ok) htypes
  exact ⟨roots, types, hroots, hparts, recordType_isRecord hparts.length_eq.symm _⟩

end

/-! ## the text of a record -/

/-- The text of the object type of declared properties has a member for each root, in order, with the
marks of its name; and so has the text of every record inside.  The members of the roots have the marks
of their own properties just if roots of one name agree in them, and those of the parts have the optional
marks of their own properties if parts of one name beside each other agree. -/
theorem literalType_text {config : Config} {props : List Property} {type : TsType}
    (h : (literalType config props).outcome = .ok type) :
    ∃ roots texts, (nest config.strict props).outcome = .ok roots ∧
      List.Forall₂ (HasText config .byName) roots texts ∧
      type.text = recordText (Marking.byName.members roots texts) ∧
      (Marking.byName.members roots texts = Marking.own.members roots texts ↔
        Unanimous roots ∧ OneComment roots) ∧
      ((∀ root ∈ roots, ∀ node, IsIn node root → Unanimous node.children) →
        List.Forall₂ (HasText config .own) roots texts) := by
  obtain ⟨roots, types, hroots, htypes, hrecord⟩ := literalType_of_ok h
  have hwritten : List.Forall₂ (HasText config .byName) roots (types.map TsType.text) :=
    PropertyNode.forall₂_text htypes fun root _ type hroot => hroot.written
  refine ⟨roots, types.map TsType.text, hroots, hwritten, hrecord.text,
    members_eq_iff hwritten.length_eq, fun hagree => ?_⟩
  have hroot : ∀ root ∈ roots, ∀ text, HasText config .byName root text →
      HasText config .own root text := fun root hroot text h => h.own_marks (hagree root hroot)
  exact ((List.forall₂_and_left _ _).2 ⟨hroot, hwritten⟩).imp fun root text h => h.1 text h.2

/-- a part declared twice, and a second root of the name of a first -/
theorem literalType_text_of_redeclared :
    let config : Config := {}
    let props : List Property :=
      [{ name := some "opts", type := some [some "Object[]"] },
        { name := some "opts.id", type := some [some "string"], optional := true },
        { name := some "opts[].id", type := some [some "Foo"] },
        { name := some "order.opts", type := some [some "{a: b}"], description := some "…" }]
    ∃ type, (literalType config props).outcome = .ok type ∧
      ∃ roots texts, (nest config.strict props).outcome = .ok roots ∧
        List.Forall₂ (HasText config .byName) roots texts ∧
        type.text = recordText (Marking.byName.members roots texts) ∧
        (Marking.byName.members roots texts = Marking.own.members roots texts ↔
          Unanimous roots ∧ OneComment roots) ∧
        ((∀ root ∈ roots, ∀ node, IsIn node root → Unanimous node.children) →
          List.Forall₂ (HasText config .own) roots texts) := by
  intro config props
  have hfound : (literalType config props).outcome.toOption.isSome = true := by decide +kernel
  obtain ⟨type, htype⟩ := Option.isSome_iff_exists.1 hfound
  have htype : (literalType config props).outcome = .ok type := Run.result?_eq_some.1 htype
  exact ⟨type, htype, literalType_text htype⟩

/-- of two roots of one name the second alone is declared optional, and both are marked -/
theorem not_own_marks_of_redeclared :
    let config : Config := {}
    let props : List Property :=
      [{ name := some "a", type := some [some "string"] },
        { name := some "a", type := some [some "string"], optional := true }]
    ∃ type, (literalType config props).outcome = .ok type ∧
      ∀ roots texts, (nest config.strict props).outcome = .ok roots →
        List.Forall₂ (HasText config .own) roots texts →
        type.text ≠ recordText (Marking.own.members roots texts) := by
  intro config props
  refine ⟨.object [⟨"a", .keyword .string⟩, ⟨"a", .keyword .string⟩] (.ofList ["a"]) none false [],
    rfl, ?_⟩
  intro roots texts hroots htexts
  have htext {prop : Property} {text : String} (hprop : prop.type = some [some "string"])
      (h : HasText config .own (.mk "a" prop []) text) : text = "string" := by
    cases h with
    | own htype =>
      rw [hprop] at htype
      cases htype
      rfl
    | record hparts => exact absurd rfl hparts
    | array hparts => exact absurd rfl hparts
  cases hroots
  rcases htexts with _ | ⟨hfirst, _ | ⟨hsecond, _ | _⟩⟩
  rw [htext rfl hfirst, htext rfl hsecond]
  decide +kernel

end DocTypes
