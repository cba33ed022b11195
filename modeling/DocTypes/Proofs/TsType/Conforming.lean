import DocTypes.TsType.Printer
import DocTypes.Text.Letters

/-!
# Types as trees are lowered to

The grammar of declared types allows more than the lowering of a tree makes use of.  What it makes use
of is said here shape by shape, and of a type together with all that is inside it.

* `TsType.parts`      the types right inside a type;
* `TsType.Occurs`     a type that is another one or inside it;
* `TsType.forall_occurs`  how a property of all that occurs in a type is shown;
* `TsType.Conforms`   what the shape of a type is held to;
* `TsType.Sound`      types in which everything conforms; they are built from sound parts.
-/

namespace DocTypes.TsType

open Text (upper)

/-! ## types inside types -/

/-- the types right inside a type -/
def parts : TsType → List TsType
  | keyword _ | this | query _ => []
  | reference _ args | imported _ _ args => args
  | array element => [element]
  | union members => members
  | function params result rest =>
    params.map (·.type) ++ result :: (rest.map (·.type)).toList
  | object properties _ index _ _ =>
    properties.map (·.type) ++ index.toList.flatMap fun (key, value) => [key, value]

/-- `t` is the whole type, or inside it -/
inductive Occurs (t : TsType) : TsType → Prop where
  | self : Occurs t t
  | inside {part whole : TsType} (hpart : part ∈ whole.parts) (h : Occurs t part) : Occurs t whole

/-- what holds of a type and of all that is inside its parts holds of all that occurs in it -/
theorem forall_occurs {P : TsType → Prop} {type : TsType} (h : P type)
    (hparts : ∀ part ∈ type.parts, ∀ t, Occurs t part → P t) : ∀ t, Occurs t type → P t := by
  intro t ht
  cases ht with
  | self => exact h
  | inside hpart ht => exact hparts _ hpart t ht

/-! ## shapes -/

/-- what the shape of a type is held to, whatever its parts are -/
def Conforms : TsType → Prop
  | keyword _ | this | array _ | query _ => True
  | union members => members ≠ []
  | function params _ rest =>
    (params ≠ [] ∧ rest = none ∧ ∀ (i : Nat) param, params[i]? = some param →
      param.name = "arg" ++ toString i ∧ param.optional = false) ∨
    (params = [] ∧ rest = some ⟨"params", any⟩)
  | object properties optional index singleLine docs =>
    singleLine = true ∧ optional = .empty ∧ docs = [] ∧
    ∀ key value, index = some (key, value) →
      properties = [] ∧ (key.text = "string" ∨ key.text = "number")
  | reference name args =>
    args ≠ [] → upper name ≠ "OBJECT" ∧ upper name ≠ "ARRAY" ∧ upper name ≠ "CLASS" ∧
      (upper name = "PROMISE" → args.length ≤ 1)
  | imported _ qualifier _ => qualifier ≠ ""

/-- everything in the type conforms -/
def Sound (type : TsType) : Prop := ∀ t, Occurs t type → t.Conforms

namespace Sound

theorem of_parts {type : TsType} (h : type.Conforms) (hparts : ∀ part ∈ type.parts, part.Sound) :
    type.Sound := forall_occurs h hparts

theorem keyword (k : Keyword) : (keyword k).Sound := of_parts trivial nofun

theorem this : TsType.this.Sound := of_parts trivial nofun

theorem any : TsType.any.Sound := keyword .any

theorem plain (name : String) : (reference name []).Sound :=
  of_parts (fun hargs => absurd rfl hargs) nofun

theorem query (target : String) : (query target).Sound := of_parts trivial nofun

theorem array {element : TsType} (h : element.Sound) : (array element).Sound :=
  of_parts trivial (List.forall_mem_singleton.2 h)

theorem union {members : List TsType} (hne : members ≠ []) (h : ∀ t ∈ members, t.Sound) :
    (union members).Sound := of_parts hne h

theorem reference {name : String} {args : List TsType} (hname : upper name ≠ "OBJECT" ∧
      upper name ≠ "ARRAY" ∧ upper name ≠ "CLASS" ∧ (upper name = "PROMISE" → args.length ≤ 1))
    (h : ∀ t ∈ args, t.Sound) : (reference name args).Sound := of_parts (fun _ => hname) h

theorem imported (path : String) {qualifier : String} (hqualifier : qualifier ≠ "")
    {args : List TsType} (h : ∀ t ∈ args, t.Sound) : (imported path qualifier args).Sound :=
  of_parts hqualifier h

/-- a function of any parameters -/
theorem anyFunction {result : TsType} (h : result.Sound) :
    (function [] result (some ⟨"params", .any⟩)).Sound :=
  of_parts (.inr ⟨rfl, rfl⟩) (List.forall_mem_cons.2 ⟨h, List.forall_mem_singleton.2 any⟩)

theorem record {properties : List (Named TsType)} (h : ∀ p ∈ properties, p.type.Sound) :
    (object properties .empty none true []).Sound := by
  refine of_parts ⟨rfl, rfl, rfl, nofun⟩ fun part hpart => ?_
  obtain hpart | hpart := List.mem_append.1 hpart
  · obtain ⟨p, hp, rfl⟩ := List.mem_map.1 hpart
    exact h p hp
  · cases hpart

theorem map {key value : TsType} (htext : key.text = "string" ∨ key.text = "number")
    (hkey : key.Sound) (hvalue : value.Sound) :
    (object [] .empty (some (key, value)) true []).Sound := by
  refine of_parts ⟨rfl, rfl, rfl, fun k v hindex => ?_⟩ ?_
  · obtain ⟨rfl, rfl⟩ := Prod.mk.inj (Option.some.inj hindex)
    exact ⟨rfl, htext⟩
  · exact List.forall_mem_cons.2 ⟨hkey, List.forall_mem_singleton.2 hvalue⟩

end Sound

end DocTypes.TsType
