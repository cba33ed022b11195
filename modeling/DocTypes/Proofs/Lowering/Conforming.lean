import DocTypes.Proofs.Lowering.Exposed
import DocTypes.Proofs.TsType.Conforming
import Mathlib.Data.List.Forall2

/-!
# What trees are lowered to

Whatever the tree, its type and all types inside conform to their shapes.  The repairs see to it: a
union gets a member, a map gets keys that are texts or numbers, and names that stand for a shape of
their own are never names of references with arguments.

* `Run.Gives`             a run that ends with a result of some property;
* `Shape.function_sound`, `Shape.generic_gives`  the shapes of a node, made from sound types;
* `Node.Becomes`          a type that a node can be lowered to;
* `Lowers.becomes`        a lenient lowering of a node ends with such a type;
* `lowered_conforms`      all that occurs in the type of a tree conforms.
-/

namespace DocTypes

open Text (upper)

/-! ## runs that end with a result -/

/-- the run ends with a result that has the property -/
def Run.Gives {α : Type} (r : Run α) (P : α → Prop) : Prop := ∃ a, r.outcome = .ok a ∧ P a

section
variable {α β : Type} {P : α → Prop} {Q : β → Prop}

theorem gives_pure {a : α} (h : P a) : (pure a : Run α).Gives P := ⟨a, rfl, h⟩

theorem Run.Gives.bind {r : Run α} {f : α → Run β} (hr : r.Gives P) (hf : ∀ a, P a → (f a).Gives Q) :
    (r >>= f).Gives Q := by
  obtain ⟨a, houtcome, ha⟩ := hr
  rw [Run.bind_of_ok f houtcome]
  exact hf a ha

theorem Defect.repair_gives (defect : Defect) (node : Node) {a : α} (h : P a) :
    (defect.repair false node a).Gives P := ⟨a, rfl, h⟩

end

/-! ## the shape of a node -/

theorem TsType.Sound.positional {types : List TsType} {result : TsType} (hne : types ≠ [])
    (h : ∀ t ∈ types, t.Sound) (hresult : result.Sound) :
    (function (DocTypes.positional types) result none).Sound := by
  refine of_parts (.inl ⟨?_, rfl, fun i param hparam => ?_⟩) fun part hpart => ?_
  · rw [DocTypes.positional, Ne, List.mapIdx_eq_nil_iff]
    exact hne
  · rw [DocTypes.positional, List.getElem?_mapIdx] at hparam
    obtain ⟨type, -, rfl⟩ := Option.map_eq_some_iff.1 hparam
    exact ⟨rfl, rfl⟩
  · obtain hpart | hpart := List.mem_append.1 hpart
    · obtain ⟨p, hp, rfl⟩ := List.mem_map.1 hpart
      obtain ⟨i, hi, rfl⟩ := List.mem_mapIdx.1 hp
      exact h _ (List.getElem_mem hi)
    · rw [List.mem_singleton.1 hpart]
      exact hresult

namespace Shape

section
variable {types : List TsType} (htypes : ∀ t ∈ types, t.Sound)
include htypes

theorem someOrAny_gives (node : Node) (defect : Defect) :
    (someOrAny false node defect types).Gives fun args => args ≠ [] ∧ ∀ t ∈ args, t.Sound := by
  cases types with
  | nil =>
    exact defect.repair_gives node ⟨List.cons_ne_nil _ _, List.forall_mem_singleton.2 .any⟩
  | cons type types => exact gives_pure ⟨List.cons_ne_nil _ _, htypes⟩

theorem firstOrAny_gives (node : Node) (defect : Defect) :
    (firstOrAny false node defect types).Gives TsType.Sound := by
  cases types with
  | nil => exact defect.repair_gives node .any
  | cons type types => exact gives_pure (htypes type List.mem_cons_self)

theorem function_sound : (Shape.function types).Sound := by
  match types with
  | [] => exact .anyFunction (.keyword .void)
  | [result] => exact .anyFunction (htypes result List.mem_cons_self)
  | first :: second :: rest =>
    have hlast : (second :: rest).getLastD first ∈ first :: second :: rest := List.getLastD_mem_cons
    exact .positional (List.cons_ne_nil first _)
      (fun t ht => htypes t ((List.dropLast_sublist _).mem ht)) (htypes _ hlast)

theorem properties_gives (keyPath : String → String) (record : Node) (children : List Node) :
    (Shape.properties false keyPath record children types).Gives fun properties =>
      ∀ p ∈ properties, p.type.Sound := by
  fun_induction Shape.properties false keyPath record children types with
  | case1 => exact gives_pure nofun
  | case2 => exact Defect.repair_gives _ _ (List.forall_mem_singleton.2 TsType.Sound.any)
  | case3 key value rest types ih =>
    have hdrop : ∀ t ∈ types.drop 2, t.Sound := fun t ht => htypes t (List.mem_of_mem_drop ht)
    have hvalue : (types[1]?.getD TsType.any).Sound := by
      cases h : types[1]? with
      | none => exact TsType.Sound.any
      | some type => exact htypes type (List.mem_of_getElem? h)
    exact (ih hdrop).bind fun more hmore => gives_pure (List.forall_mem_cons.2 ⟨hvalue, hmore⟩)

end

end Shape

/-! ## types of nodes -/

/-- a type that the node can be lowered to -/
structure Node.Becomes (node : Node) (type : TsType) : Prop where
  sound : type.Sound
  plain : node.kind = .plain → type = .reference node.name []

theorem sound_of_becomes {nodes : List Node} {types : List TsType}
    (h : List.Forall₂ Node.Becomes nodes types) : ∀ t ∈ types, t.Sound := by
  induction h with
  | nil => nofun
  | cons hnode _ ih => exact List.forall_mem_cons.2 ⟨hnode.sound, ih⟩

namespace Shape

section
variable {node : Node} {types : List TsType} (h : List.Forall₂ Node.Becomes node.children types)
include h

theorem mapKey_gives : (mapKey false node types).Gives fun key =>
    key.Sound ∧ (key.text = "string" ∨ key.text = "number") := by
  have hdefault : (TsType.keyword .string).Sound ∧
      ((TsType.keyword .string).text = "string" ∨ (TsType.keyword .string).text = "number") :=
    ⟨.keyword .string, .inl rfl⟩
  unfold mapKey
  split
  · rename_i key rest type _ hchildren
    rw [hchildren] at h
    obtain ⟨hkey, -⟩ := List.forall₂_cons.1 h
    split
    · rename_i hmap
      obtain ⟨hplain, hname⟩ : key.kind = .plain ∧ (key.name = "string" ∨ key.name = "number") := by
        simpa [isMapKey] using hmap
      have htext : type.text = key.name := by
        rw [hkey.plain hplain]
        exact String.append_empty
      refine gives_pure ⟨hkey.sound, ?_⟩
      rwa [htext]
    · exact Defect.repair_gives _ _ hdefault
  · exact Defect.repair_gives _ _ hdefault

theorem map_gives : (Shape.map false node types).Gives TsType.Sound := by
  have hvalue : ∀ t ∈ types.drop 1, t.Sound := fun t ht =>
    sound_of_becomes h t (List.mem_of_mem_drop ht)
  refine (mapKey_gives h).bind fun key hkey => ?_
  refine (firstOrAny_gives hvalue _ _).bind fun value hvalue => ?_
  exact gives_pure (.map hkey.2 hkey.1 hvalue)

theorem generic_gives : (Shape.generic false node types).Gives TsType.Sound := by
  have htypes := sound_of_becomes h
  unfold Shape.generic
  split
  · exact map_gives h
  · exact (firstOrAny_gives htypes _ _).bind fun element helement => gives_pure (.array helement)
  · split
    · exact Defect.repair_gives _ _ .any
    · exact gives_pure (.query _)
  · rename_i hobject harray hclass
    refine (someOrAny_gives htypes _ _).bind fun args hargs => gives_pure (.reference ?_ ?_)
    · refine ⟨hobject, harray, hclass, fun hpromise => ?_⟩
      rw [if_pos hpromise, List.length_take]
      exact Nat.min_le_left _ _
    · intro t ht
      split at ht
      · exact hargs.2 t (List.mem_of_mem_take ht)
      · exact hargs.2 t ht

end

end Shape

namespace Node

theorem shape_gives (node : Node) (keyPath : String → String) {types : List TsType}
    (h : List.Forall₂ Becomes node.children types) :
    (node.shape false keyPath types).Gives node.Becomes := by
  have htypes := sound_of_becomes h
  obtain ⟨kind, name, children⟩ := node
  cases kind with
  | plain => exact gives_pure ⟨.plain name, fun _ => rfl⟩
  | union =>
    exact (Shape.someOrAny_gives htypes _ _).bind fun members hmembers =>
      gives_pure ⟨.union hmembers.1 hmembers.2, nofun⟩
  | function => exact gives_pure ⟨Shape.function_sound htypes, nofun⟩
  | record =>
    exact (Shape.properties_gives htypes keyPath _ children).bind fun properties hproperties =>
      gives_pure ⟨.record hproperties, nofun⟩
  | generic =>
    obtain ⟨type, htype, hsound⟩ := Shape.generic_gives h
    exact ⟨type, htype, hsound, nofun⟩
  | reference qualifier =>
    have hqualifier : (qualifier.filter (· ≠ "")).getD "default" ≠ "" := by
      cases h : qualifier.filter (· ≠ "") with
      | none => exact nofun
      | some q => exact of_decide_eq_true (Option.filter_eq_some_iff.1 h).2
    exact gives_pure ⟨.imported name hqualifier htypes, nofun⟩
  | tuple => exact Defect.repair_gives _ _ ⟨.any, nofun⟩

end Node

/-! ## trees -/

theorem LowersAll.becomes {nodes : List Node} {runs : Run (List TsType)} (hs : LowersAll nodes runs)
    (h : ∀ node ∈ nodes, ∀ run, Lowers node run → run.Gives node.Becomes) :
    runs.Gives (List.Forall₂ Node.Becomes nodes) := by
  induction nodes generalizing runs with
  | nil =>
    cases hs with
    | nil => exact gives_pure .nil
  | cons node nodes ih =>
    obtain ⟨hnode, hnodes⟩ := List.forall_mem_cons.1 h
    cases hs with
    | cons hrun hruns =>
      exact (hnode _ hrun).bind fun type htype =>
        (ih hruns hnodes).bind fun types htypes => gives_pure (.cons htype htypes)

/-- a lenient lowering of a node ends with a type in which everything conforms -/
theorem Lowers.becomes {node : Node} {run : Run TsType} (h : Lowers node run) :
    run.Gives node.Becomes := by
  induction node using Node.inductionOn generalizing run with
  | mk kind name children ih =>
    cases h with
    | mk keyPath hruns =>
      exact (hruns.becomes fun child hc _ => ih child hc).bind fun types htypes =>
        (Node.mk kind name children).shape_gives keyPath htypes

/-- A tree is lowered to one type, whether its nodes know the way up or were made by hand, and all
that occurs in the type conforms to its shape.  Nodes made by hand are meant to have parents that do not
lead in a circle, as a warning about a record key asks for its path (see `Graph.namesAbove`). -/
theorem lowered_conforms (node : Node) : ∃ type,
    (∀ trail, (node.lowerFrom false trail).outcome = .ok type) ∧
      (∀ (g : Graph) depth place, g.treeAt depth place = some node →
        ∃ run, g.lowerAt false depth place = some run ∧ run.outcome = .ok type) ∧
      ∀ t, TsType.Occurs t type → t.Conforms := by
  obtain ⟨type, htype⟩ := Lowers.exposes node
  have houtcome {run : Run TsType} (hrun : Lowers node run) : run.outcome = .ok type := by
    obtain ⟨_, -, hexposes⟩ := htype run hrun
    exact hexposes.outcome
  refine ⟨type, fun trail => houtcome (lowers_lowerFrom trail node), fun g depth place htree => ?_, ?_⟩
  · obtain ⟨run, hrun, hlowers⟩ := Graph.lowers_lowerAt htree
    exact ⟨run, hrun, houtcome hlowers⟩
  · have hlowers := lowers_lowerFrom .loose node
    obtain ⟨type', houtcome', hbecomes⟩ := hlowers.becomes
    obtain rfl := Except.ok.inj ((houtcome hlowers).symm.trans houtcome')
    exact hbecomes.sound

/-- a map without values, whose key is also a child of a union and was put below that last -/
theorem lowered_conforms_of_shared_key :
    let g := ((((Graph.insert {} "map" .generic "oBject").insert "key" .plain "string").adopt "map"
      "key").insert "union" .union "Union").adopt "union" "key"
    g.treeAt 3 0 = some (.mk .generic "oBject" [.leaf "string"]) ∧
      ∃ type run, g.lowerAt false 3 0 = some run ∧ run.outcome = .ok type ∧
        ∀ t, TsType.Occurs t type → t.Conforms := by
  intro g
  have htree : g.treeAt 3 0 = some (.mk .generic "oBject" [.leaf "string"]) := by decide
  obtain ⟨type, -, hgraph, hconforms⟩ := lowered_conforms (.mk .generic "oBject" [.leaf "string"])
  obtain ⟨run, hrun, houtcome⟩ := hgraph g 3 0 htree
  exact ⟨htree, type, run, hrun, houtcome, hconforms⟩

end DocTypes
