import DocTypes.Lowering.Graph

/-!
# What the lowering of a tree reports

A lenient lowering always ends with a type, and its diagnostics tell just what is lacking in the
nodes of the tree, each node after its children, whether or not the type of a child is used.  Which
names stand above a node makes no difference but in the wording of one warning.

* `Node.defects`          what a node lacks, from its own kind and name and from its children;
* `Node.postorder`        the nodes of a tree, each after its children;
* `Node.lacks`            the categories of what a node lacks;
* `Lowers`                a run that lowers a tree, whatever the paths of the keys in it are;
* `Lowers.exposes`        such a run tells what the nodes lack; its type does not depend on paths;
* `lowering_diagnostics`  so do the lowering of a tree and that of nodes made by hand.
-/

namespace DocTypes

open Text (upper)

/-! ## what a node lacks -/

namespace Node

/-- what a record lacks; `keyPath` is the path of a child of a given name -/
def recordDefects (keyPath : String → String) : List Node → List Defect
  | [] => []
  | [key] => [.keyWithoutValue (keyPath key.name)]
  | _ :: _ :: rest => recordDefects keyPath rest

def mapDefects : List Node → List Defect
  | [] => [.mapWithoutKey, .mapWithoutValue]
  | key :: rest =>
    (if Shape.isMapKey key then [] else [.mapKey key.name])
      ++ if rest.isEmpty then [.mapWithoutValue] else []

def genericDefects (name : String) (children : List Node) : List Defect :=
  match upper name with
  | "OBJECT" => mapDefects children
  | "ARRAY" => if children.isEmpty then [.emptyArray] else []
  | "CLASS" => if children.isEmpty then [.emptyClass] else []
  | _ => if children.isEmpty then [.emptyGeneric] else []

def defects (keyPath : String → String) (node : Node) : List Defect :=
  match node.kind with
  | .union => if node.children.isEmpty then [.emptyUnion] else []
  | .record => recordDefects keyPath node.children
  | .generic => genericDefects node.name node.children
  | .tuple => [.unsupported node.kind node.name]
  | .plain | .function | .reference _ => []

/-- the categories of what a node lacks -/
def lacks : Node → List Anomaly
  | mk .union _ children => if children = [] then [.unresolvedMember] else []
  | mk .record _ children => if children.length % 2 = 1 then [.unresolvedMember] else []
  | mk .tuple _ _ => [.unresolvedMember]
  | mk .generic name children =>
    if upper name = "OBJECT" then
      match children with
      | [] => [.unresolvedMember, .unresolvedMember]
      | key :: rest =>
        (if key.kind = .plain ∧ (key.name = "string" ∨ key.name = "number") then []
          else [.invalidMapKey]) ++ if rest = [] then [.unresolvedMember] else []
    else if children = [] then [.unresolvedMember] else []
  | mk .plain _ _ | mk .function _ _ | mk (.reference _) _ _ => []

mutual
/-- the nodes of a tree, each after its children -/
def postorder : Node → List Node
  | mk kind name children => postorderAll children ++ [mk kind name children]
def postorderAll : List Node → List Node
  | [] => []
  | node :: nodes => postorder node ++ postorderAll nodes
end

theorem map_anomaly_recordDefects (keyPath : String → String) (children : List Node) :
    (recordDefects keyPath children).map Defect.anomaly
      = if children.length % 2 = 1 then [.unresolvedMember] else [] := by
  fun_induction recordDefects keyPath children with
  | case1 => rfl
  | case2 key => rfl
  | case3 key value rest ih =>
    have hlength : (key :: value :: rest).length % 2 = rest.length % 2 := by
      simp only [List.length_cons]
      omega
    rw [ih, hlength]

theorem map_anomaly_mapDefects (children : List Node) :
    (mapDefects children).map Defect.anomaly = match children with
      | [] => [.unresolvedMember, .unresolvedMember]
      | key :: rest =>
        (if key.kind = .plain ∧ (key.name = "string" ∨ key.name = "number") then []
          else [.invalidMapKey]) ++ if rest = [] then [.unresolvedMember] else [] := by
  cases children with
  | nil => rfl
  | cons key rest =>
    have hkey : Shape.isMapKey key = true
        ↔ key.kind = .plain ∧ (key.name = "string" ∨ key.name = "number") := by
      simp [Shape.isMapKey]
    simp only [mapDefects, hkey, List.isEmpty_iff, List.map_append]
    split <;> split <;> rfl

theorem map_anomaly_genericDefects (name : String) (children : List Node) :
    (genericDefects name children).map Defect.anomaly = lacks (mk .generic name children) := by
  have hnone : ∀ d : Defect, d.anomaly = .unresolvedMember →
      (if children.isEmpty then [d] else []).map Defect.anomaly
        = if children = [] then [.unresolvedMember] else [] := by
    intro d hd
    cases children with
    | nil => exact congrArg (fun a => [a]) hd
    | cons => rfl
  unfold genericDefects lacks
  split
  · rename_i hobject
    simp only [hobject, if_true]
    exact map_anomaly_mapDefects children
  · rename_i harray
    simp only [harray, String.reduceEq, if_false]
    exact hnone .emptyArray rfl
  · rename_i hclass
    simp only [hclass, String.reduceEq, if_false]
    exact hnone .emptyClass rfl
  · rename_i hobject _ _
    simp only [if_neg hobject]
    exact hnone .emptyGeneric rfl

theorem map_anomaly_defects (keyPath : String → String) (node : Node) :
    (node.defects keyPath).map Defect.anomaly = node.lacks := by
  obtain ⟨kind, name, children⟩ := node
  cases kind with
  | record => exact map_anomaly_recordDefects keyPath children
  | generic => exact map_anomaly_genericDefects name children
  | union => cases children <;> rfl
  | tuple => rfl
  | plain => rfl
  | function => rfl
  | reference qualifier => rfl

end Node

/-- what the nodes of a list lack, one after the other, with any paths of keys -/
inductive Lacking : List Node → List Defect → Prop where
  | nil : Lacking [] []
  | cons {node : Node} {nodes : List Node} {defects : List Defect} (keyPath : String → String)
      (h : Lacking nodes defects) : Lacking (node :: nodes) (node.defects keyPath ++ defects)

theorem Lacking.append {nodes nodes' : List Node} {defects defects' : List Defect}
    (h : Lacking nodes defects) (h' : Lacking nodes' defects') :
    Lacking (nodes ++ nodes') (defects ++ defects') := by
  induction h with
  | nil => exact h'
  | cons keyPath _ ih =>
    rw [List.append_assoc]
    exact .cons keyPath ih

theorem Lacking.map_anomaly {nodes : List Node} {defects : List Defect}
    (h : Lacking nodes defects) : defects.map Defect.anomaly = nodes.flatMap Node.lacks := by
  induction h with
  | nil => rfl
  | cons keyPath _ ih =>
    rw [List.map_append, Node.map_anomaly_defects, ih, List.flatMap_cons]

/-! ## runs that repair -/

def Defect.diagnostic (defect : Defect) : Diagnostic := ⟨defect.anomaly, defect.message⟩

/-- a run that ends with `a` and tells just of these defects -/
structure Run.Exposes {α : Type} (r : Run α) (a : α) (defects : List Defect) : Prop where
  outcome : r.outcome = .ok a
  diagnostics : r.diagnostics = defects.map Defect.diagnostic

section
variable {α β : Type}

theorem exposes_pure (a : α) : (pure a : Run α).Exposes a [] := ⟨rfl, rfl⟩

theorem Defect.repair_exposes (defect : Defect) (node : Node) (a : α) :
    (defect.repair false node a).Exposes a [defect] := ⟨rfl, rfl⟩

theorem Run.Exposes.bind {r : Run α} {a : α} {f : α → Run β} {b : β}
    {defects defects' : List Defect} (hr : r.Exposes a defects) (hf : (f a).Exposes b defects') :
    (r >>= f).Exposes b (defects ++ defects') := by
  rw [Run.bind_of_ok f hr.outcome]
  refine ⟨hf.outcome, ?_⟩
  show DocTypes.diagnostics (r.journal ++ (f a).journal) = _
  rw [diagnostics_append, List.map_append, ← hf.diagnostics, ← hr.diagnostics]
  rfl

theorem Run.Exposes.bind_pure {r : Run α} {a : α} {defects : List Defect}
    (hr : r.Exposes a defects) (g : α → β) :
    (r >>= fun x => Pure.pure (g x)).Exposes (g a) defects := by
  have h := hr.bind (f := fun x => Pure.pure (g x)) (exposes_pure (g a))
  rwa [List.append_nil] at h

end

/-! ## the shape of a node -/

theorem isEmpty_eq_of_length_eq {α β : Type} {as : List α} {bs : List β}
    (h : as.length = bs.length) : bs.isEmpty = as.isEmpty := by
  rw [Bool.eq_iff_iff, List.isEmpty_iff_length_eq_zero, List.isEmpty_iff_length_eq_zero, h]

namespace Shape

theorem firstOrAny_exposes (node : Node) (defect : Defect) (types : List TsType) :
    (firstOrAny false node defect types).Exposes (types.headD .any)
      (if types.isEmpty then [defect] else []) := by
  cases types with
  | nil => exact defect.repair_exposes node _
  | cons type types => exact exposes_pure type

theorem someOrAny_exposes (node : Node) (defect : Defect) (types : List TsType) :
    ∃ args, (someOrAny false node defect types).Exposes args
      (if types.isEmpty then [defect] else []) := by
  cases types with
  | nil => exact ⟨[.any], defect.repair_exposes node _⟩
  | cons type types => exact ⟨type :: types, exposes_pure _⟩

theorem properties_exposes (record : Node) (children : List Node) (types : List TsType) :
    ∃ properties, ∀ keyPath, (Shape.properties false keyPath record children types).Exposes
      properties (Node.recordDefects keyPath children) := by
  fun_induction Node.recordDefects id children generalizing types with
  | case1 => exact ⟨[], fun _ => exposes_pure []⟩
  | case2 key =>
    exact ⟨[⟨key.name, .any⟩], fun keyPath => Defect.repair_exposes _ record _⟩
  | case3 key value rest ih =>
    obtain ⟨more, hmore⟩ := ih (types.drop 2)
    exact ⟨⟨key.name, types[1]?.getD .any⟩ :: more, fun keyPath => (hmore keyPath).bind_pure _⟩

theorem mapKey_exposes (node : Node) {types : List TsType}
    (hlength : types.length = node.children.length) :
    ∃ key, (mapKey false node types).Exposes key (match node.children with
      | [] => [.mapWithoutKey]
      | key :: _ => if isMapKey key then [] else [.mapKey key.name]) := by
  obtain ⟨kind, name, children⟩ := node
  cases children with
  | nil => exact ⟨_, Defect.repair_exposes _ _ _⟩
  | cons key rest =>
    cases types with
    | nil => cases hlength
    | cons type types =>
      unfold mapKey
      dsimp only [Node.children_mk]
      split
      · exact ⟨type, exposes_pure type⟩
      · exact ⟨_, Defect.repair_exposes _ _ _⟩

theorem map_exposes (node : Node) {types : List TsType}
    (hlength : types.length = node.children.length) :
    ∃ type, (Shape.map false node types).Exposes type (Node.mapDefects node.children) := by
  obtain ⟨key, hkey⟩ := mapKey_exposes node hlength
  have hvalue := firstOrAny_exposes node .mapWithoutValue (types.drop 1)
  refine ⟨.object [] .empty (some (key, (types.drop 1).headD .any)) true [], ?_⟩
  have h : (Shape.map false node types).Exposes _ _ := hkey.bind (hvalue.bind_pure _)
  have hdrop : (types.drop 1).length = (node.children.drop 1).length := by
    rw [List.length_drop, List.length_drop, hlength]
  rw [← isEmpty_eq_of_length_eq hdrop] at h
  cases hchildren : node.children with
  | nil =>
    rw [hchildren] at h
    exact h
  | cons key rest =>
    rw [hchildren] at h
    exact h

theorem class_exposes (node : Node) : ∃ type, (match node.children with
      | [] => Defect.emptyClass.repair false node .any
      | target :: _ => pure (.query target.name) : Run TsType).Exposes type
    (if node.children.isEmpty then [.emptyClass] else []) := by
  cases node.children with
  | nil => exact ⟨_, Defect.repair_exposes _ node _⟩
  | cons target rest => exact ⟨_, exposes_pure _⟩

theorem generic_exposes (node : Node) {types : List TsType}
    (hlength : types.length = node.children.length) :
    ∃ type, (Shape.generic false node types).Exposes type
      (Node.genericDefects node.name node.children) := by
  unfold Shape.generic
  split
  · rename_i hname
    have hdefects : Node.genericDefects node.name node.children
        = Node.mapDefects node.children := by
      rw [Node.genericDefects, hname]
      rfl
    rw [hdefects]
    exact map_exposes node hlength
  · rename_i hname
    have hdefects : Node.genericDefects node.name node.children
        = if types.isEmpty then [.emptyArray] else [] := by
      rw [Node.genericDefects, hname, isEmpty_eq_of_length_eq hlength]
      rfl
    rw [hdefects]
    exact ⟨_, (firstOrAny_exposes node .emptyArray types).bind_pure _⟩
  · rename_i hname
    have hdefects : Node.genericDefects node.name node.children
        = if node.children.isEmpty then [.emptyClass] else [] := by
      rw [Node.genericDefects, hname]
      rfl
    rw [hdefects]
    exact class_exposes node
  · rename_i hobject harray hclass
    obtain ⟨args, hargs⟩ := someOrAny_exposes node .emptyGeneric types
    have hdefects : Node.genericDefects node.name node.children
        = if types.isEmpty then [.emptyGeneric] else [] := by
      rw [← isEmpty_eq_of_length_eq hlength]
      unfold Node.genericDefects
      split
      · exact absurd ‹_› hobject
      · exact absurd ‹_› harray
      · exact absurd ‹_› hclass
      · rfl
    rw [hdefects]
    exact ⟨_, hargs.bind_pure _⟩

end Shape

namespace Node

/-- what a node lacks is told while its type is made, and the type does not depend on paths -/
theorem shape_exposes (node : Node) {types : List TsType}
    (hlength : types.length = node.children.length) :
    ∃ type, ∀ keyPath, (node.shape false keyPath types).Exposes type (node.defects keyPath) := by
  obtain ⟨kind, name, children⟩ := node
  cases kind with
  | plain => exact ⟨_, fun _ => exposes_pure _⟩
  | union =>
    obtain ⟨members, hmembers⟩ :=
      Shape.someOrAny_exposes (mk .union name children) .emptyUnion types
    rw [← isEmpty_eq_of_length_eq hlength] at hmembers
    exact ⟨.union members, fun _ => hmembers.bind_pure _⟩
  | function => exact ⟨_, fun _ => exposes_pure _⟩
  | record =>
    obtain ⟨properties, hproperties⟩ :=
      Shape.properties_exposes (mk .record name children) children types
    exact ⟨_, fun keyPath => (hproperties keyPath).bind_pure _⟩
  | generic =>
    obtain ⟨type, htype⟩ := Shape.generic_exposes (mk .generic name children) hlength
    exact ⟨type, fun _ => htype⟩
  | reference qualifier => exact ⟨_, fun _ => exposes_pure _⟩
  | tuple => exact ⟨_, fun _ => Defect.repair_exposes _ _ _⟩

end Node

/-! ## trees -/

mutual
/-- a run that lowers a tree, where the path of a key can be any at each node -/
inductive Lowers : Node → Run TsType → Prop where
  | mk {kind : Kind} {name : String} {children : List Node} {runs : Run (List TsType)}
      (keyPath : String → String) (h : LowersAll children runs) :
    Lowers (.mk kind name children)
      (runs >>= Node.shape false keyPath (.mk kind name children))
inductive LowersAll : List Node → Run (List TsType) → Prop where
  | nil : LowersAll [] (pure [])
  | cons {node : Node} {nodes : List Node} {run : Run TsType} {runs : Run (List TsType)}
      (h : Lowers node run) (hs : LowersAll nodes runs) :
    LowersAll (node :: nodes) (do
      let type ← run
      let types ← runs
      pure (type :: types))
end

theorem LowersAll.exposes {nodes : List Node}
    (h : ∀ node ∈ nodes, ∃ type, ∀ run, Lowers node run →
      ∃ defects, Lacking node.postorder defects ∧ run.Exposes type defects) :
    ∃ types : List TsType, types.length = nodes.length ∧ ∀ runs, LowersAll nodes runs →
      ∃ defects, Lacking (Node.postorderAll nodes) defects ∧ runs.Exposes types defects := by
  induction nodes with
  | nil =>
    refine ⟨[], rfl, fun runs hs => ?_⟩
    cases hs with
    | nil => exact ⟨[], .nil, exposes_pure []⟩
  | cons node nodes ih =>
    obtain ⟨hnode, hnodes⟩ := List.forall_mem_cons.1 h
    obtain ⟨type, htype⟩ := hnode
    obtain ⟨types, hlength, htypes⟩ := ih hnodes
    refine ⟨type :: types, congrArg Nat.succ hlength, fun runs hs => ?_⟩
    cases hs with
    | cons hrun hruns =>
      obtain ⟨defects, hlacking, hexposes⟩ := htype _ hrun
      obtain ⟨defects', hlacking', hexposes'⟩ := htypes _ hruns
      exact ⟨defects ++ defects', hlacking.append hlacking',
        hexposes.bind (hexposes'.bind_pure _)⟩

/-- a lenient lowering ends with a type that does not depend on paths, and tells just of the defects
of the nodes -/
theorem Lowers.exposes (node : Node) : ∃ type, ∀ run, Lowers node run →
    ∃ defects, Lacking node.postorder defects ∧ run.Exposes type defects := by
  induction node using Node.inductionOn with
  | mk kind name children ih =>
    obtain ⟨types, hlength, htypes⟩ := LowersAll.exposes ih
    obtain ⟨type, htype⟩ := (Node.mk kind name children).shape_exposes hlength
    refine ⟨type, fun run hrun => ?_⟩
    cases hrun with
    | mk keyPath hruns =>
      obtain ⟨defects, hlacking, hexposes⟩ := htypes _ hruns
      have hnode : Lacking [.mk kind name children]
          ((Node.mk kind name children).defects keyPath ++ []) := .cons keyPath .nil
      rw [List.append_nil] at hnode
      exact ⟨_, hlacking.append hnode, hexposes.bind (htype keyPath)⟩

mutual
theorem lowers_lowerFrom (trail : Trail) : (node : Node) → Lowers node (node.lowerFrom false trail)
  | .mk _ name children => by
    unfold Node.lowerFrom
    exact .mk _ (lowersAll_lowerAllFrom (trail.enter name) children)
theorem lowersAll_lowerAllFrom (trail : Trail) :
    (nodes : List Node) → LowersAll nodes (Node.lowerAllFrom false trail nodes)
  | [] => by
    unfold Node.lowerAllFrom
    exact .nil
  | node :: nodes => by
    unfold Node.lowerAllFrom
    exact .cons (lowers_lowerFrom trail node) (lowersAll_lowerAllFrom trail nodes)
end

/-! ## nodes made by hand -/

namespace Graph

theorem lowerAt_eq_none (g : Graph) (strict : Bool) {depth place : Nat}
    (h : g.treeAt depth place = none) : g.lowerAt strict depth place = none := by
  cases depth with
  | zero => rfl
  | succ depth =>
    rw [treeAt, Option.map_eq_none_iff] at h
    rw [lowerAt, h, Option.map_none]

theorem lowersAll_lowerAt {g : Graph} {depth : Nat}
    (h : ∀ place node, g.treeAt depth place = some node →
      ∃ run, g.lowerAt false depth place = some run ∧ Lowers node run) (places : List Nat) :
    LowersAll (places.filterMap (g.treeAt depth))
      ((places.filterMap (g.lowerAt false depth)).mapM id) := by
  induction places with
  | nil => exact .nil
  | cons place places ih =>
    cases htree : g.treeAt depth place with
    | none =>
      rw [List.filterMap_cons_none htree, List.filterMap_cons_none (g.lowerAt_eq_none false htree)]
      exact ih
    | some node =>
      obtain ⟨run, hrun, hlowers⟩ := h place node htree
      rw [List.filterMap_cons_some htree, List.filterMap_cons_some hrun, List.mapM_cons]
      exact .cons hlowers ih

/-- nodes made by hand are lowered like the tree that they hold, whatever their parents are -/
theorem lowers_lowerAt {g : Graph} {depth place : Nat} {node : Node}
    (h : g.treeAt depth place = some node) :
    ∃ run, g.lowerAt false depth place = some run ∧ Lowers node run := by
  induction depth generalizing place node with
  | zero => cases h
  | succ depth ih =>
    rw [treeAt, Option.map_eq_some_iff] at h
    obtain ⟨cell, hcell, rfl⟩ := h
    rw [lowerAt, hcell]
    exact ⟨_, rfl, .mk _ (lowersAll_lowerAt (fun _ _ => ih) cell.children)⟩

end Graph

/-! ## what is reported -/

/-- the run ends with the type, and its diagnostics are of the categories that the nodes lack -/
structure Run.Reports (run : Run TsType) (type : TsType) (nodes : List Node) : Prop where
  outcome : run.outcome = .ok type
  anomalies : run.diagnostics.map Diagnostic.anomaly = nodes.flatMap Node.lacks
  silent : run.diagnostics = [] ↔ ∀ node ∈ nodes, node.lacks = []

theorem Run.Exposes.reports {run : Run TsType} {type : TsType} {nodes : List Node}
    {defects : List Defect} (h : run.Exposes type defects) (hl : Lacking nodes defects) :
    run.Reports type nodes := by
  have hanomalies : run.diagnostics.map Diagnostic.anomaly = nodes.flatMap Node.lacks := by
    rw [h.diagnostics, List.map_map, ← hl.map_anomaly]
    rfl
  refine ⟨h.outcome, hanomalies, ?_⟩
  rw [← List.map_eq_nil_iff (f := Diagnostic.anomaly), hanomalies, List.flatMap_eq_nil_iff]

/-- The diagnostics of a lowering are the local defects of the nodes of the tree.  A record key without
a value is told with its path, so among nodes made by hand this is meant for those whose parents do not
lead in a circle: the others have no path, and a lowering that asks for it does not end (see
`Graph.namesAbove`). -/
theorem lowering_diagnostics (node : Node) : ∃ type,
    (∀ trail, (node.lowerFrom false trail).Reports type node.postorder) ∧
      ∀ (g : Graph) depth place, g.treeAt depth place = some node →
        ∃ run, g.lowerAt false depth place = some run ∧ run.Reports type node.postorder := by
  obtain ⟨type, htype⟩ := Lowers.exposes node
  refine ⟨type, fun trail => ?_, fun g depth place htree => ?_⟩
  · obtain ⟨defects, hlacking, hexposes⟩ := htype _ (lowers_lowerFrom trail node)
    exact hexposes.reports hlacking
  · obtain ⟨run, hrun, hlowers⟩ := Graph.lowers_lowerAt htree
    obtain ⟨defects, hlacking, hexposes⟩ := htype _ hlowers
    exact ⟨run, hrun, hexposes.reports hlacking⟩

/-- a record of one key, which is also a child of a union, and was put below that last -/
theorem lowering_diagnostics_of_shared_key :
    let g := ((((Graph.insert {} "record" .record "Object").insert "key" .plain "a").adopt "record"
      "key").insert "union" .union "Union").adopt "union" "key"
    g.treeAt 3 0 = some (.mk .record "Object" [.leaf "a"]) ∧ g.path "key" = "Union > a" ∧
      ∃ type run, g.lowerAt false 3 0 = some run ∧ run.outcome = .ok type ∧
        run.diagnostics.map Diagnostic.anomaly = [.unresolvedMember] := by
  intro g
  have htree : g.treeAt 3 0 = some (.mk .record "Object" [.leaf "a"]) := by decide
  obtain ⟨type, -, h⟩ := lowering_diagnostics (.mk .record "Object" [.leaf "a"])
  obtain ⟨run, hrun, hreports⟩ := h g 3 0 htree
  exact ⟨htree, by decide, type, run, hrun, hreports.outcome, hreports.anomalies.trans (by decide)⟩

end DocTypes
