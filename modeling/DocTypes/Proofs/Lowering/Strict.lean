import DocTypes.Lowering
import DocTypes.Proofs.Growth.Strict
import DocTypes.Proofs.Run.Stopped

/-!
# Strict and lenient runs of the reading and of the lowering

The tree of an expression and the type of a tree are made by strict runs as by lenient ones that
are stopped at their first warning.

* `Node.ofText_mirrors`     the tree of an expression;
* `Node.lowerFrom_mirrors`  the type of a tree, whatever is above it;
* `ofText_rejection`        a strict reading is rejected with the whole expression.
-/

namespace DocTypes

open Run (Mirrors mirrors_pure mirrors_trace mirrors_warn)

/-! ## trees of expressions -/

theorem Growth.root_of_unhalted {g : Growth} (h : g.halt = none) :
    g.root = ⟨g.journal, .ok (g.nodes.headD .any)⟩ := by rw [root, h]

theorem Growth.root_of_halted {g : Growth} {r : Rejection} (h : g.halt = some r) :
    g.root = ⟨g.journal, .error (.rejected r)⟩ := by rw [root, h]

theorem Growth.Mirrors.root {scope : Scope} {g l : Growth} (h : Growth.Mirrors scope g l) :
    Run.Mirrors scope.config.strict g.root l.root := by
  obtain ⟨hhalt, -, hechoes⟩ := h
  rw [root_of_unhalted hhalt]
  refine ⟨nofun, ?_⟩
  cases hechoes with
  | same hquiet =>
    rw [root_of_unhalted hhalt]
    rcases hquiet with hlenient | hj
    · rw [hlenient]
      rfl
    · rw [Run.stopped_of_none (by rw [hj]; rfl), ite_self]
  | stopped w rest hstrict hl hg hr =>
    rw [root_of_halted hr, if_pos hstrict, hl, Run.stopped_of_some (w := w) rfl, hg]
    rfl

theorem Node.ofText_mirrors (config : Config) (text : String) :
    Mirrors config.strict (ofText config text) (ofText config.lenient text) := by
  by_cases hblank : tokenize text = []
  · rw [ofText_blank config hblank, ofText_blank config.lenient hblank]
    exact (mirrors_warn _).bind fun _ => mirrors_pure _
  · rw [ofText_tokens config hblank, ofText_tokens config.lenient hblank]
    exact (wholeGrowth_mirrors config text).root.bind fun root =>
      (mirrors_trace _).bind fun _ => mirrors_pure root

/-- the expression of a rejection is the whole one -/
theorem ofText_rejection {config : Config} {text : String} {r : Rejection}
    (h : (Node.ofText config text).outcome = .error (.rejected r)) : r.expression = text := by
  by_cases hblank : tokenize text = []
  · rw [Node.ofText_blank config hblank] at h
    unfold Run.warn at h
    cases hstrict : config.strict with
    | false =>
      rw [hstrict] at h
      cases h
    | true =>
      rw [hstrict] at h
      cases h
      rfl
  · rw [Node.ofText_tokens config hblank] at h
    cases hhalt : (wholeGrowth config text).halt with
    | none =>
      rw [Growth.root_of_unhalted hhalt] at h
      cases h
    | some x =>
      rw [Growth.root_of_halted hhalt] at h
      cases h
      exact (wholeGrowth_mirrors config text).expression_eq hhalt

/-! ## types of trees -/

section
variable {strict : Bool}

theorem Defect.repair_mirrors {α : Type} (defect : Defect) (node : Node) (a : α) :
    Mirrors strict (defect.repair strict node a) (defect.repair false node a) :=
  (mirrors_warn _).bind fun _ => mirrors_pure a

namespace Shape

theorem someOrAny_mirrors (node : Node) (defect : Defect) (types : List TsType) :
    Mirrors strict (someOrAny strict node defect types) (someOrAny false node defect types) := by
  cases types with
  | nil => exact defect.repair_mirrors node _
  | cons type types => exact mirrors_pure _

theorem firstOrAny_mirrors (node : Node) (defect : Defect) (types : List TsType) :
    Mirrors strict (firstOrAny strict node defect types) (firstOrAny false node defect types) := by
  cases types with
  | nil => exact defect.repair_mirrors node _
  | cons type types => exact mirrors_pure _

theorem properties_mirrors (keyPath : String → String) (record : Node) (children : List Node)
    (types : List TsType) :
    Mirrors strict (properties strict keyPath record children types)
      (properties false keyPath record children types) := by
  induction children, types using properties.induct with
  | case1 types => exact mirrors_pure _
  | case2 key types => exact Defect.repair_mirrors _ record _
  | case3 key value rest types ih => exact ih.bind fun more => mirrors_pure _

theorem mapKey_mirrors (node : Node) (types : List TsType) :
    Mirrors strict (mapKey strict node types) (mapKey false node types) := by
  unfold mapKey
  split
  · split
    · exact mirrors_pure _
    · exact Defect.repair_mirrors _ node _
  · exact Defect.repair_mirrors _ node _

theorem map_mirrors (node : Node) (types : List TsType) :
    Mirrors strict (map strict node types) (map false node types) :=
  (mapKey_mirrors node types).bind fun _ =>
    (firstOrAny_mirrors node _ _).bind fun _ => mirrors_pure _

theorem generic_mirrors (node : Node) (types : List TsType) :
    Mirrors strict (generic strict node types) (generic false node types) := by
  unfold generic
  split
  · exact map_mirrors node types
  · exact (firstOrAny_mirrors node _ types).bind fun _ => mirrors_pure _
  · split
    · exact Defect.repair_mirrors _ node _
    · exact mirrors_pure _
  · exact (someOrAny_mirrors node _ types).bind fun _ => mirrors_pure _

end Shape

namespace Node

theorem shape_mirrors (keyPath : String → String) (node : Node) (types : List TsType) :
    Mirrors strict (shape strict keyPath node types) (shape false keyPath node types) := by
  unfold shape
  split
  · exact mirrors_pure _
  · exact (Shape.someOrAny_mirrors node _ types).bind fun _ => mirrors_pure _
  · exact mirrors_pure _
  · exact (Shape.properties_mirrors _ node _ types).bind fun _ => mirrors_pure _
  · exact Shape.generic_mirrors node types
  · exact mirrors_pure _
  · exact Defect.repair_mirrors _ node _

theorem lowerAllFrom_mirrors {trail : Trail} {nodes : List Node}
    (h : ∀ node ∈ nodes,
      Mirrors strict (lowerFrom strict trail node) (lowerFrom false trail node)) :
    Mirrors strict (lowerAllFrom strict trail nodes) (lowerAllFrom false trail nodes) := by
  induction nodes with
  | nil =>
    unfold lowerAllFrom
    exact mirrors_pure []
  | cons node nodes ih =>
    unfold lowerAllFrom
    exact (h node List.mem_cons_self).bind fun type =>
      (ih fun child hc => h child (List.mem_cons_of_mem _ hc)).bind fun types => mirrors_pure _

theorem lowerFrom_mirrors (trail : Trail) (node : Node) :
    Mirrors strict (lowerFrom strict trail node) (lowerFrom false trail node) := by
  induction node using inductionOn generalizing trail with
  | mk kind name children ih =>
    unfold lowerFrom
    exact (lowerAllFrom_mirrors fun child hc => ih child hc _).bind fun types =>
      shape_mirrors (trail.enter name).path _ types

end Node

end

end DocTypes
