import DocTypes.Growth.Linked
import DocTypes.Proofs.Growth.Journal
import DocTypes.Proofs.Lowering.Strict
import DocTypes.Proofs.Node.Graph

/-!
# Linked nodes and the tree of an expression

An expression that is read into linked nodes comes to the same tree, with the same journal, and its
nodes know the nodes they are below.  In particular a node that was read below another one for a
while, and then taken out again, knows its last parent only.

* `Enacts`                 an action on linked nodes does what a growth tells;
* `Enacts.append`          one action after the other does this for one growth after the other, and
                           so do all other ways to put actions together;
* `spanInto_enacts`        reading a span into a node does what the span adds;
* `Graph.ofText_holds`     the linked nodes of an expression hold its tree.
-/

namespace DocTypes

open DocTypes.Graph (Plants Makes plants_nil plants_sprout)
open Growth (add warn degrade chain)

/-- a run that comes to what a growth tells, with its nodes put below `parent` -/
inductive Planted (parent : Nat) (g : Graph) (r : Run Graph) (a : Growth) : Prop where
  | halted {x : Rejection} (hx : a.halt = some x) (hr : r = ⟨a.journal, .error (.rejected x)⟩)
  | grown {h : Graph} (hx : a.halt = none) (hr : r = ⟨a.journal, .ok h⟩)
      (hp : Plants parent g h a.nodes)

/-- the same for a run that makes one node, below no other -/
inductive MadeOne (g : Graph) (r : Run (Graph × Nat)) (a : Growth) : Prop where
  | halted {x : Rejection} (hx : a.halt = some x) (hr : r = ⟨a.journal, .error (.rejected x)⟩)
  | made {h : Graph} {place : Nat} {node : Node} (hx : a.halt = none) (hn : a.nodes = [node])
      (hr : r = ⟨a.journal, .ok (h, place)⟩) (hm : g.Makes h place node)

/-- the action puts below `parent`, in any graph that has it, what the growth tells -/
def Enacts (parent : Nat) (act : Graph → Run Graph) (a : Growth) : Prop :=
  ∀ g : Graph, parent < g.cells.length → Planted parent g (act g) a

section
variable {parent : Nat} {scope : Scope} {act act' : Graph → Run Graph} {a b : Growth}

theorem enacts_empty (parent : Nat) : Enacts parent pure .empty := fun g _ =>
  .grown rfl rfl (plants_nil parent g)

theorem Enacts.append (ha : Enacts parent act a) (hb : Enacts parent act' b) :
    Enacts parent (fun g => act g >>= act') (a ++ b) := by
  intro g hp
  rcases ha g hp with ⟨hx, hr⟩ | @⟨g', hx, hr, hplants⟩
  · rw [Growth.append_of_halted hx]
    refine .halted hx ?_
    show act g >>= act' = _
    rw [hr]
    rfl
  · have hbind : act g >>= act' = ⟨a.journal ++ (act' g').journal, (act' g').outcome⟩ := by
      rw [hr]
      rfl
    rw [Growth.append_of_unhalted hx]
    rcases hb g' (Nat.lt_of_lt_of_le hp hplants.grows) with ⟨hx', hr'⟩ | ⟨hx', hr', hplants'⟩
    · rw [hr'] at hbind
      exact .halted hx' hbind
    · rw [hr'] at hbind
      exact .grown hx' hbind (hplants.trans hplants' hp)

theorem enacts_chain {ι : Type} {xs : List ι} {f : Graph → ι → Run Graph} {growth : ι → Growth}
    (h : ∀ x, Enacts parent (f · x) (growth x)) :
    Enacts parent (fun g => xs.foldlM f g) (chain (xs.map growth)) := by
  induction xs with
  | nil => exact enacts_empty parent
  | cons x xs ih => exact (h x).append ih

theorem enacts_leaf (parent : Nat) (name : String) :
    Enacts parent (fun g => pure (g.sprout parent .plain name).1) (add (.leaf name)) := fun _ hp =>
  .grown rfl rfl (plants_sprout hp .plain name)

/-- a new node, and what is then read into it -/
theorem Enacts.under {inner : Nat → Graph → Run Graph} (h : ∀ node, Enacts node (inner node) a)
    (parent : Nat) (kind : Kind) (name : String) :
    Enacts parent (fun g => inner (g.sprout parent kind name).2 (g.sprout parent kind name).1)
      (a.under kind name) := by
  intro g hp
  have hlength : g.cells.length < (g.sprout parent kind name).1.cells.length := by
    rw [Graph.sprout, Graph.length_adoptAt, Graph.length_fresh]
    exact Nat.lt_succ_self _
  rcases h g.cells.length (g.sprout parent kind name).1 hlength with ⟨hx, hr⟩ | ⟨hx, hr, hplants⟩
  · exact .halted hx hr
  · exact .grown hx hr (hplants.under hp)

theorem enacts_warn (parent : Nat) (flaw : Flaw) :
    Enacts parent (fun g => do scope.report flaw; pure g) (warn scope flaw) := by
  intro g _
  unfold Scope.report Run.warn warn
  split
  · exact .halted rfl rfl
  · exact .grown rfl rfl (plants_nil parent g)

theorem enacts_degrade (parent : Nat) (flaw : Flaw) :
    Enacts parent (scope.degradeInto parent flaw) (degrade scope flaw) := by
  have h : Enacts parent _ (degrade scope flaw) :=
    (enacts_warn parent flaw).append (enacts_leaf parent "any")
  simp only [bind_assoc, pure_bind] at h
  exact h

/-! ## one node for one type -/

/-- a warning, and a new `any` below no other node -/
theorem report_makes (scope : Scope) {g h : Graph} (flaw : Flaw)
    (grows : g.cells.length ≤ h.cells.length)
    (frame : ∀ i, i < g.cells.length → h.cells[i]? = g.cells[i]?) :
    MadeOne g (do scope.report flaw; pure (h.fresh .plain "any")) (degrade scope flaw) := by
  unfold Scope.report Run.warn degrade warn
  split
  · exact .halted rfl rfl
  · have hany := h.makes_fresh .plain "any"
    refine .made rfl rfl rfl ⟨Nat.le_trans grows hany.grows, fun i hi => ?_, grows, hany.holds⟩
    exact (hany.frame i (Nat.lt_of_lt_of_le hi grows)).trans (frame i hi)

/-- what was read into a new node comes to one node -/
theorem settle_makes {g h : Graph} (span : List Token) (hx : a.halt = none)
    (hp : Plants g.cells.length (g.fresh .union "Union").1 h a.nodes) :
    MadeOne g (⟨a.journal, .ok h⟩ >>= scope.settle span g.cells.length) (a.unit scope span) := by
  have hlength : (g.fresh .union "Union").1.cells.length = g.cells.length + 1 :=
    Graph.length_fresh ..
  have hgrows := hp.grows
  have hkept : ∀ i, i < g.cells.length → h.cells[i]? = g.cells[i]? := fun i hi => by
    rw [hp.frame i (by omega) (by omega), Graph.fresh_old _ _ hi]
  obtain ⟨places, hholder, hnew, hall⟩ := hp.roots
  rw [Graph.fresh_new, Option.map_some, List.nil_append] at hholder
  have hchildren : h.childrenAt g.cells.length = places := by
    rw [Graph.childrenAt, hholder]
    rfl
  rw [Growth.unit_of_unhalted hx, Run.bind_of_ok _ rfl, Scope.settle, hchildren]
  generalize hn : a.nodes = nodes at hall ⊢
  cases hall with
  | nil =>
    rw [Growth.append_of_unhalted hx]
    rcases report_makes scope (.typeless (Token.joined span)) (by omega) hkept with
      ⟨hx', hr⟩ | ⟨hx', hn', hr, hm⟩
    · exact .halted hx' (by rw [hr])
    · exact .made hx' (by rw [hn, hn', List.nil_append]) (by rw [hr]) hm
  | @cons _ place node _ _ first more =>
    have hplace := hnew place List.mem_cons_self
    cases more with
    | nil =>
      refine .made hx hn (by rw [Run.journal_pure, List.append_nil]; rfl)
        ⟨?_, fun i hi => ?_, by omega, ?_⟩
      · rw [Graph.length_release]
        omega
      · rw [Graph.release_other (by omega), hkept i hi]
      · exact first.reparent (Graph.release_place h place) fun i hi =>
          Graph.release_other (by omega)
    | cons second more =>
      refine .made hx rfl (by rw [Run.journal_pure, List.append_nil]; rfl)
        ⟨by omega, hkept, Nat.le_refl _, ?_⟩
      exact .mk hholder (fun child hc => by have := hnew child hc; omega)
        (.cons first (.cons second more))

section
variable {span : List Token} {inner : Planting} (h : ∀ node, Enacts node (inner node span) a)
include h

theorem plantUnit_makes (scope : Scope) (g : Graph) :
    MadeOne g (scope.plantUnit inner span g) (a.unit scope span) := by
  have hlength : (g.fresh .union "Union").1.cells.length = g.cells.length + 1 :=
    Graph.length_fresh ..
  have hrun : scope.plantUnit inner span g
      = inner g.cells.length span (g.fresh .union "Union").1
          >>= scope.settle span g.cells.length := rfl
  rw [hrun]
  rcases h g.cells.length (g.fresh .union "Union").1 (by omega) with ⟨hx, hr⟩ | ⟨hx, hr, hplants⟩
  · rw [hr, Growth.unit_of_halted hx]
    exact .halted rfl rfl
  · rw [hr]
    exact settle_makes span hx hplants

theorem unitInto_enacts (parent : Nat) :
    Enacts parent (scope.unitInto inner parent span) (a.unit scope span) := by
  intro g hp
  rcases plantUnit_makes h scope g with ⟨hx, hr⟩ | ⟨hx, hn, hr, hm⟩
  · refine .halted hx ?_
    rw [Scope.unitInto, hr]
    rfl
  · refine .grown hx ?_ (hn ▸ hm.adopt hp)
    rw [Scope.unitInto, hr, Run.bind_of_ok _ rfl, Run.journal_pure, List.append_nil]
    rfl

end

end

/-! ## pieces and spans -/

section
variable {scope : Scope} {inner : Planting} {inner' : List Token → Growth}
  (h : ∀ tokens node, Enacts node (inner node tokens) (inner' tokens))
include h

theorem fieldInto_enacts (record : Nat) (field : Field) :
    Enacts record (fun g => scope.fieldInto inner record g field) (scope.field inner' field) := by
  cases field with
  | nameless => exact enacts_warn record _
  | untyped key => exact (enacts_leaf record key).append (enacts_degrade record _)
  | typed key value =>
    exact (enacts_leaf record key).append (unitInto_enacts (h value) record)

theorem fieldsInto_enacts (record : Nat) (body : List Token) :
    Enacts record (scope.fieldsInto inner record body) (scope.fields inner' body) :=
  enacts_chain fun tokens => fieldInto_enacts h record (Field.ofTokens tokens)

theorem paramsInto_enacts (function : Nat) (params : List Token) :
    Enacts function (scope.paramsInto inner function params) (scope.params inner' params) :=
  enacts_chain fun tokens => unitInto_enacts (h (paramType tokens)) function

theorem resultInto_enacts (function : Nat) (result : Tail) :
    Enacts function (fun g => scope.resultInto inner function g result)
      (scope.result inner' result) := by
  cases result with
  | absent => exact enacts_leaf function "void"
  | unclosed first => exact enacts_degrade function _
  | span tokens => exact unitInto_enacts (h tokens) function

theorem argumentsInto_enacts (reference : Nat) (path : String) (args : Tail) :
    Enacts reference (fun g => scope.argumentsInto inner reference path g args)
      (scope.arguments inner' path args) := by
  cases args with
  | absent => exact enacts_empty reference
  | unclosed first => exact enacts_warn reference _
  | span tokens => exact h tokens reference

theorem Piece.plant_enacts (parent : Nat) (piece : Piece) :
    Enacts parent (fun g => piece.plant scope inner parent g) (piece.growth scope inner') := by
  cases piece with
  | plain name => exact enacts_leaf parent name
  | generic name args => exact Enacts.under (h args) parent .generic name
  | group body => exact Enacts.under (h body) parent .union "Union"
  | record body =>
    exact Enacts.under (fun node => fieldsInto_enacts h node body) parent .record "Object"
  | function name params result =>
    exact Enacts.under (fun node => (paramsInto_enacts h node params).append
      (resultInto_enacts h node result)) parent .function name
  | reference path qualifier args =>
    exact Enacts.under (fun node => argumentsInto_enacts h node path args) parent
      (.reference qualifier) path
  | pathless => exact enacts_degrade parent _
  | separator => exact enacts_empty parent
  | stray m => exact enacts_warn parent _
  | unclosed fragment b => exact enacts_degrade parent _

end

theorem spanInto_enacts (scope : Scope) (levels : Nat) (tokens : List Token) (node : Nat) :
    Enacts node (spanInto scope levels node tokens) (spanGrowth scope levels tokens) := by
  induction levels generalizing tokens node with
  | zero => exact enacts_degrade node _
  | succ levels ih => exact enacts_chain fun piece => Piece.plant_enacts ih node piece

/-! ## whole expressions -/

namespace Graph

theorem ofText_tokens {text : String} (config : Config) (h : tokenize text ≠ []) :
    ofText config text = (do
      let (g, root) ← Scope.plantUnit ⟨text, config⟩ (spanInto ⟨text, config⟩ (config.levels 0))
        (tokenize text) {}
      Run.trace ("built tree for '" ++ text ++ "':\n"
        ++ ((g.treeAt g.cells.length root).getD .any).dump)
      pure (g, root)) := by
  unfold ofText
  split
  · exact absurd ‹_› h
  · rfl

/-- the linked nodes of an expression hold its tree -/
theorem ofText_holds {config : Config} {text : String} {root : Node}
    (h : (Node.ofText config text).outcome = .ok root) :
    ∃ g place, ofText config text = ⟨(Node.ofText config text).journal, .ok (g, place)⟩ ∧
      g.Holds none place root := by
  by_cases hblank : tokenize text = []
  · rw [Node.ofText_blank config hblank] at h ⊢
    rw [ofText, hblank]
    unfold Run.warn at h ⊢
    cases hstrict : config.strict with
    | true =>
      rw [hstrict] at h
      cases h
    | false =>
      rw [hstrict] at h
      cases h
      exact ⟨_, _, rfl, (makes_fresh {} .plain "any").holds⟩
  · have hmade := plantUnit_makes
      (spanInto_enacts ⟨text, config⟩ (config.levels 0) (tokenize text)) ⟨text, config⟩ {}
    change MadeOne _ _ (wholeGrowth config text) at hmade
    rw [Node.ofText_tokens config hblank] at h ⊢
    rw [ofText_tokens config hblank]
    rcases hmade with ⟨hx, hr⟩ | @⟨g, place, node, hx, hn, hr, hm⟩
    · rw [Growth.root_of_halted hx] at h
      cases h
    · rw [Growth.root_of_unhalted hx, hn] at h ⊢
      cases h
      have htree := hm.holds.treeAt g.cells.length (Nat.le_add_left _ _)
      refine ⟨g, place, ?_, hm.holds⟩
      rw [hr, Run.bind_of_ok _ rfl, Run.bind_of_ok _ rfl]
      show (⟨_ ++ [Entry.trace ("built tree for '" ++ text ++ "':\n"
        ++ ((g.treeAt g.cells.length place).getD .any).dump)], _⟩ : Run (Graph × Nat)) = _
      rw [htree]
      rfl

end Graph

end DocTypes
