import DocTypes.Proofs.Growth.Linked
import DocTypes.Proofs.Growth.Trees
import DocTypes.Proofs.Piece.Name

/-!
# The shape of the trees that are read

Whatever is wrong with an expression, the tree that a lenient reading makes of it is well shaped:
what a repair leaves out or puts in never leaves a node with the wrong children.

* `Node.WellShaped`            what the name and the children of a node of each kind are like;
* `Piece.nodes_wellShaped`     a piece adds well-shaped nodes if the spans inside it do;
* `spanNodes_wellShaped`       so does a span, however many levels may be opened;
* `Lowers.never_misshapen`     a well-shaped tree is lowered without a word of a wrong shape;
* `ofText_wellShaped`          the tree of an expression, its paths and its lowering.
-/

namespace DocTypes

namespace Node

/-- key and value nodes by turns, where keys are only names -/
structure ByPairs (children : List Node) : Prop where
  even : children.length % 2 = 0
  keys : ∀ i key, children[i]? = some key → i % 2 = 0 → key.kind = .plain ∧ key.children = []

def WellShaped : Node → Prop
  | mk .plain _ children => children = []
  | mk .tuple _ _ => False
  | mk .record _ children => ByPairs children
  | mk .function _ children => children ≠ []
  | mk (.reference qualifier) name _ => name ≠ "" ∧ qualifier ≠ some ""
  | mk .generic _ _ | mk .union _ _ => True

/-- all nodes of a tree are well shaped -/
def AllShaped (node : Node) : Prop := ∀ n ∈ node.postorder, n.WellShaped

theorem supplied_wellShaped : Supplied WellShaped := ⟨rfl, rfl, fun _ => trivial⟩

theorem byPairs_nil : ByPairs [] := ⟨rfl, nofun⟩

theorem byPairs_field (key : String) (value : Node) : ByPairs [leaf key, value] := by
  refine ⟨by simp, fun i child hi heven => ?_⟩
  match i with
  | 0 =>
    obtain rfl := Option.some.inj hi
    exact ⟨rfl, rfl⟩
  | 1 => cases heven
  | i + 2 => cases hi

theorem ByPairs.append {a b : List Node} (ha : ByPairs a) (hb : ByPairs b) :
    ByPairs (a ++ b) := by
  have hlength := ha.even
  refine ⟨?_, fun i key hi heven => ?_⟩
  · have := hb.even
    rw [List.length_append]
    omega
  · by_cases hlt : i < a.length
    · rw [List.getElem?_append_left hlt] at hi
      exact ha.keys i key hi heven
    · rw [List.getElem?_append_right (Nat.le_of_not_lt hlt)] at hi
      exact hb.keys (i - a.length) key hi (by omega)

end Node

open Node (all_mk all_leaf supplied_wellShaped)

/-! ## modules have names -/

/-- a reference names its module, and a member only if the member has a name -/
def Piece.Named : Piece → Prop
  | reference path qualifier _ => path ≠ "" ∧ qualifier ≠ some ""
  | _ => True

theorem referencePiece_named (rest : List Token) : (referencePiece rest).Named := by
  rcases referencePiece_cases rest with ⟨-, h⟩ | ⟨name, qualifier, hname, hsplit, h⟩
  · rw [h]
    trivial
  · rw [h]
    refine ⟨hname, ?_⟩
    rintro rfl
    exact splitPath_qualifier_ne_nil _ (congrArg Prod.snd hsplit)

theorem Piece.Covers.named {piece : Piece} {tokens : List Token} (h : piece.Covers tokens) :
    piece.Named := by
  cases h with
  | reference _ rest => exact referencePiece_named rest
  | _ => trivial

/-! ## pieces and spans -/

section
variable {inner : List Token → List Node}
  (hinner : ∀ tokens, ∀ node ∈ inner tokens, node.AllShaped)
include hinner

theorem fieldsNodes_wellShaped (body : List Token) : Node.ByPairs (fieldsNodes inner body) ∧
    ∀ node ∈ fieldsNodes inner body, node.AllShaped := by
  have hfield : ∀ field : Field, Node.ByPairs (field.nodes inner) ∧
      ∀ node ∈ field.nodes inner, node.AllShaped := by
    intro field
    cases field with
    | nameless => exact ⟨Node.byPairs_nil, nofun⟩
    | untyped key =>
      exact ⟨Node.byPairs_field key .any, List.forall_mem_cons.2
        ⟨all_leaf rfl, List.forall_mem_singleton.2 (all_leaf rfl)⟩⟩
    | typed key value =>
      have hvalue := supplied_wellShaped.oneOf (hinner value)
      exact ⟨Node.byPairs_field key _, List.forall_mem_cons.2
        ⟨all_leaf rfl, List.forall_mem_singleton.2 hvalue⟩⟩
  unfold fieldsNodes
  induction splitCommas body with
  | nil => exact ⟨Node.byPairs_nil, nofun⟩
  | cons tokens more ih =>
    obtain ⟨hpairs, hall⟩ := hfield (.ofTokens tokens)
    rw [List.flatMap_cons]
    exact ⟨hpairs.append ih.1, List.forall_mem_append.2 ⟨hall, ih.2⟩⟩

theorem Piece.nodes_wellShaped {piece : Piece} (h : piece.Named) :
    ∀ node ∈ piece.nodes inner, node.AllShaped := by
  cases piece with
  | plain name => exact List.forall_mem_singleton.2 (all_leaf rfl)
  | generic name args => exact List.forall_mem_singleton.2 (all_mk trivial (hinner args))
  | group body => exact List.forall_mem_singleton.2 (all_mk trivial (hinner body))
  | record body =>
    obtain ⟨hpairs, hall⟩ := fieldsNodes_wellShaped hinner body
    exact List.forall_mem_singleton.2 (all_mk hpairs hall)
  | function name params result =>
    have hchildren : paramsNodes inner params ++ [result.resultNode inner] ≠ [] := by simp
    have hparams := supplied_wellShaped.params fun span (_ : span ∈ (splitCommas params).map _) =>
      hinner span
    have hresult := supplied_wellShaped.result fun span (_ : span ∈ result.spans) => hinner span
    exact List.forall_mem_singleton.2 (all_mk hchildren
      (List.forall_mem_append.2 ⟨hparams, List.forall_mem_singleton.2 hresult⟩))
  | reference path qualifier args =>
    have hargs := Tail.forall_argumentNodes fun span (_ : span ∈ args.spans) => hinner span
    exact List.forall_mem_singleton.2 (all_mk h hargs)
  | pathless => exact List.forall_mem_singleton.2 (all_leaf rfl)
  | separator => nofun
  | stray m => nofun
  | unclosed fragment b => exact List.forall_mem_singleton.2 (all_leaf rfl)

end

theorem spanNodes_wellShaped (levels : Nat) (tokens : List Token) :
    ∀ node ∈ spanNodes levels tokens, node.AllShaped := by
  induction levels generalizing tokens with
  | zero => exact List.forall_mem_singleton.2 (all_leaf rfl)
  | succ levels ih =>
    intro node hn
    obtain ⟨piece, hp, hn⟩ := List.mem_flatMap.1 hn
    obtain ⟨stretch, hcovers, -⟩ := exists_covers_of_mem hp
    exact piece.nodes_wellShaped ih hcovers.named node hn

/-! ## lowering a well-shaped tree -/

namespace Defect

/-- a record key without a value, or a node of a kind that no type has -/
def Misshapen : Defect → Prop
  | keyWithoutValue _ | unsupported _ _ => True
  | _ => False

/-- how a message about a wrong shape begins -/
def shapeOpenings : List String := ["Unable to resolve value type of '", "Unsupported type shape "]

theorem opening_of_misshapen {defect : Defect} (h : defect.Misshapen) :
    ∃ opening ∈ shapeOpenings, opening.toList <+: defect.message.toList := by
  unfold message
  cases defect with
  | keyWithoutValue path =>
    refine ⟨_, List.mem_cons_self, ?_⟩
    simp only [String.toList_append, List.append_assoc]
    exact List.prefix_append _ _
  | unsupported kind name =>
    refine ⟨_, List.mem_cons_of_mem _ List.mem_cons_self, ?_⟩
    simp only [String.toList_append, List.append_assoc]
    exact List.prefix_append _ _
  | _ => exact h.elim

/-- no other message begins so -/
theorem no_opening_of_not_misshapen {defect : Defect} (h : ¬defect.Misshapen) :
    ∀ opening ∈ shapeOpenings, ¬opening.toList <+: defect.message.toList := by
  cases defect with
  | mapKey name =>
    intro opening hopening hprefix
    -- both beginnings are long enough to tell them apart before the name
    have hstart : "Invalid object key type. It must be `string` or `number`, but got: ".toList
        <+: (mapKey name).message.toList := by
      unfold message
      simp only [String.toList_append, List.append_assoc]
      exact List.prefix_append _ _
    have hlength : ∀ opening ∈ shapeOpenings, opening.toList.length
        ≤ "Invalid object key type. It must be `string` or `number`, but got: ".toList.length := by
      decide +kernel
    have hapart : ∀ opening ∈ shapeOpenings, ¬opening.toList
        <+: "Invalid object key type. It must be `string` or `number`, but got: ".toList := by
      decide +kernel
    exact hapart opening hopening
      (List.prefix_of_prefix_length_le hprefix hstart (hlength opening hopening))
  | keyWithoutValue path => exact absurd trivial h
  | unsupported kind name => exact absurd trivial h
  | _ => decide +kernel

/-- the wordings differ -/
theorem message_ne_of_misshapen {a b : Defect} (ha : ¬a.Misshapen) (hb : b.Misshapen) :
    a.message ≠ b.message := by
  intro hmessage
  obtain ⟨opening, hopening, hprefix⟩ := opening_of_misshapen hb
  rw [← hmessage] at hprefix
  exact no_opening_of_not_misshapen ha opening hopening hprefix

end Defect

theorem not_misshapen_of_mem_ite {p : Prop} [Decidable p] {defect : Defect}
    (h : ¬defect.Misshapen) : ∀ d ∈ if p then [defect] else [], ¬d.Misshapen := by
  split
  · exact List.forall_mem_singleton.2 h
  · nofun

theorem mapDefects_not_misshapen (children : List Node) :
    ∀ defect ∈ Node.mapDefects children, ¬defect.Misshapen := by
  cases children with
  | nil => exact List.forall_mem_cons.2 ⟨nofun, List.forall_mem_singleton.2 nofun⟩
  | cons key rest =>
    refine List.forall_mem_append.2 ⟨?_, not_misshapen_of_mem_ite nofun⟩
    split
    · nofun
    · exact List.forall_mem_singleton.2 nofun

/-- only records that are no pairs and nodes of no type lack something of their shape -/
theorem not_misshapen_of_wellShaped {node : Node} (h : node.WellShaped)
    (keyPath : String → String) : ∀ defect ∈ node.defects keyPath, ¬defect.Misshapen := by
  obtain ⟨kind, name, children⟩ := node
  cases kind with
  | record =>
    have hnone := Node.map_anomaly_recordDefects keyPath children
    have heven : children.length % 2 = 0 := h.even
    rw [heven, if_neg nofun, List.map_eq_nil_iff] at hnone
    show ∀ defect ∈ Node.recordDefects keyPath children, ¬defect.Misshapen
    rw [hnone]
    nofun
  | tuple => exact h.elim
  | union => exact not_misshapen_of_mem_ite nofun
  | generic =>
    show ∀ defect ∈ Node.genericDefects name children, ¬defect.Misshapen
    unfold Node.genericDefects
    split
    · exact mapDefects_not_misshapen children
    · exact not_misshapen_of_mem_ite nofun
    · exact not_misshapen_of_mem_ite nofun
    · exact not_misshapen_of_mem_ite nofun
  | plain => nofun
  | function => nofun
  | reference qualifier => nofun

theorem Lacking.not_misshapen {nodes : List Node} {defects : List Defect}
    (h : Lacking nodes defects) (hshaped : ∀ node ∈ nodes, node.WellShaped) :
    ∀ defect ∈ defects, ¬defect.Misshapen := by
  induction h with
  | nil => nofun
  | cons keyPath _ ih =>
    obtain ⟨hnode, hnodes⟩ := List.forall_mem_cons.1 hshaped
    exact List.forall_mem_append.2 ⟨not_misshapen_of_wellShaped hnode keyPath, ih hnodes⟩

/-- no diagnostic of a lowering tells of a wrong shape -/
theorem Lowers.never_misshapen {node : Node} {run : Run TsType} (h : Lowers node run)
    (hshaped : node.AllShaped) :
    ∀ d ∈ run.diagnostics, ∀ defect : Defect, defect.Misshapen → d.message ≠ defect.message := by
  obtain ⟨type, htype⟩ := Lowers.exposes node
  obtain ⟨defects, hlacking, hexposes⟩ := htype run h
  intro d hd defect hdefect
  rw [hexposes.diagnostics] at hd
  obtain ⟨told, htold, rfl⟩ := List.mem_map.1 hd
  exact Defect.message_ne_of_misshapen (hlacking.not_misshapen hshaped told htold) hdefect

/-- nor is a strict lowering rejected for one -/
theorem lower_rejected_never_misshapen {node : Node} (hshaped : node.AllShaped) {x : Rejection}
    (h : (node.lower true).outcome = .error (.rejected x)) :
    ∀ defect : Defect, defect.Misshapen → x.message ≠ defect.message := by
  have hmirrors : Run.Mirrors true (node.lower true) (node.lower false) :=
    Node.lowerFrom_mirrors (.below []) node
  obtain ⟨hout, heq⟩ := hmirrors
  have hstopped : node.lower true = (node.lower false).stopped := heq
  rw [hstopped] at h
  obtain ⟨w, hw, rfl⟩ := (Run.stopped_rejected hout).1 h
  have hhead : (node.lower false).diagnostics.head? = some w.toDiagnostic :=
    (head?_diagnostics _).trans (congrArg (Option.map Warning.toDiagnostic) hw)
  have hmem : w.toDiagnostic ∈ (node.lower false).diagnostics := List.mem_of_head? hhead
  exact (lowers_lowerFrom (.below []) node).never_misshapen hshaped w.toDiagnostic hmem

/-! ## whole expressions -/

/-- what is known of the tree of an expression and of the linked nodes that hold it -/
structure Built (config : Config) (text : String) (root : Node) (g : Graph) (place : Nat) :
    Prop where
  tree : (Node.ofText config text).outcome = .ok root
  linked : (Graph.ofText config text).outcome = .ok (g, place)
  held : g.treeAt g.cells.length place = some root
  parentless : g.cells[place]?.map Cell.parent = some none
  /-- the path of each node is made of the names from the root down to it -/
  paths : g.pathsAt place = root.paths
  shaped : ∀ node ∈ root.postorder, node.WellShaped
  lowered : ∀ d ∈ (root.lower false).diagnostics, ∀ defect : Defect, defect.Misshapen →
    d.message ≠ defect.message
  rejected : ∀ x, (root.lower true).outcome = .error (.rejected x) →
    ∀ defect : Defect, defect.Misshapen → x.message ≠ defect.message

/-- the tree of an expression is well shaped, whatever the expression and the levels allowed -/
theorem ofText_wellShaped {config : Config} (hlenient : config.strict = false) (text : String) :
    ∃ root g place, Built config text root g place := by
  have htree := Node.ofText_lenient hlenient text
  have hshaped : Node.AllShaped (.oneOf (spanNodes (config.levels 0) (tokenize text))) :=
    supplied_wellShaped.oneOf (spanNodes_wellShaped (config.levels 0) (tokenize text))
  generalize Node.oneOf (spanNodes (config.levels 0) (tokenize text)) = root at htree hshaped
  obtain ⟨g, place, hgraph, hholds⟩ := Graph.ofText_holds htree
  exact ⟨root, g, place, {
    tree := htree
    linked := congrArg Run.outcome hgraph
    held := hholds.treeAt _ (Nat.le_add_left ..)
    parentless := by
      cases hholds with
      | mk cell => rw [cell]; rfl
    paths := hholds.pathsAt
    shaped := hshaped
    lowered := (lowers_lowerFrom (.below []) _).never_misshapen hshaped
    rejected := fun _ => lower_rejected_never_misshapen hshaped }⟩

/-- a key without a type, an empty type, a result that does not end, and brackets nested too deep -/
theorem ofText_wellShaped_of_flawed :
    let text := "{a, : b, c: }|function(module:d.~, (())): <e|module:~"
    (Node.ofText { maxDepth := 1 } text).diagnostics.map Diagnostic.anomaly = [.unresolvedMember,
        .unresolvedMember, .unresolvedMember, .depthExceeded, .unbalancedBracket, .unresolvedMember,
        .unknownTypeName] ∧
      ∃ root g place, Built { maxDepth := 1 } text root g place :=
  ⟨by decide +kernel, ofText_wellShaped rfl _⟩

end DocTypes
