import DocTypes.Node.Graph

/-!
# Trees that linked nodes hold

Nodes hold a tree if each of its nodes has the kind, the name and the children of the tree, and
knows the node it is below as its parent.  Children stand at later places than their parents, so
that the way up ends.

* `Graph.Holds`            the nodes from a place on hold a tree, below a given parent;
* `Graph.Holds.transport`  they hold it still if only nodes at earlier places change;
* `Graph.Holds.treeAt`     what they hold is the tree below the place;
* `Graph.Holds.pathsAt`    their paths are the names from the root of the tree down;
* `Graph.Makes`            new nodes that hold a tree below no node;
* `Graph.Plants`           new nodes that hold trees below a given node.
-/

namespace DocTypes.Graph

mutual
inductive Holds (g : Graph) : Option Nat → Nat → Node → Prop where
  | mk {parent : Option Nat} {place : Nat} {kind : Kind} {name : String} {places : List Nat}
      {children : List Node} (cell : g.cells[place]? = some ⟨kind, name, places, parent⟩)
      (later : ∀ child ∈ places, place < child) (below : HoldsAll g place places children) :
    Holds g parent place (.mk kind name children)
/-- several trees, whose roots are below one node -/
inductive HoldsAll (g : Graph) : Nat → List Nat → List Node → Prop where
  | nil {parent : Nat} : HoldsAll g parent [] []
  | cons {parent place : Nat} {node : Node} {places : List Nat} {nodes : List Node}
      (first : Holds g (some parent) place node) (more : HoldsAll g parent places nodes) :
    HoldsAll g parent (place :: places) (node :: nodes)
end

variable {g h : Graph}

theorem lt_length_of_cell {place : Nat} {cell : Cell} (hc : g.cells[place]? = some cell) :
    place < g.cells.length := (List.getElem?_eq_some_iff.1 hc).1

theorem Holds.lt_length {parent : Option Nat} {place : Nat} {node : Node}
    (hn : g.Holds parent place node) : place < g.cells.length := by
  cases hn with
  | mk cell => exact lt_length_of_cell cell

theorem HoldsAll.append {parent : Nat} {places places' : List Nat} {nodes nodes' : List Node}
    (hs : g.HoldsAll parent places nodes) (hs' : g.HoldsAll parent places' nodes') :
    g.HoldsAll parent (places ++ places') (nodes ++ nodes') :=
  match hs with
  | .nil => hs'
  | .cons first more => .cons first (more.append hs')

/-! ## trees that are left alone -/

mutual
theorem Holds.transport {start : Nat} {parent : Option Nat} {place : Nat} {node : Node}
    (hn : g.Holds parent place node)
    (same : ∀ i, start ≤ i → i < g.cells.length → h.cells[i]? = g.cells[i]?)
    (hstart : start ≤ place) : h.Holds parent place node := by
  cases hn with
  | mk cell later below =>
    refine .mk ((same place hstart (lt_length_of_cell cell)).trans cell) later ?_
    exact below.transport same fun child hc => Nat.le_trans hstart (Nat.le_of_lt (later child hc))
theorem HoldsAll.transport {start parent : Nat} {places : List Nat} {nodes : List Node}
    (hs : g.HoldsAll parent places nodes)
    (same : ∀ i, start ≤ i → i < g.cells.length → h.cells[i]? = g.cells[i]?)
    (hstart : ∀ place ∈ places, start ≤ place) : h.HoldsAll parent places nodes := by
  cases hs with
  | nil => exact .nil
  | cons first more =>
    obtain ⟨hfirst, hmore⟩ := List.forall_mem_cons.1 hstart
    exact .cons (first.transport same hfirst) (more.transport same hmore)
end

/-! ## the tree below a place -/

mutual
theorem Holds.treeAt {parent : Option Nat} {place : Nat} {node : Node}
    (hn : g.Holds parent place node) (depth : Nat) (hd : g.cells.length ≤ place + depth) :
    g.treeAt depth place = some node := by
  have hlt := hn.lt_length
  cases hn with
  | mk cell later below =>
    cases depth with
    | zero => omega
    | succ depth =>
      have hbelow := below.filterMap_treeAt depth fun child hc => by
        have := later child hc
        omega
      rw [Graph.treeAt, cell, Option.map_some, hbelow]
theorem HoldsAll.filterMap_treeAt {parent : Nat} {places : List Nat} {nodes : List Node}
    (hs : g.HoldsAll parent places nodes) (depth : Nat)
    (hd : ∀ place ∈ places, g.cells.length ≤ place + depth) :
    places.filterMap (g.treeAt depth) = nodes := by
  cases hs with
  | nil => rfl
  | cons first more =>
    obtain ⟨hfirst, hmore⟩ := List.forall_mem_cons.1 hd
    rw [List.filterMap_cons_some (first.treeAt depth hfirst),
      more.filterMap_treeAt depth hmore]
end

/-! ## paths -/

/-- the names from the top down to a parent, each at an earlier place than the next -/
inductive Leads (g : Graph) : Option Nat → List String → Prop where
  | top : Leads g none []
  | down {parent : Nat} {cell : Cell} {names : List String} (hc : g.cells[parent]? = some cell)
      (earlier : ∀ above ∈ cell.parent, above < parent) (up : Leads g cell.parent names) :
    Leads g (some parent) (names ++ [cell.name])

theorem Leads.namesAbove {parent : Option Nat} {names : List String} (hl : g.Leads parent names)
    (depth : Nat) (hd : ∀ place ∈ parent, place < depth) :
    g.namesAbove depth parent = names.reverse := by
  induction hl generalizing depth with
  | top => cases depth <;> rfl
  | @down parent cell names hc earlier up ih =>
    have hparent := hd parent rfl
    cases depth with
    | zero => omega
    | succ depth =>
      have hup := ih depth fun above ha => by
        have := earlier above ha
        omega
      rw [Graph.namesAbove, hc, List.reverse_append]
      exact congrArg (cell.name :: ·) hup

theorem pathAt_of_leads {place : Nat} {cell : Cell} {names : List String}
    (hc : g.cells[place]? = some cell) (earlier : ∀ above ∈ cell.parent, above < place)
    (hl : g.Leads cell.parent names) : g.pathAt place = pathText (names ++ [cell.name]) := by
  have hplace : ∀ p ∈ some place, p < g.cells.length := by
    rintro p ⟨⟩
    exact lt_length_of_cell hc
  rw [pathAt, (Leads.down hc earlier hl).namesAbove _ hplace, List.reverse_reverse]

mutual
theorem Holds.map_pathAt {parent : Option Nat} {place : Nat} {node : Node}
    (hn : g.Holds parent place node) {names : List String} (hl : g.Leads parent names)
    (hp : ∀ above ∈ parent, above < place) (depth : Nat) (hd : g.cells.length ≤ place + depth) :
    (g.placesBelow depth place).map g.pathAt = (node.pathsBelow names).map pathText := by
  have hlt := hn.lt_length
  cases hn with
  | @mk _ _ kind name places children cell later below =>
    cases depth with
    | zero => omega
    | succ depth =>
      have hbelow := below.map_pathAt (.down cell hp hl) later depth fun child hc => by
        have := later child hc
        omega
      have hplaces : g.childrenAt place = places := by rw [childrenAt, cell]; rfl
      rw [placesBelow, hplaces, List.map_cons, pathAt_of_leads cell hp hl, hbelow]
      rfl
theorem HoldsAll.map_pathAt {parent : Nat} {places : List Nat} {nodes : List Node}
    (hs : g.HoldsAll parent places nodes) {names : List String} (hl : g.Leads (some parent) names)
    (hp : ∀ place ∈ places, parent < place) (depth : Nat)
    (hd : ∀ place ∈ places, g.cells.length ≤ place + depth) :
    (places.flatMap (g.placesBelow depth)).map g.pathAt
      = (Node.pathsAllBelow names nodes).map pathText := by
  cases hs with
  | nil => rfl
  | cons first more =>
    obtain ⟨hpfirst, hpmore⟩ := List.forall_mem_cons.1 hp
    obtain ⟨hdfirst, hdmore⟩ := List.forall_mem_cons.1 hd
    have hfirst := first.map_pathAt hl (by rintro above ⟨⟩; exact hpfirst) depth hdfirst
    have hmore := more.map_pathAt hl hpmore depth hdmore
    rw [List.flatMap_cons, List.map_append, hfirst, hmore, Node.pathsAllBelow, List.map_append]
end

/-- a root is below no node, and the path of each node shows the names from the root down -/
theorem Holds.pathsAt {root : Nat} {node : Node} (hn : g.Holds none root node) :
    g.pathsAt root = node.paths :=
  hn.map_pathAt .top nofun _ (Nat.le_add_left _ _)

/-! ## new nodes, and nodes put below others -/

theorem length_fresh (g : Graph) (kind : Kind) (name : String) :
    (g.fresh kind name).1.cells.length = g.cells.length + 1 := List.length_append

theorem fresh_old (kind : Kind) (name : String) {i : Nat} (hi : i < g.cells.length) :
    (g.fresh kind name).1.cells[i]? = g.cells[i]? := List.getElem?_append_left hi

theorem fresh_new (g : Graph) (kind : Kind) (name : String) :
    (g.fresh kind name).1.cells[g.cells.length]? = some ⟨kind, name, [], none⟩ :=
  List.getElem?_concat_length

theorem length_adoptAt (g : Graph) (parent child : Nat) :
    (g.adoptAt parent child).cells.length = g.cells.length := by
  rw [adoptAt, List.length_modify, List.length_modify]

theorem adoptAt_other {parent child i : Nat} (hp : i ≠ parent) (hc : i ≠ child) :
    (g.adoptAt parent child).cells[i]? = g.cells[i]? := by
  simp [adoptAt, hp.symm, hc.symm]

theorem adoptAt_parent {parent child : Nat} (hne : parent ≠ child) :
    (g.adoptAt parent child).cells[parent]?
      = g.cells[parent]?.map fun cell => { cell with children := cell.children ++ [child] } := by
  simp [adoptAt, hne.symm]

theorem adoptAt_child {parent child : Nat} (hne : parent ≠ child) :
    (g.adoptAt parent child).cells[child]?
      = g.cells[child]?.map fun cell => { cell with parent := some parent } := by
  simp [adoptAt, hne]

theorem length_release (g : Graph) (place : Nat) :
    (g.release place).cells.length = g.cells.length := List.length_modify ..

theorem release_other {place i : Nat} (hi : i ≠ place) :
    (g.release place).cells[i]? = g.cells[i]? := by
  simp [release, hi.symm]

theorem release_place (g : Graph) (place : Nat) :
    (g.release place).cells[place]?
      = g.cells[place]?.map fun cell => { cell with parent := none } := by
  simp [release]

/-- a tree with another parent: only the root tells of it -/
theorem Holds.reparent {parent parent' : Option Nat} {place : Nat} {node : Node}
    (hn : g.Holds parent place node)
    (hplace : h.cells[place]? = g.cells[place]?.map fun cell => { cell with parent := parent' })
    (same : ∀ i, place < i → h.cells[i]? = g.cells[i]?) : h.Holds parent' place node := by
  cases hn with
  | mk cell later below =>
    rw [cell, Option.map_some] at hplace
    exact .mk hplace later (below.transport (fun i hi _ => same i hi) later)

/-! ## what is made of a graph -/

/-- a tree made besides the nodes of `g`, below none of them -/
structure Makes (g h : Graph) (place : Nat) (node : Node) : Prop where
  grows : g.cells.length ≤ h.cells.length
  frame : ∀ i, i < g.cells.length → h.cells[i]? = g.cells[i]?
  isNew : g.cells.length ≤ place
  holds : h.Holds none place node

/-- trees made and put below the node at `parent`, after the children it has -/
structure Plants (parent : Nat) (g h : Graph) (nodes : List Node) : Prop where
  grows : g.cells.length ≤ h.cells.length
  frame : ∀ i, i < g.cells.length → i ≠ parent → h.cells[i]? = g.cells[i]?
  roots : ∃ places, (h.cells[parent]? = g.cells[parent]?.map fun cell =>
      { cell with children := cell.children ++ places }) ∧
    (∀ place ∈ places, g.cells.length ≤ place) ∧ h.HoldsAll parent places nodes

theorem makes_fresh (g : Graph) (kind : Kind) (name : String) :
    g.Makes (g.fresh kind name).1 g.cells.length (.mk kind name []) where
  grows := by rw [length_fresh]; omega
  frame := fun _ hi => fresh_old kind name hi
  isNew := Nat.le_refl _
  holds := .mk (fresh_new g kind name) nofun .nil

theorem plants_nil (parent : Nat) (g : Graph) : Plants parent g g [] where
  grows := Nat.le_refl _
  frame := fun _ _ _ => rfl
  roots := ⟨[], by simp, nofun, .nil⟩

theorem Plants.trans {parent : Nat} {a b c : Graph} {nodes nodes' : List Node}
    (hab : Plants parent a b nodes) (hbc : Plants parent b c nodes')
    (hp : parent < a.cells.length) : Plants parent a c (nodes ++ nodes') := by
  obtain ⟨places, hplaces, hnew, hall⟩ := hab.roots
  obtain ⟨places', hplaces', hnew', hall'⟩ := hbc.roots
  refine ⟨Nat.le_trans hab.grows hbc.grows, fun i hi hne => ?_, places ++ places', ?_, ?_, ?_⟩
  · rw [hbc.frame i (Nat.lt_of_lt_of_le hi hab.grows) hne, hab.frame i hi hne]
  · rw [hplaces', hplaces, Option.map_map]
    simp only [Function.comp_def, List.append_assoc]
  · intro place hplace
    rcases List.mem_append.1 hplace with hmem | hmem
    · exact hnew place hmem
    · exact Nat.le_trans hab.grows (hnew' place hmem)
  · -- what was planted first is at places behind `parent` and is left alone
    have hkept := hall.transport (h := c)
      (fun i hi hlt => hbc.frame i hlt (by omega)) hnew
    exact hkept.append hall'

theorem Makes.adopt {parent place : Nat} {node : Node} (hm : g.Makes h place node)
    (hp : parent < g.cells.length) : Plants parent g (h.adoptAt parent place) [node] := by
  have hnew := hm.isNew
  have hne : parent ≠ place := by omega
  have hframe : ∀ i, i ≠ parent → i ≠ place → (h.adoptAt parent place).cells[i]? = h.cells[i]? :=
    fun i => adoptAt_other
  refine ⟨?_, fun i hi hi' => ?_, [place], ?_, ?_, .cons ?_ .nil⟩
  · rw [length_adoptAt]
    exact hm.grows
  · rw [hframe i hi' (by omega), hm.frame i hi]
  · rw [adoptAt_parent hne, hm.frame parent hp]
  · exact List.forall_mem_singleton.2 hnew
  · exact hm.holds.reparent (adoptAt_child hne) fun i hi => hframe i (by omega) (by omega)

theorem plants_sprout {parent : Nat} (hp : parent < g.cells.length) (kind : Kind) (name : String) :
    Plants parent g (g.sprout parent kind name).1 [.mk kind name []] :=
  (makes_fresh g kind name).adopt hp

/-- a new node below `parent` and what is then planted below the new node -/
theorem Plants.under {parent : Nat} {kind : Kind} {name : String} {nodes : List Node}
    (hp : parent < g.cells.length)
    (hs : Plants g.cells.length (g.sprout parent kind name).1 h nodes) :
    Plants parent g h [.mk kind name nodes] := by
  have hsprout := plants_sprout hp kind name
  have hlength : (g.sprout parent kind name).1.cells.length = g.cells.length + 1 := by
    rw [sprout, length_adoptAt, length_fresh]
  have hcell : (g.sprout parent kind name).1.cells[g.cells.length]?
      = some ⟨kind, name, [], some parent⟩ := by
    have hne : parent ≠ g.cells.length := by omega
    show ((g.fresh kind name).1.adoptAt parent g.cells.length).cells[g.cells.length]? = _
    rw [adoptAt_child hne, fresh_new, Option.map_some]
  obtain ⟨places, hplaces, hnew, hall⟩ := hs.roots
  rw [hcell, Option.map_some, List.nil_append] at hplaces
  have hgrows := hs.grows
  refine ⟨by omega, fun i hi hne => ?_, [g.cells.length], ?_, ?_, .cons (.mk hplaces ?_ hall) .nil⟩
  · rw [hs.frame i (by omega) (by omega), hsprout.frame i hi hne]
  · have hne : parent ≠ g.cells.length := Nat.ne_of_lt hp
    have hkept : h.cells[parent]? = (g.sprout parent kind name).1.cells[parent]? :=
      hs.frame parent (by omega) hne
    rw [hkept]
    show ((g.fresh kind name).1.adoptAt parent g.cells.length).cells[parent]? = _
    rw [adoptAt_parent hne, fresh_old kind name hp]
  · exact List.forall_mem_singleton.2 (Nat.le_refl _)
  · intro child hc
    have := hnew child hc
    omega

end DocTypes.Graph
