import DocTypes.Proofs.Growth.Nodes
import DocTypes.Proofs.Piece.Spans

/-!
# How the levels that may be opened bear on a tree

The levels of brackets that a lenient reading may open bound the height of the tree.  As long as no
bracket is found to be nested too deep, it makes no difference how many more levels might have been
opened; and a bracket can only be too deep if there are more tokens than levels.

* `Node.Within`            a bound of the height of a tree;
* `spanNodes_within`       a level adds no more than two nodes to a way down;
* `Growth.Persists`        what a growth becomes under more levels, if it tells of none too deep;
* `spanGrowth_persists`    a span adds the same when more levels may be opened;
* `spanGrowth_shallow`     a span of fewer tokens than levels is not too deep;
* `ofText_limit`           all of this for an expression.
-/

namespace DocTypes

/-! ## the height of a tree -/

namespace Node

/-- no way down from the node passes more than so many nodes, the node itself included -/
def Within : Nat → Node → Prop
  | 0, _ => False
  | n + 1, node => ∀ child ∈ node.children, Within n child

variable {m n : Nat} {node : Node} {nodes : List Node}

theorem Within.mono (h : node.Within m) (hmn : m ≤ n) : node.Within n := by
  induction m generalizing n node with
  | zero => exact h.elim
  | succ m ih =>
    obtain ⟨n, rfl⟩ : ∃ k, n = k + 1 := ⟨n - 1, by omega⟩
    intro child hchild
    exact ih (h child hchild) (by omega)

theorem within_leaf (name : String) (n : Nat) : (leaf name).Within (n + 1) := nofun

theorem within_oneOf (h : ∀ node ∈ nodes, node.Within n) :
    (oneOf nodes).Within (n + 1) := by
  unfold oneOf
  split
  · exact within_leaf "any" n
  · exact (h _ (List.mem_singleton.2 rfl)).mono (Nat.le_succ n)
  · exact h

/-- the paths of a tree are no longer than its height -/
theorem Within.length_le (h : node.Within n) (above : List String) :
    ∀ names ∈ node.pathsBelow above, names.length ≤ above.length + n := by
  induction n generalizing node above with
  | zero => exact h.elim
  | succ n ih =>
    obtain ⟨kind, name, children⟩ := node
    intro names hnames
    rw [pathsBelow, pathsAllBelow_eq] at hnames
    rcases List.mem_cons.1 hnames with rfl | hnames
    · rw [List.length_append, List.length_singleton]
      omega
    · obtain ⟨child, hchild, hnames⟩ := List.mem_flatMap.1 hnames
      have hlength := ih (h child hchild) (above ++ [name]) names hnames
      rw [List.length_append, List.length_singleton] at hlength
      omega

end Node

section
variable {inner : List Token → List Node} {n : Nat}

theorem Field.nodes_within (hone : ∀ tokens, (Node.oneOf (inner tokens)).Within (n + 1))
    (field : Field) : ∀ node ∈ field.nodes inner, node.Within (n + 1) := by
  cases field with
  | nameless => nofun
  | untyped key =>
    exact List.forall_mem_cons.2
      ⟨Node.within_leaf key n, List.forall_mem_singleton.2 (Node.within_leaf "any" n)⟩
  | typed key value =>
    exact List.forall_mem_cons.2 ⟨Node.within_leaf key n, List.forall_mem_singleton.2 (hone value)⟩

theorem Tail.resultNode_within (hone : ∀ tokens, (Node.oneOf (inner tokens)).Within (n + 1))
    (result : Tail) : (result.resultNode inner).Within (n + 1) := by
  cases result with
  | absent => exact Node.within_leaf "void" n
  | unclosed first => exact Node.within_leaf "any" n
  | span tokens => exact hone tokens

theorem Tail.argumentNodes_within (hinner : ∀ tokens, ∀ node ∈ inner tokens, node.Within (n + 1))
    (args : Tail) : ∀ node ∈ args.argumentNodes inner, node.Within (n + 1) := by
  cases args with
  | absent => nofun
  | unclosed first => nofun
  | span tokens => exact hinner tokens

theorem Piece.nodes_within (hinner : ∀ tokens, ∀ node ∈ inner tokens, node.Within (n + 1))
    (hone : ∀ tokens, (Node.oneOf (inner tokens)).Within (n + 1)) (piece : Piece) :
    ∀ node ∈ piece.nodes inner, node.Within (n + 2) := by
  cases piece with
  | plain name => exact List.forall_mem_singleton.2 (Node.within_leaf name (n + 1))
  | generic name args => exact List.forall_mem_singleton.2 (hinner args)
  | group body => exact List.forall_mem_singleton.2 (hinner body)
  | record body =>
    refine List.forall_mem_singleton.2 fun node hnode => ?_
    obtain ⟨tokens, -, hnode⟩ := List.mem_flatMap.1 hnode
    exact (Field.ofTokens tokens).nodes_within hone node hnode
  | function name params result =>
    refine List.forall_mem_singleton.2 (List.forall_mem_append.2 ⟨fun node hnode => ?_, ?_⟩)
    · obtain ⟨tokens, -, hnode⟩ := List.mem_flatMap.1 hnode
      obtain rfl := List.mem_singleton.1 hnode
      exact hone (paramType tokens)
    · exact List.forall_mem_singleton.2 (result.resultNode_within hone)
  | reference path qualifier args =>
    exact List.forall_mem_singleton.2 (args.argumentNodes_within hinner)
  | pathless => exact List.forall_mem_singleton.2 (Node.within_leaf "any" (n + 1))
  | separator => nofun
  | stray m => nofun
  | unclosed fragment b => exact List.forall_mem_singleton.2 (Node.within_leaf "any" (n + 1))

end

/-- of the two nodes that a level may add, one is that of a piece and one that of a bare union -/
theorem spanNodes_within (levels : Nat) :
    (∀ tokens, ∀ node ∈ spanNodes levels tokens, node.Within (2 * levels + 1)) ∧
      ∀ tokens, (Node.oneOf (spanNodes levels tokens)).Within (2 * levels + 1) := by
  induction levels with
  | zero =>
    have hany : Node.any.Within 1 := Node.within_leaf "any" 0
    exact ⟨fun _ => List.forall_mem_singleton.2 hany, fun _ => hany⟩
  | succ levels ih =>
    have hspan : ∀ tokens, ∀ node ∈ spanNodes (levels + 1) tokens,
        node.Within (2 * levels + 2) := by
      intro tokens node hnode
      obtain ⟨piece, -, hnode⟩ := List.mem_flatMap.1 hnode
      exact piece.nodes_within ih.1 ih.2 node hnode
    constructor
    · intro tokens node hnode
      exact (hspan tokens node hnode).mono (by omega)
    · intro tokens
      exact Node.within_oneOf (hspan tokens)

/-! ## more levels -/

/-- no warning of brackets nested too deep -/
def Entry.Shallow (e : Entry) : Prop := ∀ d ∈ e.diagnostic?, d.anomaly ≠ .depthExceeded

/-- the same expression under settings that allow another number of levels -/
def Scope.withLimit (scope : Scope) (limit : Int) : Scope :=
  ⟨scope.source, { scope.config with maxDepth := limit }⟩

namespace Growth

/-- the second growth is the first, unless the first tells of brackets nested too deep -/
def Persists (g g' : Growth) : Prop := g.Every Entry.Shallow → g' = g

section
variable {scope : Scope} {a a' b b' g g' : Growth}

theorem persists_self (g : Growth) : Persists g g := fun _ => rfl

theorem Persists.append (ha : Persists a a') (hb : Persists b b') :
    Persists (a ++ b) (a' ++ b') := by
  intro h
  cases hhalt : a.halt with
  | some r =>
    rw [append_of_halted hhalt] at h ⊢
    rw [ha h, append_of_halted hhalt]
  | none =>
    rw [append_of_unhalted hhalt] at h
    obtain ⟨hshallow, hshallow'⟩ := List.forall_mem_append.1 h
    rw [ha hshallow, hb hshallow']

theorem Persists.under (h : Persists g g') (kind : Kind) (name : String) :
    Persists (g.under kind name) (g'.under kind name) := by
  intro hshallow
  rw [h hshallow]

theorem Every.of_unit {P : Entry → Prop} {span : List Token} (h : (g.unit scope span).Every P) :
    g.Every P := by
  cases hhalt : g.halt with
  | some r =>
    rw [unit_of_halted hhalt] at h
    exact h
  | none =>
    rw [unit_of_unhalted hhalt] at h
    split at h
    · rw [append_of_unhalted hhalt] at h
      exact (List.forall_mem_append.1 h).1
    · exact h
    · exact h

theorem Persists.unit (h : Persists g g') (limit : Int) (span : List Token) :
    Persists (g.unit scope span) (g'.unit (scope.withLimit limit) span) := by
  intro hshallow
  rw [h hshallow.of_unit]
  rfl

end

end Growth

open Growth (Kept Persists persists_self)

theorem kept_persists (scope : Scope) (limit : Int) :
    Kept scope (scope.withLimit limit) Persists where
  empty := persists_self _
  add _ := persists_self _
  warn _ := persists_self _
  append := Persists.append
  under := Persists.under
  unit hg := hg.unit limit

theorem spanGrowth_persists {scope : Scope} (hlenient : scope.config.strict = false) (limit : Int)
    {levels levels' : Nat} (h : levels ≤ levels') (tokens : List Token) :
    Persists (spanGrowth scope levels tokens)
      (spanGrowth (scope.withLimit limit) levels' tokens) := by
  have hkept := kept_persists scope limit
  induction levels generalizing levels' tokens with
  | zero =>
    -- the span itself is nested too deep, and its warning is in the journal
    intro hshallow
    rw [spanGrowth, Growth.degrade, Growth.warn, hlenient] at hshallow
    exact absurd rfl (hshallow _ List.mem_cons_self _ rfl)
  | succ levels ih =>
    obtain ⟨levels', rfl⟩ : ∃ k, levels' = k + 1 := ⟨levels' - 1, by omega⟩
    exact hkept.chain fun piece _ =>
      hkept.piece (fun tokens => ih (Nat.le_of_succ_le_succ h) tokens) piece

/-! ## levels enough -/

theorem shallow_warning {flaw : Flaw} (source : String) (h : flaw.anomaly ≠ .depthExceeded) :
    (Entry.warning (flaw.warning source)).Shallow := by
  intro d hd
  obtain rfl := Option.some.inj hd
  exact h

open Growth (every_empty every_add every_chain every_warn every_degrade)

section
variable {scope : Scope} {inner : List Token → Growth}

theorem unit_shallow {tokens : List Token} (h : (inner tokens).Every Entry.Shallow) :
    (scope.unit inner tokens).Every Entry.Shallow := h.unit (shallow_warning _ nofun)

theorem field_shallow {field : Field}
    (h : ∀ span ∈ field.spans, (inner span).Every Entry.Shallow) :
    (scope.field inner field).Every Entry.Shallow := by
  cases field with
  | nameless => exact every_warn (shallow_warning _ nofun)
  | untyped key => exact (every_add _).append (every_degrade (shallow_warning _ nofun))
  | typed key value =>
    exact (every_add _).append (unit_shallow (h value (List.mem_singleton.2 rfl)))

theorem result_shallow {result : Tail}
    (h : ∀ span ∈ result.spans, (inner span).Every Entry.Shallow) :
    (scope.result inner result).Every Entry.Shallow := by
  cases result with
  | absent => exact every_add _
  | unclosed first => exact every_degrade (shallow_warning _ nofun)
  | span tokens => exact unit_shallow (h tokens (List.mem_singleton.2 rfl))

theorem arguments_shallow {args : Tail} (path : String)
    (h : ∀ span ∈ args.spans, (inner span).Every Entry.Shallow) :
    (scope.arguments inner path args).Every Entry.Shallow := by
  cases args with
  | absent => exact every_empty
  | unclosed first => exact every_warn (shallow_warning _ nofun)
  | span tokens => exact h tokens (List.mem_singleton.2 rfl)

theorem Piece.growth_shallow {piece : Piece}
    (h : ∀ span ∈ piece.spans, (inner span).Every Entry.Shallow) :
    (piece.growth scope inner).Every Entry.Shallow := by
  cases piece with
  | plain name => exact every_add _
  | generic name args => exact (h args (List.mem_singleton.2 rfl)).under _ _
  | group body => exact (h body (List.mem_singleton.2 rfl)).under _ _
  | record body =>
    have hfields : (scope.fields inner body).Every Entry.Shallow := by
      refine every_chain fun g hg => ?_
      obtain ⟨tokens, ht, rfl⟩ := List.mem_map.1 hg
      exact field_shallow fun span hs => h span (List.mem_flatMap.2 ⟨tokens, ht, hs⟩)
    exact hfields.under _ _
  | function name params result =>
    obtain ⟨hparams, hresult⟩ := List.forall_mem_append.1 h
    have hparams : (scope.params inner params).Every Entry.Shallow := by
      refine every_chain fun g hg => ?_
      obtain ⟨tokens, ht, rfl⟩ := List.mem_map.1 hg
      exact unit_shallow (hparams _ (List.mem_map_of_mem ht))
    exact (hparams.append (result_shallow hresult)).under _ _
  | reference path qualifier args => exact (arguments_shallow path h).under _ _
  | pathless => exact every_degrade (shallow_warning _ nofun)
  | separator => exact every_empty
  | stray m => exact every_warn (shallow_warning _ nofun)
  | unclosed fragment b => exact every_degrade (shallow_warning _ nofun)

end

theorem spanGrowth_shallow (scope : Scope) {levels : Nat} {tokens : List Token}
    (h : tokens.length < levels) : (spanGrowth scope levels tokens).Every Entry.Shallow := by
  induction levels generalizing tokens with
  | zero => omega
  | succ levels ih =>
    refine every_chain fun g hg => ?_
    obtain ⟨piece, hp, rfl⟩ := List.mem_map.1 hg
    refine Piece.growth_shallow fun span hs => ih ?_
    have := length_lt_of_mem_spans hp hs
    omega

/-! ## whole expressions -/

/-- whether a journal tells of brackets nested too deep, asked of its entries -/
theorem every_shallow_iff (g : Growth) :
    g.Every Entry.Shallow ↔ ∀ d ∈ diagnostics g.journal, d.anomaly ≠ .depthExceeded := by
  constructor
  · intro h d hd
    obtain ⟨e, he, hed⟩ := List.mem_filterMap.1 hd
    exact h e he d hed
  · intro h e he d hd
    exact h d (List.mem_filterMap.2 ⟨e, he, hd⟩)

section
variable {config : Config} {text : String}

theorem length_le_of_mem_pathsBelow_ofText (hlenient : config.strict = false)
    (hlimit : 0 ≤ config.maxDepth) :
    ∃ root, (Node.ofText config text).outcome = .ok root ∧
      ∀ names ∈ root.pathsBelow [], (names.length : Int) ≤ 2 * config.maxDepth + 3 := by
  refine ⟨_, Node.ofText_lenient hlenient text, fun names hnames => ?_⟩
  have hwithin := (spanNodes_within (config.levels 0)).2 (tokenize text)
  have hlength := hwithin.length_le [] names hnames
  rw [List.length_nil] at hlength
  unfold Config.levels at hlength
  omega

theorem ofText_withLimit (hlenient : config.strict = false)
    (hshallow : ∀ d ∈ (Node.ofText config text).diagnostics, d.anomaly ≠ .depthExceeded)
    {limit : Int} (hlimit : config.maxDepth ≤ limit) :
    Node.ofText { config with maxDepth := limit } text = Node.ofText config text := by
  by_cases hblank : tokenize text = []
  · rw [Node.ofText_blank _ hblank, Node.ofText_blank _ hblank]
  · rw [Node.ofText_diagnostics config hblank, ← every_shallow_iff] at hshallow
    have hlevels : config.levels 0 ≤ ({ config with maxDepth := limit } : Config).levels 0 := by
      show (config.maxDepth - 0 + 1).toNat ≤ (limit - 0 + 1).toNat
      omega
    let scope : Scope := ⟨text, config⟩
    have hspan : Persists (spanGrowth scope (config.levels 0) (tokenize text))
        (spanGrowth (scope.withLimit limit) (limit - 0 + 1).toNat (tokenize text)) :=
      spanGrowth_persists hlenient limit hlevels _
    have hpersists : Persists (wholeGrowth config text)
        (wholeGrowth { config with maxDepth := limit } text) := hspan.unit limit (tokenize text)
    rw [Node.ofText_tokens _ hblank, Node.ofText_tokens _ hblank, hpersists hshallow]

theorem ofText_shallow (hlength : (tokenize text).length ≤ config.maxDepth) :
    ∀ d ∈ (Node.ofText config text).diagnostics, d.anomaly ≠ .depthExceeded := by
  by_cases hblank : tokenize text = []
  · rw [Node.ofText_blank config hblank]
    unfold Run.warn
    cases config.strict
    · intro d hd
      obtain rfl := List.mem_singleton.1 hd
      nofun
    · nofun
  · rw [Node.ofText_diagnostics config hblank, ← every_shallow_iff]
    have hlevels : (tokenize text).length < config.levels 0 := by
      unfold Config.levels
      omega
    exact unit_shallow (spanGrowth_shallow ⟨text, config⟩ hlevels)

end

/-- the limit bounds the tree, and otherwise only what it cuts off tells of it -/
theorem ofText_limit {config : Config} (hlenient : config.strict = false) (text : String) :
    (0 ≤ config.maxDepth → ∃ root, (Node.ofText config text).outcome = .ok root ∧
      ∀ names ∈ root.pathsBelow [], (names.length : Int) ≤ 2 * config.maxDepth + 3) ∧
    ((∀ d ∈ (Node.ofText config text).diagnostics, d.anomaly ≠ .depthExceeded) →
      ∀ limit, config.maxDepth ≤ limit →
        Node.ofText { config with maxDepth := limit } text = Node.ofText config text) ∧
    ((tokenize text).length ≤ config.maxDepth →
      ∀ d ∈ (Node.ofText config text).diagnostics, d.anomaly ≠ .depthExceeded) :=
  ⟨length_le_of_mem_pathsBelow_ofText hlenient,
    fun hshallow _ => ofText_withLimit hlenient hshallow, ofText_shallow⟩

/-- a group in the arguments of a generic type, two levels deep and eight tokens long -/
theorem ofText_limit_of_group :
    let text := "a.<(b|c)>"
    let enough := Node.ofText { maxDepth := 2 } text
    (Node.ofText { maxDepth := 1 } text).diagnostics.map Diagnostic.anomaly = [.depthExceeded] ∧
      (∃ root, enough.outcome = .ok root ∧
        ∀ names ∈ root.pathsBelow [], (names.length : Int) ≤ 2 * 2 + 3) ∧
      Node.ofText { maxDepth := 64 } text = enough ∧
      ∀ d ∈ (Node.ofText { maxDepth := 8 } text).diagnostics, d.anomaly ≠ .depthExceeded := by
  intro text enough
  have hshallow : ∀ d ∈ enough.diagnostics, d.anomaly ≠ .depthExceeded := by decide +kernel
  obtain ⟨hheight, hmore, -⟩ := @ofText_limit { maxDepth := 2 } rfl text
  obtain ⟨-, -, hlong⟩ := @ofText_limit { maxDepth := 8 } rfl text
  exact ⟨by decide +kernel, hheight (by decide), hmore hshallow 64 (by decide), hlong (by decide)⟩

end DocTypes
