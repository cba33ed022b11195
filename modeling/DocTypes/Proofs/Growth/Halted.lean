import DocTypes.Proofs.Growth.Strict

/-!
# What is left of a halted reading

A strict reading that halts at a flaw has added nodes already, and these stay.  The nodes are
attached from left to right, each before what is inside it, so the listing of what is there is the
beginning of the listing of what a lenient reading adds.  What the lenient reading puts in the place
of the flaw comes after it.

* `Node.anyLine`          the line of an `any` in a listing;
* `Growth.Cut`            nodes whose listing is the beginning of that of others, up to a flaw;
* `Growth.Outlasts`       a lenient reading that goes on where the other one halts;
* `keptApart_outlasts`    every way of putting readings together keeps this;
* `halted_lines`          the listing of a node into which a span is read, when the reading halts.
-/

namespace DocTypes

/-- the line of `any` in a listing -/
def Node.anyLine (indent : Nat) : String := indentation indent ++ describe .plain "any"

open Growth (add warn degrade append_of_halted append_of_unhalted unit_of_halted unit_of_unhalted)
open Node (linesAllAt linesAllAt_eq anyLine)

namespace Growth

/-! ## listings that are cut off -/

/-- `nodes` are listed as `all` are up to a flaw, and the `any` in its place is listed beyond -/
def Cut (flaw : Flaw) (nodes all : List Node) : Prop :=
  ∀ indent, ∃ rest, linesAllAt indent all = linesAllAt indent nodes ++ rest ∧
    (flaw.isReplaced = true → ∃ i, anyLine i ∈ rest)

theorem linesAllAt_append (indent : Nat) (front nodes : List Node) :
    linesAllAt indent (front ++ nodes) = linesAllAt indent front ++ linesAllAt indent nodes := by
  rw [linesAllAt_eq, linesAllAt_eq, linesAllAt_eq, List.flatMap_append]

theorem linesAllAt_mk (indent : Nat) (kind : Kind) (name : String) (children : List Node) :
    linesAllAt indent [.mk kind name children]
      = (Node.indentation indent ++ Node.describe kind name) :: linesAllAt (indent + 1) children :=
  List.append_nil _

namespace Cut

variable {flaw : Flaw} {nodes all : List Node}

theorem nothing (h : flaw.isReplaced = false) : Cut flaw [] [] := fun _ =>
  ⟨[], rfl, fun hflaw => absurd hflaw (by rw [h]; nofun)⟩

theorem append (h : Cut flaw nodes all) (more : List Node) : Cut flaw nodes (all ++ more) := by
  intro indent
  obtain ⟨rest, hrest, hany⟩ := h indent
  refine ⟨rest ++ linesAllAt indent more, ?_, fun hflaw => ?_⟩
  · rw [linesAllAt_append, hrest, List.append_assoc]
  · obtain ⟨i, hi⟩ := hany hflaw
    exact ⟨i, List.mem_append_left _ hi⟩

theorem behind (h : Cut flaw nodes all) (front : List Node) :
    Cut flaw (front ++ nodes) (front ++ all) := by
  intro indent
  obtain ⟨rest, hrest, hany⟩ := h indent
  refine ⟨rest, ?_, hany⟩
  rw [linesAllAt_append, linesAllAt_append, hrest, List.append_assoc]

theorem under (h : Cut flaw nodes all) (kind : Kind) (name : String) :
    Cut flaw [.mk kind name nodes] [.mk kind name all] := by
  intro indent
  obtain ⟨rest, hrest, hany⟩ := h (indent + 1)
  refine ⟨rest, ?_, hany⟩
  rw [linesAllAt_mk, linesAllAt_mk, hrest, List.cons_append]

/-- nothing is left of the nodes -/
theorem lost (h : Cut flaw nodes all) : Cut flaw [] all := by
  intro indent
  obtain ⟨rest, hrest, hany⟩ := h indent
  refine ⟨linesAllAt indent all, rfl, fun hflaw => ?_⟩
  obtain ⟨i, hi⟩ := hany hflaw
  exact ⟨i, by rw [hrest]; exact List.mem_append_right _ hi⟩

theorem any (flaw : Flaw) : Cut flaw [] [.any] := fun indent =>
  ⟨linesAllAt indent [.any], rfl, fun _ => ⟨indent, List.mem_singleton.2 rfl⟩⟩

end Cut

/-! ## halted readings -/

/-- the lenient reading `l` goes on to the end, and where `g` halts, `g` is cut off -/
structure Outlasts (source : String) (g l : Growth) : Prop where
  halt : l.halt = none
  nodes (h : g.halt = none) : g.nodes = l.nodes
  cut {r : Rejection} (h : g.halt = some r) :
    ∃ flaw, r = (Flaw.warning source flaw).rejection ∧ Cut flaw g.nodes l.nodes

section
variable {source : String} {a a' b b' g l : Growth}

theorem Outlasts.same (h : l.halt = none) : Outlasts source l l :=
  ⟨h, fun _ => rfl, fun hr => absurd (h.symm.trans hr) nofun⟩

theorem Outlasts.append (ha : Outlasts source a a') (hb : Outlasts source b b') :
    Outlasts source (a ++ b) (a' ++ b') := by
  rw [append_of_unhalted ha.halt]
  cases hhalt : a.halt with
  | some r =>
    rw [append_of_halted hhalt]
    refine ⟨hb.halt, fun hnone => absurd (hhalt.symm.trans hnone) nofun, fun hr => ?_⟩
    obtain ⟨flaw, hflaw, hcut⟩ := ha.cut hr
    exact ⟨flaw, hflaw, hcut.append b'.nodes⟩
  | none =>
    rw [append_of_unhalted hhalt, ha.nodes hhalt]
    refine ⟨hb.halt, fun hnone => congrArg (a'.nodes ++ ·) (hb.nodes hnone), fun hr => ?_⟩
    obtain ⟨flaw, hflaw, hcut⟩ := hb.cut hr
    exact ⟨flaw, hflaw, hcut.behind a'.nodes⟩

theorem Outlasts.under (h : Outlasts source g l) (kind : Kind) (name : String) :
    Outlasts source (g.under kind name) (l.under kind name) := by
  refine ⟨h.halt, fun hnone => congrArg (fun nodes => [Node.mk kind name nodes]) (h.nodes hnone),
    fun hr => ?_⟩
  obtain ⟨flaw, hflaw, hcut⟩ := h.cut hr
  exact ⟨flaw, hflaw, hcut.under kind name⟩

end

section
variable {scope scope' : Scope} (hstrict : scope.config.strict = true)
  (hlenient : scope'.config.strict = false)
include hstrict hlenient

theorem outlasts_warn {flaw : Flaw} (hflaw : flaw.isReplaced = false) :
    Outlasts scope.source (warn scope flaw) (warn scope' flaw) := by
  rw [warn, warn, if_pos hstrict, hlenient]
  exact ⟨rfl, nofun, fun hr => ⟨flaw, (Option.some.inj hr).symm, .nothing hflaw⟩⟩

theorem outlasts_degrade (flaw : Flaw) :
    Outlasts scope.source (degrade scope flaw) (degrade scope' flaw) := by
  have hwarn : warn scope flaw = ⟨[], [], some (flaw.warning scope.source).rejection⟩ :=
    if_pos hstrict
  have hwarn' : warn scope' flaw = ⟨[], [.warning (flaw.warning scope'.source)], none⟩ := by
    rw [warn, hlenient]
    rfl
  rw [degrade, degrade, hwarn, hwarn']
  exact ⟨rfl, nofun, fun hr => ⟨flaw, (Option.some.inj hr).symm, .any flaw⟩⟩

theorem Outlasts.unit {g l : Growth} (h : Outlasts scope.source g l) (span : List Token) :
    Outlasts scope.source (g.unit scope span) (l.unit scope' span) := by
  cases hhalt : g.halt with
  | none =>
    have hempty := h.append (outlasts_degrade hstrict hlenient (.typeless (Token.joined span)))
    rw [unit_of_unhalted hhalt, unit_of_unhalted h.halt, h.nodes hhalt]
    split
    · exact hempty
    · exact h
    · exact ⟨h.halt, fun _ => rfl, fun hr => absurd (hhalt.symm.trans hr) nofun⟩
  | some r =>
    obtain ⟨flaw, hflaw, hcut⟩ := h.cut hhalt
    -- the nodes that were to be made into one are dropped
    suffices hunit : (l.unit scope' span).halt = none ∧ Cut flaw [] (l.unit scope' span).nodes by
      rw [unit_of_halted hhalt]
      exact ⟨hunit.1, nofun, fun hr => ⟨flaw, (Option.some.inj hr).symm.trans hflaw, hunit.2⟩⟩
    rw [unit_of_unhalted h.halt]
    split
    · have hdegrade := (outlasts_degrade hstrict hlenient (.typeless (Token.joined span))).halt
      rw [append_of_unhalted h.halt]
      exact ⟨hdegrade, hcut.lost.append _⟩
    · exact ⟨h.halt, hcut.lost⟩
    · exact ⟨h.halt, (hcut.under .union "Union").lost⟩

end

theorem keptApart_outlasts {scope scope' : Scope} (hstrict : scope.config.strict = true)
    (hlenient : scope'.config.strict = false) :
    KeptApart scope scope' (Outlasts scope.source) where
  empty := .same rfl
  add _ := .same rfl
  warn := outlasts_warn hstrict hlenient
  degrade {flaw} _ := outlasts_degrade hstrict hlenient flaw
  append := Outlasts.append
  under := Outlasts.under
  unit := Outlasts.unit hstrict hlenient

end Growth

/-! ## spans -/

/-- A span is read into a node, whatever children the node has.  If the strict reading halts, the
listing of the node at that moment begins with what was listed before, and the listing after the
lenient reading begins with it and goes on; if the flaw is one that `any` takes the place of, the
line of an `any` is among what comes after. -/
theorem halted_lines (config : Config) (source : String) (depth : Int) (tokens : List Token)
    (kind : Kind) (name : String) (children : List Node) :
    let read (strict : Bool) : Growth :=
      spanGrowth ⟨source, { config with strict }⟩ (config.levels depth) tokens
    let parent (nodes : List Node) : Node := .mk kind name (children ++ nodes)
    ∀ r, (read true).halt = some r →
      (read false).halt = none ∧
      (Node.mk kind name children).lines <+: (parent (read true).nodes).lines ∧
      ∃ flaw rest, r = (Flaw.warning source flaw).rejection ∧
        (parent (read false).nodes).lines = (parent (read true).nodes).lines ++ rest ∧
        (flaw.isReplaced = true → ∃ indent, anyLine indent ∈ rest) := by
  intro read parent r hhalt
  let scope (strict : Bool) : Scope := ⟨source, { config with strict }⟩
  have hkept : Growth.KeptApart (scope true) (scope false) (Growth.Outlasts source) :=
    Growth.keptApart_outlasts rfl rfl
  have houtlasts : Growth.Outlasts source (read true) (read false) :=
    hkept.span rfl (config.levels depth) tokens
  have hlines (nodes : List Node) :
      (parent nodes).lines = (Node.mk kind name children).lines ++ linesAllAt 1 nodes :=
    congrArg (_ :: ·) (Growth.linesAllAt_append 1 children nodes)
  obtain ⟨flaw, hflaw, hcut⟩ := houtlasts.cut hhalt
  obtain ⟨rest, hrest, hany⟩ := hcut 1
  refine ⟨houtlasts.halt, ?_, flaw, rest, hflaw, ?_, hany⟩
  · rw [hlines (read true).nodes]
    exact List.prefix_append _ _
  · rw [hlines (read false).nodes, hlines (read true).nodes, hrest, List.append_assoc]

/-- a field of a record among arguments, whose value is an unclosed group behind a name, read into a
union that has a child -/
theorem halted_lines_of_field :
    let config : Config := { maxDepth := 5 }
    let tokens : List Token := [.word "Map", .mark .lt, .word "a", .mark .comma, .mark .lbrace,
      .word "k", .mark .colon, .word "b", .mark .bar, .mark .lparen, .mark .rbrace, .mark .gt]
    let read (strict : Bool) : Growth :=
      spanGrowth ⟨"…", { config with strict }⟩ (config.levels 3) tokens
    let parent (nodes : List Node) : Node := .mk .union "Union" ([.leaf "Date"] ++ nodes)
    let r : Rejection := (Flaw.warning "…" (.unclosed "(" .paren)).rejection
    (read true).halt = some r ∧
      (read false).halt = none ∧
      (Node.mk .union "Union" [.leaf "Date"]).lines <+: (parent (read true).nodes).lines ∧
      ∃ flaw rest, r = (Flaw.warning "…" flaw).rejection ∧
        (parent (read false).nodes).lines = (parent (read true).nodes).lines ++ rest ∧
        (flaw.isReplaced = true → ∃ indent, anyLine indent ∈ rest) := by
  intro config tokens read parent r
  have hhalt : (read true).halt = some r := by decide +kernel
  exact ⟨hhalt, halted_lines config "…" 3 tokens .union "Union" [.leaf "Date"] r hhalt⟩

end DocTypes
