import DocTypes.Node.Listing
import DocTypes.Proofs.Lowering.Exposed
import DocTypes.Proofs.Text.Lines
import Mathlib.Data.List.Forall2

/-!
# Listings tell trees apart

A listing shows how deep a node stands only by the blanks before its line, and its name, its kind
and its qualifier one after the other on that line.  If no name has a comma or a line feed in it,
and no qualifier a line feed, then trees with the same listing agree: only a qualifier that is empty
is not told from none.

* `Node.Agrees`                trees that are the same up to empty qualifiers;
* `Node.OneLine`               a node whose line of a listing can be read;
* `describe_eq_iff`            what a line tells of a node;
* `Node.forall₂_of_linesAllAt` trees side by side are read back from their lines, whatever follows;
* `dump_eq_iff_agrees`         trees with the same listing agree.
-/

namespace DocTypes

/-! ## what a listing shows -/

/-- the same kind, where an empty qualifier counts as none -/
def Kind.Alike : Kind → Kind → Prop
  | reference p, reference q => p.getD "" = q.getD ""
  | k, l => k = l

namespace Node

/-- the same kinds, names and children at every position -/
inductive Agrees : Node → Node → Prop where
  | mk {k l : Kind} {name : String} {cs ds : List Node} (hkind : k.Alike l)
    (hchildren : List.Forall₂ Agrees cs ds) : Agrees (mk k name cs) (mk l name ds)

/-- neither the name nor the qualifier breaks the line, and no comma in the name ends it early -/
structure OneLine (n : Node) : Prop where
  name : '\n' ∉ n.name.toList
  comma : ',' ∉ n.name.toList
  qualifier : ∀ q ∈ n.kind.qualifier?, '\n' ∉ q.toList

instance : DecidablePred OneLine := fun n =>
  decidable_of_iff ('\n' ∉ n.name.toList ∧ ',' ∉ n.name.toList ∧
      ∀ q ∈ n.kind.qualifier?, '\n' ∉ q.toList)
    ⟨fun h => ⟨h.1, h.2.1, h.2.2⟩, fun h => ⟨h.name, h.comma, h.qualifier⟩⟩

end Node

/-! ## one line -/

/-- what stands before the first `c`, and what behind it -/
theorem split_at_first {c : Char} {a b x y : List Char} (ha : c ∉ a) (hb : c ∉ b)
    (h : a ++ c :: x = b ++ c :: y) : a = b ∧ x = y := by
  induction a generalizing b with
  | nil =>
    cases b with
    | nil => exact ⟨rfl, (List.cons.inj h).2⟩
    | cons d b =>
      obtain ⟨rfl, -⟩ := List.cons.inj h
      exact absurd List.mem_cons_self hb
  | cons d a ih =>
    cases b with
    | nil =>
      obtain ⟨rfl, -⟩ := List.cons.inj h
      exact absurd List.mem_cons_self ha
    | cons e b =>
      obtain ⟨rfl, htail⟩ := List.cons.inj h
      obtain ⟨rfl, rfl⟩ :=
        ih (mt (List.mem_cons_of_mem d) ha) (mt (List.mem_cons_of_mem d) hb) htail
      exact ⟨rfl, rfl⟩

namespace Kind

/-- what a line shows behind the label of a kind -/
def suffix : Kind → String
  | reference qualifier => ", qualifier:" ++ qualifier.getD ""
  | _ => ""

theorem ofLabel?_label (k : Kind) :
    ofLabel? k.label = some (match k with | reference _ => reference none | k => k) := by
  cases k <;> rfl

theorem not_mem_label {c : Char} (hc : c.isUpper = false) (k : Kind) : c ∉ k.label.toList := by
  have hupper : ∀ d ∈ k.label.toList, d.isUpper = true := by
    cases k with
    | reference q => exact List.all_eq_true.1 (by decide : "MODULE".toList.all Char.isUpper = true)
    | _ => exact List.all_eq_true.1 (by decide)
  intro h
  rw [hupper c h] at hc
  cases hc

theorem label_eq_iff {k l : Kind} : k.label ++ k.suffix = l.label ++ l.suffix ↔ k.Alike l := by
  constructor
  · intro h
    -- the label ends where the text or a comma does
    have hend (k : Kind) :
        ∃ rest, (k.label ++ k.suffix ++ ",").toList = k.label.toList ++ ',' :: rest := by
      cases k with
      | reference q => exact ⟨" qualifier:".toList ++ ((q.getD "").toList ++ [',']), by
          simp [suffix, label, String.toList_append]⟩
      | _ => exact ⟨[], rfl⟩
    obtain ⟨x, hx⟩ := hend k
    obtain ⟨y, hy⟩ := hend l
    rw [h, hy] at hx
    obtain ⟨hlabel, -⟩ := split_at_first (l.not_mem_label rfl) (k.not_mem_label rfl) hx
    have hlabel : k.label = l.label := (String.toList_inj.1 hlabel).symm
    have hkind := congrArg ofLabel? hlabel
    rw [ofLabel?_label, ofLabel?_label] at hkind
    rw [hlabel, String.append_right_inj] at h
    cases k with
    | reference p =>
      cases l with
      | reference q => exact String.append_right_inj _ |>.1 h
      | _ => cases hkind
    | _ =>
      cases l <;> cases hkind
      rfl
  · intro h
    cases k with
    | reference p =>
      cases l with
      | reference q => exact congrArg (fun s => "MODULE" ++ (", qualifier:" ++ s)) h
      | _ => cases h
    | _ =>
      cases l <;> cases h
      rfl

end Kind

namespace Node

theorem describe_eq (k : Kind) (name : String) :
    describe k name = "name: " ++ name ++ ", type:" ++ (k.label ++ k.suffix) := by
  rw [← String.append_assoc]
  cases k <;> rfl

theorem describe_of_alike {k l : Kind} (h : k.Alike l) (name : String) :
    describe k name = describe l name := by
  rw [describe_eq, describe_eq, Kind.label_eq_iff.2 h]

/-- the line of a node tells its name and its kind, unless a comma ends the name early -/
theorem describe_eq_iff {k l : Kind} {n m : String} (hn : ',' ∉ n.toList) (hm : ',' ∉ m.toList) :
    describe k n = describe l m ↔ n = m ∧ k.Alike l := by
  have htext (k : Kind) (n : String) : (describe k n).toList
      = "name: ".toList ++ (n.toList ++ ',' :: (" type:" ++ (k.label ++ k.suffix)).toList) := by
    simp [describe_eq]
  constructor
  · intro h
    have hlist := congrArg String.toList h
    rw [htext, htext, List.append_cancel_left_eq] at hlist
    obtain ⟨hname, hkind⟩ := split_at_first hn hm hlist
    refine ⟨String.toList_inj.1 hname, Kind.label_eq_iff.1 ?_⟩
    exact (String.append_right_inj _).1 (String.toList_inj.1 hkind)
  · rintro ⟨rfl, hkind⟩
    exact describe_of_alike hkind n

/-- so does a line with its indentation, and it tells how deep the node stands -/
theorem line_eq_iff {k l : Kind} {n m : String} {indent depth : Nat} (hn : ',' ∉ n.toList)
    (hm : ',' ∉ m.toList) :
    indentation indent ++ describe k n = indentation depth ++ describe l m ↔
      indent = depth ∧ n = m ∧ k.Alike l := by
  constructor
  · intro h
    have htext (indent : Nat) (k : Kind) (n : String) :
        (indentation indent ++ describe k n).toList
          = List.replicate (2 * indent) ' ' ++ 'n' :: (describe k n).toList.tail := by
      simp [describe_eq, indentation]
    have hblank (count : Nat) : 'n' ∉ List.replicate count ' ' := fun hmem =>
      absurd (List.eq_of_mem_replicate hmem) (by decide)
    have hlist := congrArg String.toList h
    rw [htext, htext] at hlist
    obtain ⟨hindent, -⟩ := split_at_first (hblank _) (hblank _) hlist
    have hcount := congrArg List.length hindent
    rw [List.length_replicate, List.length_replicate] at hcount
    obtain rfl : indent = depth := by omega
    exact ⟨rfl, (describe_eq_iff hn hm).1 ((String.append_right_inj _).1 h)⟩
  · rintro ⟨rfl, h⟩
    rw [(describe_eq_iff hn hm).2 h]

/-! ## the lines of trees -/

/-- `rest` does not go on with a line as deep as `indent` -/
def Shallow (indent : Nat) (rest : List String) : Prop :=
  ∀ line ∈ rest.head?, ∃ depth k n, depth < indent ∧ ',' ∉ n.toList ∧
    line = indentation depth ++ describe k n

theorem shallow_nil (indent : Nat) : Shallow indent [] := fun _ h => absurd h nofun

theorem Shallow.mono {indent depth : Nat} {rest : List String} (h : Shallow indent rest)
    (hle : indent ≤ depth) : Shallow depth rest := by
  intro line hline
  obtain ⟨i, k, n, hi, hn, heq⟩ := h line hline
  exact ⟨i, k, n, Nat.lt_of_lt_of_le hi hle, hn, heq⟩

/-- behind the lines of children stand those of the next trees, or what follows them all -/
theorem shallow_linesAllAt {nodes : List Node} (hnodes : ∀ n ∈ postorderAll nodes, n.OneLine)
    {indent : Nat} {rest : List String} (hrest : Shallow indent rest) :
    Shallow (indent + 1) (linesAllAt indent nodes ++ rest) := by
  cases nodes with
  | nil => exact hrest.mono (Nat.le_succ indent)
  | cons node nodes =>
    obtain ⟨k, n, cs⟩ := node
    intro line hline
    obtain rfl := Option.some.inj hline
    have hnode : (mk k n cs).OneLine := hnodes _ (by simp [postorderAll, postorder])
    exact ⟨indent, k, n, Nat.lt_succ_self indent, hnode.comma, rfl⟩

theorem Shallow.ne_line {indent : Nat} {rest : List String} (h : Shallow indent rest) {k : Kind}
    {n : String} (hn : ',' ∉ n.toList) (more : List String) :
    rest ≠ (indentation indent ++ describe k n) :: more := by
  rintro rfl
  obtain ⟨depth, l, m, hlt, hm, heq⟩ := h _ rfl
  exact Nat.ne_of_gt hlt ((line_eq_iff hn hm).1 heq).1

/-- trees side by side are read back from their lines, whatever follows that is not as deep -/
theorem forall₂_of_linesAllAt {as bs : List Node} {indent : Nat} {rest rest' : List String}
    (ha : ∀ n ∈ postorderAll as, n.OneLine) (hb : ∀ n ∈ postorderAll bs, n.OneLine)
    (hrest : Shallow indent rest) (hrest' : Shallow indent rest')
    (h : linesAllAt indent as ++ rest = linesAllAt indent bs ++ rest') :
    List.Forall₂ Agrees as bs ∧ rest = rest' := by
  match as, bs with
  | [], [] => exact ⟨.nil, h⟩
  | [], mk l m ds :: bs =>
    have hnode : (mk l m ds).OneLine := hb _ (by simp [postorderAll, postorder])
    exact absurd h (hrest.ne_line hnode.comma _)
  | mk k n cs :: as, [] =>
    have hnode : (mk k n cs).OneLine := ha _ (by simp [postorderAll, postorder])
    exact absurd h.symm (hrest'.ne_line hnode.comma _)
  | mk k n cs :: as, mk l m ds :: bs =>
    simp only [postorderAll, postorder, List.forall_mem_append, List.forall_mem_singleton] at ha hb
    obtain ⟨⟨hcs, hnode⟩, has⟩ := ha
    obtain ⟨⟨hds, hnode'⟩, hbs⟩ := hb
    simp only [linesAllAt, linesAt, List.cons_append, List.append_assoc] at h
    obtain ⟨hline, htail⟩ := List.cons.inj h
    obtain ⟨-, rfl, hkind⟩ := (line_eq_iff hnode.comma hnode'.comma).1 hline
    obtain ⟨hchildren, hnext⟩ := forall₂_of_linesAllAt hcs hds (shallow_linesAllAt has hrest)
      (shallow_linesAllAt hbs hrest') htail
    obtain ⟨hmore, hend⟩ := forall₂_of_linesAllAt has hbs hrest hrest' hnext
    exact ⟨.cons (.mk hkind hchildren) hmore, hend⟩
termination_by as

theorem Agrees.linesAt_eq {a b : Node} (h : Agrees a b) (indent : Nat) :
    a.linesAt indent = b.linesAt indent := by
  induction a using Node.inductionOn generalizing b indent with
  | mk k n cs ih =>
    obtain ⟨hkind, hchildren⟩ := h
    rw [Node.linesAt, Node.linesAt, describe_of_alike hkind]
    congr 1
    induction hchildren with
    | nil => rfl
    | cons hfirst _ ihmore =>
      obtain ⟨ihfirst, ihrest⟩ := List.forall_mem_cons.1 ih
      rw [linesAllAt, linesAllAt, ihfirst hfirst, ihmore ihrest]

theorem feed_not_mem_describe {n : Node} (h : n.OneLine) :
    '\n' ∉ (describe n.kind n.name).toList := by
  obtain ⟨k, name, cs⟩ := n
  have hsuffix : '\n' ∉ k.suffix.toList := by
    cases k with
    | reference qualifier =>
      cases qualifier with
      | none => decide
      | some q =>
        have hq := h.qualifier q rfl
        simpa [Kind.suffix] using hq
    | _ => decide
  have hlabel := k.not_mem_label (c := '\n') rfl
  have hname := h.name
  simpa [describe_eq] using ⟨hname, hlabel, hsuffix⟩

theorem feed_not_mem_linesAllAt {nodes : List Node} (h : ∀ n ∈ postorderAll nodes, n.OneLine)
    (indent : Nat) : ∀ line ∈ linesAllAt indent nodes, '\n' ∉ line.toList := by
  match nodes with
  | [] => nofun
  | mk k n cs :: nodes =>
    simp only [postorderAll, postorder, List.forall_mem_append, List.forall_mem_singleton] at h
    obtain ⟨⟨hcs, hnode⟩, hnodes⟩ := h
    rw [linesAllAt, linesAt, List.cons_append, List.forall_mem_cons, List.forall_mem_append]
    refine ⟨?_, feed_not_mem_linesAllAt hcs _, feed_not_mem_linesAllAt hnodes _⟩
    rw [String.toList_append, List.mem_append]
    rintro (hblank | hline)
    · rw [indentation, String.toList_ofList] at hblank
      exact absurd (List.eq_of_mem_replicate hblank) (by decide)
    · exact feed_not_mem_describe hnode hline
termination_by nodes

theorem feedParts_dump {node : Node} (h : ∀ n ∈ node.postorder, n.OneLine) :
    Text.feedParts node.dump.toList = node.lines.map String.toList := by
  have hnodes : ∀ n ∈ postorderAll [node], n.OneLine := by simpa [postorderAll] using h
  have hlines : ∀ line ∈ node.lines, '\n' ∉ line.toList := by
    simpa [linesAllAt, lines] using feed_not_mem_linesAllAt hnodes 0
  have hne : node.lines ≠ [] := by
    obtain ⟨k, n, cs⟩ := node
    exact List.cons_ne_nil _ _
  rw [dump, String.toList_intercalate]
  exact (Text.feedParts_intercalate (mt List.map_eq_nil_iff.1 hne)).trans
    (Text.flatMap_feedParts hlines)

end Node

/-! ## whole listings -/

/-- trees whose lines can be read have the same listing just if they agree -/
theorem dump_eq_iff_agrees {a b : Node} (ha : ∀ n ∈ a.postorder, n.OneLine)
    (hb : ∀ n ∈ b.postorder, n.OneLine) : a.dump = b.dump ↔ a.Agrees b := by
  constructor
  · intro h
    have hparts : a.lines.map String.toList = b.lines.map String.toList := by
      rw [← Node.feedParts_dump ha, ← Node.feedParts_dump hb, h]
    have hlines : a.lines = b.lines :=
      List.map_injective_iff.2 (fun _ _ => String.toList_inj.1) hparts
    have hforest : Node.linesAllAt 0 [a] ++ [] = Node.linesAllAt 0 [b] ++ [] := by
      simpa [Node.linesAllAt, Node.lines] using hlines
    obtain ⟨hagrees, -⟩ := Node.forall₂_of_linesAllAt (by simpa [Node.postorderAll] using ha)
      (by simpa [Node.postorderAll] using hb) (Node.shallow_nil 0) (Node.shallow_nil 0) hforest
    obtain _ | ⟨hfirst, -⟩ := hagrees
    exact hfirst
  · intro h
    rw [Node.dump, Node.dump, Node.lines, Node.lines, h.linesAt_eq]

/-- a tree with names that look like a kind, like a line and like nothing -/
def knotted (qualifier : Option String) : Node :=
  .unionOf [.mk (.reference qualifier) "a" [.leaf "x type:TYPE"],
    .mk .generic "  name: b" [.leaf ""], .mk (.reference (some "c, qualifier:")) "c" []]

/-- an empty qualifier and none have the same listing -/
theorem dump_eq_iff_agrees_of_knotted :
    (∀ n ∈ (knotted none).postorder, n.OneLine) ∧ (∀ n ∈ (knotted (some "")).postorder, n.OneLine) ∧
      (knotted none).dump = (knotted (some "")).dump ∧ (knotted none).Agrees (knotted (some "")) :=
  have hnone : ∀ n ∈ (knotted none).postorder, n.OneLine := by decide +kernel
  have hempty : ∀ n ∈ (knotted (some "")).postorder, n.OneLine := by decide +kernel
  have hdump : (knotted none).dump = (knotted (some "")).dump := by decide +kernel
  ⟨hnone, hempty, hdump, (dump_eq_iff_agrees hnone hempty).1 hdump⟩

end DocTypes
