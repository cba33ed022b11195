import DocTypes.Proofs.Doclet.Comment
import DocTypes.Proofs.Naming.Marks
import DocTypes.Proofs.TsType.Comment
import Mathlib.Data.List.Nodup

/-!
# The comments of documented properties

If no two roots have one name, the text of the record is read as the record without doc comments, and as
the comments of the roots: one for each root that has lines to show, right in front of its member.  No
text and no default value is escaped, so this holds just as long as no line has a `*/` in it.

Of all that a property declares, its comment leaves out a default value such as `0` or `false`, and a
description of which no more than one empty line is left.

* `TsType.withoutDocs`      a type without its doc comments;
* `PropertyNode.heading`    what the code of a root begins with;
* `Documents`               a reading with a comment for each root that has lines to show;
* `documents_written`       the written lines are read;
* `literalType_comments`    when they are, and when these are all that is declared.
-/

namespace DocTypes

open Commented (opening closing)

def TsType.withoutDocs : TsType → TsType
  | .object properties optional index singleLine _ => .object properties optional index singleLine []
  | type => type

/-- what the code of a member begins with: its name, and the mark of its property -/
def PropertyNode.heading (node : PropertyNode) : List Char :=
  ("\n    " ++ (node.name ++ optionalMark node.prop.optional ++ ": ")).toList

/-- the text of a type is read as its code and a comment for each root that has lines to show -/
structure Documents (shown : Property → List (List Char)) (roots : List PropertyNode)
    (type : TsType) (r : Commented) : Prop where
  read : Commented.read type.text.toList = some r
  code : r.code = type.withoutDocs.text.toList
  lines : r.notes.map Note.lines
    = (roots.filter fun root => shown root.prop ≠ []).map fun root => shown root.prop
  place : List.Forall₂ (fun root note => root.heading <+: note.code)
    (roots.filter fun root => shown root.prop ≠ []) r.notes

/-! ## the members of roots -/

theorem unanimous_of_nodup {nodes : List PropertyNode} (h : (nodes.map (·.name)).Nodup) :
    Unanimous nodes := by
  intro a ha b hb hname
  rw [List.inj_on_of_nodup_map h ha hb hname]

theorem oneComment_of_nodup {nodes : List PropertyNode} (h : (nodes.map (·.name)).Nodup) :
    OneComment nodes := by
  intro a ha b hb hname
  rw [List.inj_on_of_nodup_map h ha hb hname]

theorem Marking.members_bare (m : Marking) (nodes : List PropertyNode) (types : List String) :
    m.bare.members nodes types = (m.members nodes types).map Member.bare := by
  rw [members, members, List.map_map]
  rfl

theorem IsRecord.withoutDocs {nodes : List PropertyNode} {types : List TsType}
    {docs : List (String × String)} {type : TsType} (h : IsRecord nodes types docs type) :
    IsRecord nodes types [] type.withoutDocs := by
  cases h with
  | mk hnames htypes hoptional => exact .mk hnames htypes hoptional

/-- without repeated names the members have the marks of their own properties -/
theorem IsRecord.text_own {nodes : List PropertyNode} {types : List TsType} {type : TsType}
    (h : IsRecord nodes types (commentsOf nodes) type) (hnames : (nodes.map (·.name)).Nodup)
    (hlength : nodes.length = types.length) :
    let members := Marking.own.members nodes (types.map TsType.text)
    type.text = recordText members ∧ type.withoutDocs.text = recordText (members.map Member.bare) := by
  have hown : Marking.byName.members nodes (types.map TsType.text)
      = Marking.own.members nodes (types.map TsType.text) := by
    refine (members_eq_iff ?_).2 ⟨unanimous_of_nodup hnames, oneComment_of_nodup hnames⟩
    rw [List.length_map]
    exact hlength
  constructor
  · rw [h.text, hown]
  · rw [h.withoutDocs.text_bare, Marking.members_bare, hown]

theorem heading_prefix_code (node : PropertyNode) (nodes : List PropertyNode) (type : String) :
    node.heading <+: (Marking.own.member nodes node type).code := by
  refine ⟨type.toList ++ [';'], ?_⟩
  show _ = "\n    ".toList
    ++ (node.name ++ optionalMark node.prop.optional ++ ": " ++ type).toList ++ [';']
  simp only [PropertyNode.heading, String.toList_append, List.append_assoc]

/-! ## reading the lines -/

section
variable {shown : Property → List (List Char)} {roots : List PropertyNode} {type : TsType}
  {r : Commented}

/-- a line that is read does not end a comment -/
theorem Documents.closing_not_infix (h : Documents shown roots type r) :
    ∀ root ∈ roots, ∀ line ∈ shown root.prop, ¬closing <:+: line := by
  intro root hroot line hline hwithin
  have hfiltered : root ∈ roots.filter fun root => shown root.prop ≠ [] :=
    List.mem_filter.2 ⟨hroot, decide_eq_true (List.ne_nil_of_mem hline)⟩
  have hlines : shown root.prop ∈ r.notes.map Note.lines := by
    rw [h.lines]
    exact List.mem_map_of_mem (f := fun root => shown root.prop) hfiltered
  obtain ⟨note, hnote, heq⟩ := List.mem_map.1 hlines
  rw [← heq] at hline
  exact Commented.closing_not_infix h.read note hnote (hwithin.trans (Note.infix_body line hline))

/-- comments that are read one by one, each with the lines to show and in front of its member -/
theorem Documents.of_notes (hread : Commented.read type.text.toList = some r)
    (hcode : r.code = type.withoutDocs.text.toList)
    (hnotes : List.Forall₂ (fun root note => shown root.prop = note.lines ∧ root.heading <+: note.code)
      (roots.filter fun root => shown root.prop ≠ []) r.notes) : Documents shown roots type r := by
  have hlines : List.Forall₂ (· = ·)
      ((roots.filter fun root => shown root.prop ≠ []).map fun root => shown root.prop)
      (r.notes.map Note.lines) :=
    List.forall₂_map_left_iff.2 (List.forall₂_map_right_iff.2 (hnotes.imp fun _ _ h => h.1))
  rw [List.forall₂_eq_eq_eq] at hlines
  exact ⟨hread, hcode, hlines.symm, hnotes.imp fun _ _ h => h.2⟩

/-- the roots that have lines written, found among the roots with their texts -/
theorem filter_writtenLines {texts : List String} (hlength : roots.length = texts.length) :
    (roots.filter fun root => root.prop.writtenLines ≠ [])
      = ((roots.zip texts).filter fun entry => entry.1.prop.comment ≠ "").map Prod.fst := by
  have hroots : (roots.zip texts).map Prod.fst = roots := List.map_fst_zip (Nat.le_of_eq hlength)
  have hwritten : (fun entry : PropertyNode × String => decide (entry.1.prop.comment ≠ ""))
      = (fun root : PropertyNode => decide (root.prop.writtenLines ≠ [])) ∘ Prod.fst := by
    funext entry
    exact decide_eq_decide.2 (not_congr entry.1.prop.comment_eq_empty_iff)
  rw [hwritten, ← List.filter_map, hroots]

/-- roots whose members have their own marks: their written lines are read -/
theorem documents_written {texts : List String} (hlength : roots.length = texts.length)
    (htext : type.text = recordText (Marking.own.members roots texts))
    (hbare : type.withoutDocs.text = recordText ((Marking.own.members roots texts).map Member.bare))
    (hplain : ¬opening <:+: type.withoutDocs.text.toList)
    (hlines : ∀ root ∈ roots, ∀ line ∈ root.prop.writtenLines, ¬closing <:+: line) :
    ∃ r, Documents Property.writtenLines roots type r := by
  have hcomments : ∀ m ∈ Marking.own.members roots texts, m.comment ≠ "" →
      ∀ line ∈ Text.feedParts m.comment.toList, ¬closing <:+: line := by
    intro m hm hcomment line hline
    obtain ⟨⟨root, text⟩, hentry, rfl⟩ := List.mem_map.1 hm
    have hwritten : line ∈ root.prop.writtenLines := by
      rw [root.prop.writtenLines_of_comment hcomment]
      exact hline
    exact hlines root (List.of_mem_zip hentry).1 line hwritten
  rw [hbare] at hplain
  obtain ⟨r, hread, hcode, hnotes⟩ := Commented.exists_read _ hplain hcomments
  rw [← htext] at hread
  rw [← hbare] at hcode
  rw [Marking.members, List.filter_map, List.forall₂_map_left_iff] at hnotes
  refine ⟨r, .of_notes hread hcode ?_⟩
  rw [filter_writtenLines hlength, List.forall₂_map_left_iff]
  refine ((List.forall₂_and_left _ _).2 ⟨fun entry hentry => ?_, hnotes⟩).imp fun entry note h =>
    ⟨(entry.1.prop.writtenLines_of_comment h.1).trans h.2.1.symm, ?_⟩
  · exact of_decide_eq_true (List.mem_filter.1 hentry).2
  · exact (heading_prefix_code entry.1 roots entry.2).trans h.2.2

theorem Documents.of_eq {others : Property → List (List Char)} (h : Documents shown roots type r)
    (heq : ∀ root ∈ roots, shown root.prop = others root.prop) : Documents others roots type r := by
  have hfilter : (roots.filter fun root => shown root.prop ≠ [])
      = roots.filter fun root => others root.prop ≠ [] :=
    List.filter_congr fun root hroot => by rw [heq root hroot]
  refine ⟨h.read, h.code, ?_, hfilter ▸ h.place⟩
  rw [h.lines, hfilter]
  exact List.map_congr_left fun root hroot => heq root (List.mem_of_mem_filter hroot)

/-- if both these lines are read and those, which are among these, then they are the same -/
theorem Documents.shown_eq {less : Property → List (List Char)} {r' : Commented}
    (hsubset : ∀ p, less p ⊆ shown p) (hless : Documents less roots type r)
    (h : Documents shown roots type r') : ∀ root ∈ roots, less root.prop = shown root.prop := by
  have hreading : r = r' := Option.some.inj (hless.read.symm.trans h.read)
  have hlines := hless.lines.symm.trans ((congrArg (·.notes.map Note.lines) hreading).trans h.lines)
  have hsublist : (roots.filter fun root => less root.prop ≠ []).Sublist
      (roots.filter fun root => shown root.prop ≠ []) := by
    refine List.monotone_filter_right roots fun root hroot => ?_
    have hless := of_decide_eq_true hroot
    exact decide_eq_true fun hshown => hless (List.subset_nil.1 (hshown ▸ hsubset root.prop))
  have hlength := congrArg List.length hlines
  rw [List.length_map, List.length_map] at hlength
  rw [hsublist.eq_of_length hlength, List.map_inj_left] at hlines
  intro root hroot
  by_cases hnone : shown root.prop = []
  · rw [hnone]
    exact List.subset_nil.1 (hnone ▸ hsubset root.prop)
  · exact hlines root (List.mem_filter.2 ⟨hroot, decide_eq_true hnone⟩)

end

/-- properties without parts have an object type under lenient settings -/
theorem exists_literalType_of_flat {config : Config} (hlenient : config.strict = false)
    {props : List Property} {roots : List PropertyNode}
    (hroots : (nest config.strict props).outcome = .ok roots)
    (hflat : ∀ root ∈ roots, root.children = []) :
    ∃ type, (literalType config props).outcome = .ok type := by
  have htypes := partTypes_nullJustIf fun root (_ : root ∈ roots) => root.type_nullJustIf hlenient
  rcases htypes with ⟨⟨root, hroot, node, hin, hnull⟩, -⟩ | ⟨-, types, htypes, -⟩
  · have hchildren := hflat root hroot
    cases hin with
    | root => exact absurd hchildren hnull.1
    | part hchild =>
      rw [hchildren] at hchild
      cases hchild
  · rw [literalType, Run.bind_of_ok _ hroots]
    rw [Run.bind_of_ok _ htypes]
    exact ⟨_, rfl⟩

/-- Declared properties whose roots have no name twice: without parts they have an object type.  Of any
object type that is found, with parts or without, if its text without doc comments holds no `/**` (as a
name could bring in), the text is read as that of the type without doc comments and a comment for each
root that has lines written, with these lines and in front of its member, just as long as none of the
lines ends a comment.  These are all lines that are declared just if no default value is left out for
what it is and no declared comment is a lone empty line. -/
theorem literalType_comments {config : Config} {props : List Property} {roots : List PropertyNode}
    (hroots : (nest config.strict props).outcome = .ok roots)
    (hnames : (roots.map (·.name)).Nodup) :
    (config.strict = false → (∀ root ∈ roots, root.children = []) →
      ∃ type, (literalType config props).outcome = .ok type) ∧
    ∀ type, (literalType config props).outcome = .ok type →
      ¬opening <:+: type.withoutDocs.text.toList →
      ((∃ r, Documents Property.writtenLines roots type r) ↔
        ∀ root ∈ roots, ∀ line ∈ root.prop.writtenLines, ¬closing <:+: line) ∧
      ((∃ r, Documents Property.declaredLines roots type r) ↔
        ∀ root ∈ roots, (∀ line ∈ root.prop.declaredLines, ¬closing <:+: line) ∧
          (root.prop.defaultValue = .null ∨ root.prop.defaultValue.isTruthy = true) ∧
          root.prop.declaredLines ≠ [[]]) := by
  refine ⟨fun hlenient hflat => exists_literalType_of_flat hlenient hroots hflat, ?_⟩
  intro type htype hplain
  obtain ⟨found, types, hfound, htypes, hrecord⟩ := literalType_of_ok htype
  cases hroots.symm.trans hfound
  obtain ⟨htext, hbare⟩ := hrecord.text_own hnames htypes.length_eq
  have hlength : roots.length = (types.map TsType.text).length := by
    rw [List.length_map]
    exact htypes.length_eq
  have hwritten := documents_written hlength htext hbare hplain
  refine ⟨⟨fun ⟨r, hr⟩ => hr.closing_not_infix, hwritten⟩, ?_, ?_⟩
  · rintro ⟨r, hr⟩
    have hclosing := hr.closing_not_infix
    obtain ⟨r', hr'⟩ := hwritten fun root hroot line hline =>
      hclosing root hroot line (root.prop.writtenLines_subset hline)
    have hsame := hr'.shown_eq Property.writtenLines_subset hr
    intro root hroot
    exact ⟨hclosing root hroot, root.prop.writtenLines_eq_declaredLines_iff.1 (hsame root hroot)⟩
  · intro hdeclared
    have hsame : ∀ root ∈ roots, root.prop.writtenLines = root.prop.declaredLines :=
      fun root hroot => root.prop.writtenLines_eq_declaredLines_iff.2 (hdeclared root hroot).2
    obtain ⟨r, hr⟩ := hwritten fun root hroot line hline =>
      (hdeclared root hroot).1 line (root.prop.writtenLines_subset hline)
    exact ⟨r, hr.of_eq hsame⟩

/-- a description of several lines with an array as the default value, and a root without a comment -/
theorem literalType_comments_of_lines :
    let config : Config := {}
    let props : List Property :=
      [{ name := some "a", type := some [some "number[]"], optional := true,
          description := some " first \r\n\n/** last ", defaultValue := .array [.int 0, .text "*"] },
        { name := some "b", type := some [none, some "B"] }]
    ∃ roots type, (nest config.strict props).outcome = .ok roots ∧ (roots.map (·.name)).Nodup ∧
      (literalType config props).outcome = .ok type ∧
      ¬opening <:+: type.withoutDocs.text.toList ∧
      ((∃ r, Documents Property.writtenLines roots type r) ↔
        ∀ root ∈ roots, ∀ line ∈ root.prop.writtenLines, ¬closing <:+: line) ∧
      ((∃ r, Documents Property.declaredLines roots type r) ↔
        ∀ root ∈ roots, (∀ line ∈ root.prop.declaredLines, ¬closing <:+: line) ∧
          (root.prop.defaultValue = .null ∨ root.prop.defaultValue.isTruthy = true) ∧
          root.prop.declaredLines ≠ [[]]) := by
  intro config props
  have hroots : (nest config.strict props).outcome = .ok (rootsAfter [] (declared props)) := rfl
  have hnames : ((rootsAfter [] (declared props)).map (·.name)).Nodup := by decide +kernel
  have hflat : ∀ root ∈ rootsAfter [] (declared props), root.children = [] := by decide +kernel
  obtain ⟨hfound, hcomments⟩ := @literalType_comments config _ _ hroots hnames
  obtain ⟨type, htype⟩ := hfound rfl hflat
  have hplain : ¬opening <:+: type.withoutDocs.text.toList := by
    have htext : (literalType config props).outcome.toOption.map (·.withoutDocs.text)
        = some "\x7b\n    a?: number[];\n    b: any | B;\n\x7d" := by decide +kernel
    rw [htype] at htext
    have htext : type.withoutDocs.text = _ := Option.some.inj htext
    rw [htext]
    decide +kernel
  exact ⟨_, type, hroots, hnames, htype, hplain, hcomments type htype hplain⟩

/-- a default value of zero is not told, and one that holds `*/` ends its comment -/
theorem not_documents_of_default :
    let config : Config := {}
    let props (value : Json) : List Property :=
      [{ name := some "a", type := some [some "string"], defaultValue := value }]
    ∀ value ∈ [Json.int 0, .text "src/**/*.js"], ∃ roots type,
      (nest config.strict (props value)).outcome = .ok roots ∧
      (literalType config (props value)).outcome = .ok type ∧
      ∀ r, ¬Documents Property.declaredLines roots type r := by
  intro config props
  refine List.forall_mem_cons.2 ⟨?_, List.forall_mem_singleton.2 ?_⟩
  · refine ⟨_, .object [⟨"a", .keyword .string⟩] .empty none false [], rfl, rfl, fun r h => ?_⟩
    have hnone : (Commented.read (TsType.object [⟨"a", .keyword .string⟩] .empty none false
        []).text.toList).map (·.notes.length) = some 0 := by decide +kernel
    rw [h.read] at hnone
    have hshown := h.place.length_eq.trans (Option.some.inj hnone)
    exact absurd hshown (by decide +kernel)
  · refine ⟨_, .object [⟨"a", .keyword .string⟩] .empty none false _, rfl, rfl, fun r h => ?_⟩
    have hclosing := h.closing_not_infix _ (List.mem_singleton_self _) _ (List.mem_singleton_self _)
    exact hclosing (by decide +kernel)

end DocTypes
