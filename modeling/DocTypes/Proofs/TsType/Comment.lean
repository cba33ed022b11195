import DocTypes.Proofs.Text.Lines
import DocTypes.Proofs.Token.Written
import DocTypes.Proofs.TsType.Member
import Mathlib.Data.List.Forall2

/-!
# Comments in the text of a record

A comment runs from `/**` to the first `*/` behind it.  A text is read as code with comments in it, and
without them, and without the blanks in front of each, it is the code alone.

The comment of a member is written on lines of its own, with a star at the start of each.  It is read back
with the lines it was written with, and in front of its own member, as long as none of these lines holds a
`*/` and no member looks as if it began a comment.

* `Commented`                  code with comments;
* `Commented.read`             a text as code with comments;
* `Commented.read_append`, `Commented.readComment_append`  code and a comment, with more behind them;
* `Commented.closing_not_infix` no comment that is read holds `*/`;
* `Commented.ofMembers`        the members of a record, with their comments;
* `Commented.read_recordText`  the text of a record is read as its members.
-/

namespace DocTypes

/-- a comment, with the code behind it up to the next one -/
structure Note where
  body : List Char
  code : List Char

/-- code up to the first comment, and the comments -/
structure Commented where
  front : List Char
  notes : List Note

namespace Commented

/-! ## reading -/

def opening : List Char := ['/', '*', '*']

def closing : List Char := ['*', '/']

/-- code in front of all -/
def behind (cs : List Char) (r : Commented) : Commented := { r with front := cs ++ r.front }

/-- a comment in front of all -/
def below (body : List Char) (r : Commented) : Commented := ⟨[], ⟨body, r.front⟩ :: r.notes⟩

mutual
/-- the code and the comments of a text, if each comment ends -/
def read : List Char → Option Commented
  | [] => some ⟨[], []⟩
  | '/' :: '*' :: '*' :: rest => (readComment rest).map fun (body, r) => r.below body
  | c :: rest => (read rest).map (behind [c])
/-- the rest of a comment, and what is behind it -/
def readComment : List Char → Option (List Char × Commented)
  | [] => none
  | '*' :: '/' :: rest => (read rest).map fun r => ([], r)
  | c :: rest => (readComment rest).map fun (body, r) => (c :: body, r)
end

/-- the code, where each comment is taken out with the blanks in front of it -/
def codeFrom (front : List Char) : List Note → List Char
  | [] => front
  | note :: notes => Text.trimEnd front ++ codeFrom note.code notes

def code (r : Commented) : List Char := codeFrom r.front r.notes

end Commented

/-- a line of a comment without the blanks, the star and the blank that it begins with -/
def unstarred (line : List Char) : List Char := (Text.trimStart line).drop 2

/-- the lines of a comment between its first and its last -/
def Note.lines (note : Note) : List (List Char) :=
  ((Text.feedParts note.body).drop 1).dropLast.map unstarred

theorem Note.infix_body {note : Note} : ∀ line ∈ note.lines, line <:+: note.body := by
  intro line hline
  obtain ⟨part, hpart, rfl⟩ := List.mem_map.1 hline
  have hmem : part ∈ Text.feedParts note.body := List.mem_of_mem_drop (List.dropLast_subset _ hpart)
  have hstart : Text.trimStart part <:+ part := List.dropWhile_suffix _
  have hsuffix : unstarred part <:+ part := (List.drop_suffix 2 _).trans hstart
  exact hsuffix.isInfix.trans (Text.infix_of_mem_feedParts hmem)

namespace Commented

theorem behind_behind (a b : List Char) (r : Commented) : behind a (behind b r) = behind (a ++ b) r := by
  rw [behind, behind, behind, List.append_assoc]

theorem read_opening (rest : List Char) :
    read (opening ++ rest) = (readComment rest).map fun (body, r) => r.below body := by
  show read ('/' :: '*' :: '*' :: rest) = _
  rw [read]

theorem read_cons {c : Char} {rest : List Char} (h : ¬opening <+: c :: rest) :
    read (c :: rest) = (read rest).map (behind [c]) := by
  rw [read]
  rintro rest rfl rfl
  exact h ⟨rest, rfl⟩

theorem readComment_closing (rest : List Char) :
    readComment (closing ++ rest) = (read rest).map fun r => ([], r) := by
  show readComment ('*' :: '/' :: rest) = _
  rw [readComment]

theorem readComment_cons {c : Char} {rest : List Char} (h : ¬closing <+: c :: rest) :
    readComment (c :: rest) = (readComment rest).map fun (body, r) => (c :: body, r) := by
  rw [readComment]
  rintro rest rfl rfl
  exact h ⟨rest, rfl⟩

/-- code in which no comment begins, with more behind its last character -/
theorem read_append {front : List Char} (h : ¬opening <:+: front) (last : Char)
    (hslash : last ≠ '/') (hstar : last ≠ '*') (rest : List Char) :
    read (front ++ last :: rest) = (read rest).map (behind (front ++ [last])) := by
  induction front with
  | nil =>
    refine read_cons fun hstart => ?_
    exact hslash (List.cons_prefix_cons.1 hstart).1.symm
  | cons c front ih =>
    have hbegin : ¬opening <+: c :: (front ++ last :: rest) := by
      intro hopens
      -- an opening cannot reach the last character, so it would lie in the front
      obtain ⟨rfl, hsecond⟩ := List.cons_prefix_cons.1 hopens
      match front with
      | [] => exact hstar (List.cons_prefix_cons.1 hsecond).1.symm
      | [second] =>
        have hthird := (List.cons_prefix_cons.1 hsecond).2
        exact hstar (List.cons_prefix_cons.1 hthird).1.symm
      | second :: third :: front =>
        obtain ⟨rfl, hthird⟩ := List.cons_prefix_cons.1 hsecond
        obtain ⟨rfl, -⟩ := List.cons_prefix_cons.1 hthird
        exact h ⟨[], front, rfl⟩
    have hfront : ¬opening <:+: front := fun hwithin => h (hwithin.trans (List.suffix_cons c front).isInfix)
    rw [List.cons_append, read_cons hbegin, ih hfront, Option.map_map]
    rfl

/-- a comment that is not closed before its end -/
theorem readComment_append {body : List Char} (h : ¬closing <:+: body) (rest : List Char) :
    readComment (body ++ (closing ++ rest)) = (read rest).map fun r => (body, r) := by
  induction body with
  | nil => exact readComment_closing rest
  | cons c body ih =>
    have hbegin : ¬closing <+: c :: (body ++ (closing ++ rest)) := by
      intro hcloses
      obtain ⟨rfl, hsecond⟩ := List.cons_prefix_cons.1 hcloses
      cases body with
      | nil => exact absurd (List.cons_prefix_cons.1 hsecond).1 (by decide)
      | cons d body =>
        obtain ⟨rfl, -⟩ := List.cons_prefix_cons.1 hsecond
        exact h ⟨[], body, rfl⟩
    have hbody : ¬closing <:+: body := fun hwithin => h (hwithin.trans (List.suffix_cons c body).isInfix)
    rw [List.cons_append, readComment_cons hbegin, ih hbody, Option.map_map]
    rfl

/-- a comment that is read is not closed before its end -/
theorem exists_of_readComment {cs body : List Char} {r : Commented}
    (h : readComment cs = some (body, r)) :
    ∃ rest, cs = body ++ (closing ++ rest) ∧ ¬closing <:+: body ∧ read rest = some r := by
  induction cs generalizing body with
  | nil =>
    rw [readComment] at h
    cases h
  | cons c cs ih =>
    by_cases hcloses : closing <+: c :: cs
    · obtain ⟨rest, hrest⟩ := hcloses
      rw [← hrest, readComment_closing] at h
      obtain ⟨r', hread, heq⟩ := Option.map_eq_some_iff.1 h
      cases heq
      exact ⟨rest, hrest.symm, by decide, hread⟩
    · rw [readComment_cons hcloses] at h
      obtain ⟨⟨body', r'⟩, hread, heq⟩ := Option.map_eq_some_iff.1 h
      cases heq
      obtain ⟨rest, rfl, hbody, hrest⟩ := ih hread
      refine ⟨rest, rfl, fun hwithin => ?_, hrest⟩
      rcases List.infix_cons_iff.1 hwithin with hstart | hwithin
      · exact hcloses (hstart.trans (List.prefix_append (c :: body') _))
      · exact hbody hwithin

/-- no comment that is read holds the end of a comment -/
theorem closing_not_infix {cs : List Char} {r : Commented} (h : read cs = some r) :
    ∀ note ∈ r.notes, ¬closing <:+: note.body := by
  induction hlength : cs.length using Nat.strongRecOn generalizing cs r with
  | ind n ih =>
    subst hlength
    cases cs with
    | nil =>
      rw [read] at h
      cases h
      nofun
    | cons c cs =>
      by_cases hopens : opening <+: c :: cs
      · obtain ⟨rest, hrest⟩ := hopens
        rw [← hrest, read_opening] at h
        obtain ⟨⟨body, r'⟩, hread, rfl⟩ := Option.map_eq_some_iff.1 h
        obtain ⟨behind, rfl, hbody, hbehind⟩ := exists_of_readComment hread
        have hshorter : behind.length < (c :: cs).length := by
          have hopening : opening.length = 3 := rfl
          rw [← hrest, List.length_append, List.length_append, List.length_append]
          omega
        exact List.forall_mem_cons.2 ⟨hbody, ih _ hshorter hbehind rfl⟩
      · rw [read_cons hopens] at h
        obtain ⟨r', hread, rfl⟩ := Option.map_eq_some_iff.1 h
        have hnotes := ih cs.length (Nat.lt_succ_self _) hread rfl
        exact hnotes

/-- the end of a comment does not reach over a character that is no slash -/
theorem closing_infix_append {front : List Char} {c : Char} {rest : List Char} (hc : c ≠ '/')
    (h : closing <:+: front ++ c :: rest) : closing <:+: front ∨ closing <:+: c :: rest := by
  induction front with
  | nil => exact .inr h
  | cons d front ih =>
    rcases List.infix_cons_iff.1 h with hstart | hwithin
    · obtain ⟨rfl, hsecond⟩ := List.cons_prefix_cons.1 hstart
      cases front with
      | nil => exact absurd (List.cons_prefix_cons.1 hsecond).1.symm hc
      | cons e front =>
        obtain ⟨rfl, -⟩ := List.cons_prefix_cons.1 hsecond
        exact .inl ⟨[], front, rfl⟩
    · exact (ih hwithin).imp_left (·.trans (List.suffix_cons d front).isInfix)

/-- nor over a line feed, so it lies in one line -/
theorem closing_infix_flatMap {lines : List (List Char)}
    (h : closing <:+: lines.flatMap ('\n' :: ·)) : ∃ line ∈ lines, closing <:+: line := by
  induction lines with
  | nil => exact absurd (List.infix_nil.1 h) (List.cons_ne_nil _ _)
  | cons line lines ih =>
    have hline (h : closing <:+: '\n' :: line) : closing <:+: line := by
      rcases List.infix_cons_iff.1 h with hstart | hwithin
      · exact absurd (List.cons_prefix_cons.1 hstart).1 (by decide)
      · exact hwithin
    rw [List.exists_mem_cons_iff]
    cases lines with
    | nil =>
      rw [List.flatMap_cons, List.flatMap_nil, List.append_nil] at h
      exact .inl (hline h)
    | cons next lines => exact (closing_infix_append (by decide) h).imp hline ih

end Commented

/-! ## the members of a record -/

open Commented (opening closing)

namespace Member

def commentBody (m : Member) : List Char :=
  ((Text.feedParts m.comment.toList).map ("     * ".toList ++ ·)
    ++ ["     ".toList]).flatMap ('\n' :: ·)

def code (m : Member) : List Char := "\n    ".toList ++ m.declaration.toList ++ [';']

/-- a member with its comment, and with the line feed in front of each line -/
def chars (m : Member) : List Char :=
  (if m.comment = "" then []
    else "\n    ".toList ++ (opening ++ (m.commentBody ++ closing))) ++ m.code

/-- without its comment -/
def bare (m : Member) : Member := { m with comment := "" }

/-- the comment of a member has the lines that it was written with -/
theorem lines_eq {m : Member} {note : Note} (h : note.body = m.commentBody) :
    note.lines = Text.feedParts m.comment.toList := by
  have hfeed : ∀ line ∈ (Text.feedParts m.comment.toList).map ("     * ".toList ++ ·)
      ++ ["     ".toList], '\n' ∉ line := by
    refine List.forall_mem_append.2 ⟨List.forall_mem_map.2 fun part hpart hmem => ?_,
      List.forall_mem_singleton.2 (by decide)⟩
    rcases List.mem_append.1 hmem with hstar | hpart'
    · exact absurd hstar (by decide)
    · exact Text.feed_not_mem_feedParts _ part hpart hpart'
  have hparts := Text.feedParts_flatMap (List.not_mem_nil (a := '\n')) hfeed
  rw [Note.lines, h, commentBody]
  rw [List.nil_append] at hparts
  have hstar : unstarred ∘ ("     * ".toList ++ ·) = id := rfl
  rw [hparts, List.drop_succ_cons, List.drop_zero, List.dropLast_concat, List.map_map, hstar,
    List.map_id]

theorem closing_not_infix_commentBody {m : Member}
    (h : ∀ line ∈ Text.feedParts m.comment.toList, ¬closing <:+: line) :
    ¬closing <:+: m.commentBody := by
  intro hbody
  have hslash : '/' ∈ closing := by decide
  obtain ⟨line, hline, hwithin⟩ := Commented.closing_infix_flatMap hbody
  rcases List.mem_append.1 hline with hstarred | hend
  · obtain ⟨part, hpart, rfl⟩ := List.mem_map.1 hstarred
    have hsplit : closing <:+: "     *".toList ++ ' ' :: part := hwithin
    rcases Commented.closing_infix_append (by decide) hsplit with hstar | hblank
    · exact absurd (hstar.subset hslash) (by decide)
    · rcases List.infix_cons_iff.1 hblank with hstart | hpart'
      · exact absurd (List.cons_prefix_cons.1 hstart).1 (by decide)
      · exact h part hpart hpart'
  · rw [List.mem_singleton.1 hend] at hwithin
    exact absurd (hwithin.subset hslash) (by decide)

theorem flatMap_lines (m : Member) : m.lines.flatMap (fun line => '\n' :: line.toList) = m.chars := by
  have hcode : '\n' :: ("    " ++ m.declaration ++ ";").toList = m.code := by
    rw [String.toList_append, String.toList_append]
    rfl
  have hcomment : (DocTypes.commentLines m.comment).flatMap (fun line => '\n' :: line.toList)
      = "\n    ".toList ++ (opening ++ (m.commentBody ++ closing)) := by
    have hlines : (((Text.feedParts m.comment.toList).map String.ofList).map ("     * " ++ ·)).flatMap
          (fun line => '\n' :: line.toList)
        = ((Text.feedParts m.comment.toList).map ("     * ".toList ++ ·)).flatMap ('\n' :: ·) := by
      rw [List.flatMap_map, List.flatMap_map, List.flatMap_map]
      congr 1
      funext line
      simp only [String.toList_append, String.toList_ofList]
    rw [DocTypes.commentLines, List.flatMap_append, List.flatMap_append, hlines, commentBody,
      List.flatMap_append]
    simp only [List.flatMap_cons, List.flatMap_nil, List.append_assoc]
    rfl
  rw [lines, List.flatMap_append, chars, commentLines]
  congr 1
  · split
    · rfl
    · exact hcomment
  · rw [List.flatMap_cons, List.flatMap_nil, List.append_nil, hcode]

end Member

theorem toList_recordText (m : Member) (ms : List Member) : (recordText (m :: ms)).toList
    = '{' :: ((m :: ms).flatMap Member.chars ++ ['\n', '}']) := by
  have hlines : ((m :: ms).flatMap Member.lines).flatMap (fun line => '\n' :: line.toList)
      = (m :: ms).flatMap Member.chars := by
    rw [List.flatMap_assoc]
    congr 1
    funext m
    exact m.flatMap_lines
  have hmap : (["\x7b"] ++ (m :: ms).flatMap Member.lines ++ ["\x7d"]).map String.toList
      = ['{'] :: (((m :: ms).flatMap Member.lines).map String.toList ++ [['}']]) := by
    rw [List.map_append, List.map_append]
    rfl
  rw [recordText_cons, String.toList_intercalate, hmap]
  show ['\n'].intercalate _ = _
  rw [Text.intercalate_feed, List.flatMap_append, List.flatMap_map, hlines]
  rfl

/-! ## reading the members -/

namespace Commented

/-- a member in front of all, with its comment -/
def ofMember (m : Member) (r : Commented) : Commented :=
  if m.comment = "" then behind m.code r
  else behind "\n    ".toList (below m.commentBody (behind m.code r))

/-- the members of a record up to its end -/
def ofMembers (ms : List Member) : Commented := ms.foldr ofMember ⟨['\n', '}'], []⟩

/-- a member whose code begins no comment, and whose comment is not closed before its end -/
structure Legible (m : Member) : Prop where
  code : ¬opening <:+: m.code
  comment : m.comment ≠ "" → ¬closing <:+: m.commentBody

theorem read_code {m : Member} (h : ¬opening <:+: m.code) (rest : List Char) :
    read (m.code ++ rest) = (read rest).map (behind m.code) := by
  have hfront : ¬opening <:+: "\n    ".toList ++ m.declaration.toList := fun hwithin =>
    h (hwithin.trans (List.prefix_append _ [';']).isInfix)
  have hread := read_append hfront ';' (by decide) (by decide) rest
  have hcode : m.code ++ rest = "\n    ".toList ++ m.declaration.toList ++ ';' :: rest :=
    List.append_assoc _ _ _
  exact (congrArg read hcode).trans hread

theorem read_comment {body : List Char} (h : ¬closing <:+: body) (rest : List Char) :
    read ("\n    ".toList ++ (opening ++ (body ++ closing)) ++ rest)
      = (read rest).map fun r => behind "\n    ".toList (below body r) := by
  have hblanks : ¬opening <:+: "\n   ".toList := by decide
  have hread := read_append hblanks ' ' (by decide) (by decide)
    (opening ++ (body ++ (closing ++ rest)))
  rw [List.append_assoc, List.append_assoc, List.append_assoc]
  refine hread.trans ?_
  rw [read_opening, readComment_append h, Option.map_map, Option.map_map]
  rfl

theorem read_member {m : Member} (h : Legible m) (rest : List Char) :
    read (m.chars ++ rest) = (read rest).map (ofMember m) := by
  unfold Member.chars ofMember
  split
  · exact read_code h.code rest
  · rename_i hcomment
    rw [List.append_assoc, read_comment (h.comment hcomment), read_code h.code, Option.map_map]
    rfl

theorem read_members {ms : List Member} (h : ∀ m ∈ ms, Legible m) :
    read (ms.flatMap Member.chars ++ ['\n', '}']) = some (ofMembers ms) := by
  induction ms with
  | nil => rfl
  | cons m ms ih =>
    obtain ⟨hm, hms⟩ := List.forall_mem_cons.1 h
    rw [List.flatMap_cons, List.append_assoc, read_member hm, ih hms]
    rfl

/-- the text of a record is read as its members, each with its comment in front of it -/
theorem read_recordText {m : Member} {ms : List Member} (h : ∀ n ∈ m :: ms, Legible n) :
    read (recordText (m :: ms)).toList = some (behind ['{'] (ofMembers (m :: ms))) := by
  have hbrace : ¬opening <+: '{' :: ((m :: ms).flatMap Member.chars ++ ['\n', '}']) := fun hstart =>
    absurd (List.cons_prefix_cons.1 hstart).1 (by decide)
  rw [toList_recordText, read_cons hbrace, read_members h]
  rfl

/-- each comment that is read is that of a member, which comes right behind it -/
theorem notes_ofMembers (ms : List Member) :
    List.Forall₂ (fun m note => note.body = m.commentBody ∧ m.code <+: note.code)
      (ms.filter (·.comment ≠ "")) (ofMembers ms).notes := by
  induction ms with
  | nil => exact .nil
  | cons m ms ih =>
    show List.Forall₂ _ _ (ofMember m (ofMembers ms)).notes
    rw [ofMember, List.filter_cons]
    by_cases hcomment : m.comment = ""
    · have hplain : decide (m.comment ≠ "") = false := decide_eq_false (not_not_intro hcomment)
      rw [if_pos hcomment, hplain, if_neg Bool.false_ne_true]
      exact ih
    · rw [if_neg hcomment, if_pos (decide_eq_true hcomment)]
      exact .cons ⟨rfl, List.prefix_append _ _⟩ ih

/-! ## the code alone -/

theorem trimEnd_append_of_blank (front : List Char) {gap : List Char} {last : Char}
    (hlast : Text.isBlank last = false) (hgap : Blank gap) :
    Text.trimEnd (front ++ [last] ++ gap) = front ++ [last] := by
  have hrev : Text.trimStart (front ++ [last]).reverse = (front ++ [last]).reverse := by
    refine trimStart_of_head ⟨last, ?_, hlast⟩
    rw [List.reverse_append]
    rfl
  rw [Text.trimEnd, List.reverse_append,
    trimStart_append_of_blank (fun c hc => hgap c (List.mem_reverse.1 hc)), hrev,
    List.reverse_reverse]

/-- without the comments the members are left, each on a line of its own -/
theorem code_ofMembers (ms : List Member) (front : List Char) (last : Char)
    (hlast : Text.isBlank last = false) : (behind (front ++ [last]) (ofMembers ms)).code
      = front ++ [last] ++ (ms.flatMap Member.code ++ ['\n', '}']) := by
  induction ms generalizing front last with
  | nil => rfl
  | cons m ms ih =>
    have hcode : m.code = "\n    ".toList ++ m.declaration.toList ++ [';'] := rfl
    show (behind (front ++ [last]) (ofMember m (ofMembers ms))).code = _
    rw [ofMember, List.flatMap_cons]
    split
    · have hmore := ih (front ++ [last] ++ ("\n    ".toList ++ m.declaration.toList)) ';' rfl
      rw [behind_behind, hcode]
      simp only [List.append_assoc] at hmore ⊢
      exact hmore
    · have hmore := ih ("\n    ".toList ++ m.declaration.toList) ';' rfl
      have hgap : Blank "\n    ".toList := List.all_eq_true.1 rfl
      have htrim := trimEnd_append_of_blank front hlast hgap
      rw [behind_behind, hcode]
      show Text.trimEnd (front ++ [last] ++ "\n    ".toList ++ []) ++ _ = _
      rw [List.append_nil, htrim]
      show _ ++ (behind ("\n    ".toList ++ m.declaration.toList ++ [';']) (ofMembers ms)).code = _
      rw [hmore]
      simp only [List.append_assoc]

theorem toList_recordText_bare (m : Member) (ms : List Member) :
    (recordText ((m :: ms).map Member.bare)).toList
      = ['{'] ++ ((m :: ms).flatMap Member.code ++ ['\n', '}']) := by
  have hchars : ((m :: ms).map Member.bare).flatMap Member.chars = (m :: ms).flatMap Member.code := by
    rw [List.flatMap_map]
    rfl
  rw [List.map_cons, toList_recordText, ← List.map_cons, hchars]
  rfl

/-- The text of a record is read as its members without their comments, and as the comments, each in
front of its member and with the lines it was written with. -/
theorem exists_read (ms : List Member)
    (hplain : ¬opening <:+: (recordText (ms.map Member.bare)).toList)
    (hcomments : ∀ m ∈ ms, m.comment ≠ "" →
      ∀ line ∈ Text.feedParts m.comment.toList, ¬closing <:+: line) :
    ∃ r, read (recordText ms).toList = some r ∧ r.code = (recordText (ms.map Member.bare)).toList ∧
      List.Forall₂ (fun m note =>
          note.lines = Text.feedParts m.comment.toList ∧ m.code <+: note.code)
        (ms.filter (·.comment ≠ "")) r.notes := by
  cases ms with
  | nil => exact ⟨⟨['{', '}'], []⟩, rfl, rfl, .nil⟩
  | cons m ms =>
    rw [toList_recordText_bare] at hplain ⊢
    have hlegible : ∀ n ∈ m :: ms, Legible n := by
      intro n hn
      refine ⟨fun hopens => hplain ?_, fun hcomment => ?_⟩
      · have hcode : n.code <:+: (m :: ms).flatMap Member.code :=
          List.infix_of_mem_flatten (List.mem_map_of_mem hn)
        exact (hopens.trans hcode).trans (List.infix_append' _ _ _)
      · exact Member.closing_not_infix_commentBody (hcomments n hn hcomment)
    refine ⟨behind ['{'] (ofMembers (m :: ms)), read_recordText hlegible,
      code_ofMembers (m :: ms) [] '{' rfl, ?_⟩
    exact (notes_ofMembers (m :: ms)).imp fun n note h => ⟨Member.lines_eq h.1, h.2⟩

end Commented

end DocTypes
