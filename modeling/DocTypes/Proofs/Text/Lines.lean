import DocTypes.Text.Blank
import DocTypes.Text.Lines

/-!
# Texts cut into lines

Line feeds alone cut a text into parts without any, of which there is at least one; joined by line
feeds again they give the text.  The lines of a text, which are cut at other breaks as well, have no
line feed in them either, and taking blanks off does not add one.

* `feedParts_append_feed`   a line feed parts what is before it from what is behind it;
* `feedParts_flatMap`       lines, each behind a line feed, are found again;
* `eq_append_of_feedParts`  a text is what its parts make up;
* `feedParts_intercalate`   texts joined by line feeds are cut one by one.
-/

namespace DocTypes.Text

theorem feedParts_ne_nil (cs : List Char) : feedParts cs ≠ [] := by
  cases cs with
  | nil => exact List.cons_ne_nil _ _
  | cons c cs =>
    unfold feedParts
    split
    · exact List.cons_ne_nil _ _
    · cases feedParts cs <;> exact List.cons_ne_nil _ _

theorem extendFirst_append (c : Char) {parts : List (List Char)} (h : parts ≠ [])
    (more : List (List Char)) : extendFirst c (parts ++ more) = extendFirst c parts ++ more := by
  cases parts with
  | nil => exact absurd rfl h
  | cons part parts => rfl

theorem feedParts_feed (cs : List Char) : feedParts ('\n' :: cs) = [] :: feedParts cs := rfl

theorem feedParts_cons {c : Char} (h : c ≠ '\n') (cs : List Char) :
    feedParts (c :: cs) = extendFirst c (feedParts cs) := if_neg h

theorem feedParts_append_feed (front behind : List Char) :
    feedParts (front ++ '\n' :: behind) = feedParts front ++ feedParts behind := by
  induction front with
  | nil => rfl
  | cons c front ih =>
    rw [List.cons_append]
    by_cases hc : c = '\n'
    · rw [hc, feedParts_feed, ih, feedParts_feed]
      rfl
    · rw [feedParts_cons hc, ih, extendFirst_append c (feedParts_ne_nil front), feedParts_cons hc]

theorem feedParts_of_not_mem {cs : List Char} (h : '\n' ∉ cs) : feedParts cs = [cs] := by
  induction cs with
  | nil => rfl
  | cons c cs ih =>
    obtain ⟨hc, hcs⟩ := not_or.1 (mt List.mem_cons.2 h)
    rw [feedParts_cons (Ne.symm hc), ih hcs]
    rfl

theorem feed_not_mem_feedParts (cs : List Char) : ∀ part ∈ feedParts cs, '\n' ∉ part := by
  induction cs with
  | nil =>
    intro part hpart
    rw [List.mem_singleton.1 hpart]
    exact List.not_mem_nil
  | cons c cs ih =>
    by_cases hc : c = '\n'
    · rw [hc, feedParts_feed]
      exact List.forall_mem_cons.2 ⟨List.not_mem_nil, ih⟩
    · rw [feedParts_cons hc]
      cases hparts : feedParts cs with
      | nil => exact absurd hparts (feedParts_ne_nil cs)
      | cons part parts =>
        rw [hparts] at ih
        obtain ⟨hpart, hmore⟩ := List.forall_mem_cons.1 ih
        refine List.forall_mem_cons.2 ⟨fun hmem => ?_, hmore⟩
        exact (List.mem_cons.1 hmem).elim (Ne.symm hc) hpart

/-- a first line, and lines that each stand behind a line feed -/
theorem feedParts_flatMap {first : List Char} (hfirst : '\n' ∉ first) {lines : List (List Char)}
    (hlines : ∀ line ∈ lines, '\n' ∉ line) :
    feedParts (first ++ lines.flatMap ('\n' :: ·)) = first :: lines := by
  induction lines generalizing first with
  | nil =>
    rw [List.flatMap_nil, List.append_nil]
    exact feedParts_of_not_mem hfirst
  | cons line lines ih =>
    obtain ⟨hline, hlines⟩ := List.forall_mem_cons.1 hlines
    rw [List.flatMap_cons, List.cons_append, feedParts_append_feed, feedParts_of_not_mem hfirst,
      ih hline hlines]
    rfl

/-- a text is the first of its parts, and each of the others behind a line feed -/
theorem eq_append_of_feedParts {cs part : List Char} {parts : List (List Char)}
    (h : feedParts cs = part :: parts) : cs = part ++ parts.flatMap ('\n' :: ·) := by
  induction cs generalizing part parts with
  | nil =>
    cases h
    rfl
  | cons c cs ih =>
    cases hparts : feedParts cs with
    | nil => exact absurd hparts (feedParts_ne_nil cs)
    | cons first more =>
      have hcs := ih hparts
      by_cases hc : c = '\n'
      · rw [hc, feedParts_feed, hparts] at h
        cases h
        rw [hc, hcs]
        rfl
      · rw [feedParts_cons hc, hparts] at h
        cases h
        rw [hcs]
        rfl

theorem infix_of_mem_feedParts {cs part : List Char} (h : part ∈ feedParts cs) : part <:+: cs := by
  cases hparts : feedParts cs with
  | nil => exact absurd hparts (feedParts_ne_nil cs)
  | cons first more =>
    rw [hparts] at h
    rw [eq_append_of_feedParts hparts]
    rcases List.mem_cons.1 h with rfl | hmore
    · exact (List.prefix_append _ _).isInfix
    · have hpart : part <:+: '\n' :: part := (List.suffix_cons '\n' part).isInfix
      have hline : '\n' :: part <:+: more.flatMap ('\n' :: ·) :=
        List.infix_of_mem_flatten (List.mem_map_of_mem hmore)
      exact (hpart.trans hline).trans (List.suffix_append _ _).isInfix

/-- texts joined by line feeds: a first, and the others each behind a line feed -/
theorem intercalate_feed (text : List Char) (texts : List (List Char)) :
    ['\n'].intercalate (text :: texts) = text ++ texts.flatMap ('\n' :: ·) := by
  induction texts generalizing text with
  | nil => simp
  | cons next texts ih =>
    have hjoin : ['\n'].intercalate (text :: next :: texts)
        = text ++ '\n' :: ['\n'].intercalate (next :: texts) := by
      simp [List.intercalate]
    rw [hjoin, ih]
    rfl

theorem feedParts_intercalate {texts : List (List Char)} (h : texts ≠ []) :
    feedParts (['\n'].intercalate texts) = texts.flatMap feedParts := by
  cases texts with
  | nil => exact absurd rfl h
  | cons text texts =>
    rw [intercalate_feed]
    clear h
    induction texts generalizing text with
    | nil =>
      rw [List.flatMap_nil, List.append_nil]
      exact (List.append_nil _).symm
    | cons next texts ih =>
      rw [List.flatMap_cons, List.cons_append, feedParts_append_feed, ih]
      rfl

/-- lines without a line feed are cut no further -/
theorem flatMap_feedParts {lines : List String} (h : ∀ line ∈ lines, '\n' ∉ line.toList) :
    (lines.map String.toList).flatMap feedParts = lines.map String.toList := by
  induction lines with
  | nil => rfl
  | cons line lines ih =>
    obtain ⟨hline, hlines⟩ := List.forall_mem_cons.1 h
    rw [List.map_cons, List.flatMap_cons, ih hlines, feedParts_of_not_mem hline]
    rfl

theorem feed_not_mem_lines (cs : List Char) : ∀ line ∈ lines cs, '\n' ∉ line := by
  fun_induction lines cs with
  | case1 => nofun
  | case2 rest ih => exact List.forall_mem_cons.2 ⟨List.not_mem_nil, ih⟩
  | case3 c rest _ hbreak ih => exact List.forall_mem_cons.2 ⟨List.not_mem_nil, ih⟩
  | case4 c rest _ hbreak ih =>
    have hc : '\n' ≠ c := by
      rintro rfl
      exact hbreak (by decide)
    cases hlines : lines rest with
    | nil =>
      refine List.forall_mem_singleton.2 fun hmem => ?_
      exact hc (List.mem_singleton.1 hmem)
    | cons line more =>
      rw [hlines] at ih
      obtain ⟨hline, hmore⟩ := List.forall_mem_cons.1 ih
      refine List.forall_mem_cons.2 ⟨fun hmem => ?_, hmore⟩
      exact (List.mem_cons.1 hmem).elim hc hline

theorem mem_of_mem_trim {c : Char} {cs : List Char} (h : c ∈ trim cs) : c ∈ cs := by
  have hstart {cs : List Char} (h : c ∈ trimStart cs) : c ∈ cs :=
    (List.dropWhile_sublist isBlank).mem h
  rw [trim, trimEnd, List.mem_reverse] at h
  exact hstart (List.mem_reverse.1 (hstart h))

end DocTypes.Text
