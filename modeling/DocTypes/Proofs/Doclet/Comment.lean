import DocTypes.Doclet.Comment
import DocTypes.Proofs.Text.Lines

/-!
# The lines of a doc comment

The comment of a property is written with the lines of its description and those of its default value.
A default value that does not count as such is left out, and a comment that would be one empty line is
not written at all; otherwise all is written that the property declares.

* `Property.writtenLines`, `Property.declaredLines`  the lines that are written, and all that are
  declared;
* `Property.writtenLines_eq`                    what the written lines are;
* `Property.writtenLines_eq_declaredLines_iff`  when nothing declared is missing.
-/

namespace DocTypes.Property

/-- the lines that the comment is written with, none if there is no comment -/
def writtenLines (p : Property) : List (List Char) :=
  if p.comment = "" then [] else Text.feedParts p.comment.toList

def defaultText (p : Property) : List Char := ("@defaultValue " ++ p.defaultValue.display).toList

/-- the lines of the description, and those of a default value if it is not null -/
def declaredLines (p : Property) : List (List Char) :=
  p.descriptionLines.map String.toList
    ++ if p.defaultValue = .null then [] else Text.feedParts p.defaultText

/-- the lines of the description, and those of a default value that counts as such -/
def countedLines (p : Property) : List (List Char) :=
  p.descriptionLines.map String.toList
    ++ if p.defaultValue.isTruthy then Text.feedParts p.defaultText else []

variable (p : Property)

theorem comment_eq_empty_iff : p.comment = "" ↔ p.writtenLines = [] := by
  unfold writtenLines
  split
  · rename_i h
    exact iff_of_true h rfl
  · rename_i h
    exact iff_of_false h (Text.feedParts_ne_nil _)

theorem writtenLines_of_comment (h : p.comment ≠ "") :
    p.writtenLines = Text.feedParts p.comment.toList := if_neg h

theorem feed_not_mem_descriptionLines : ∀ line ∈ p.descriptionLines, '\n' ∉ line.toList := by
  intro line hline hfeed
  obtain ⟨raw, hraw, rfl⟩ := List.mem_map.1 hline
  rw [String.toList_ofList] at hfeed
  exact Text.feed_not_mem_lines _ raw hraw (Text.mem_of_mem_trim hfeed)

theorem countedLines_eq :
    p.countedLines = ((p.descriptionLines ++ p.defaultLines).map String.toList).flatMap
      Text.feedParts := by
  rw [List.map_append, List.flatMap_append,
    Text.flatMap_feedParts p.feed_not_mem_descriptionLines, countedLines, defaultLines]
  congr 1
  split
  · exact (List.append_nil _).symm
  · rfl

/-- the parts of a comment that is not empty -/
theorem feedParts_comment (h : p.descriptionLines ++ p.defaultLines ≠ []) :
    Text.feedParts p.comment.toList = p.countedLines := by
  rw [countedLines_eq, comment, String.toList_intercalate]
  exact Text.feedParts_intercalate (mt List.map_eq_nil_iff.1 h)

theorem writtenLines_eq :
    p.writtenLines = if p.countedLines = [[]] then [] else p.countedLines := by
  by_cases hlines : p.descriptionLines ++ p.defaultLines = []
  · have hcomment : p.comment = "" := by
      rw [comment, hlines]
      rfl
    have hcounted : p.countedLines = [] := by
      rw [countedLines_eq, hlines]
      rfl
    rw [p.comment_eq_empty_iff.1 hcomment, hcounted]
    rfl
  · have hparts := p.feedParts_comment hlines
    have hempty : p.comment = "" ↔ Text.feedParts p.comment.toList = [[]] := by
      constructor
      · intro hcomment
        rw [hcomment]
        rfl
      · intro hempty
        exact String.toList_inj.1 (Text.eq_append_of_feedParts hempty)
    rw [writtenLines, ← hparts]
    exact ite_congr (propext hempty) (fun _ => rfl) fun _ => rfl

theorem ne_null_of_isTruthy {value : Json} (h : value.isTruthy = true) : value ≠ .null := by
  rintro rfl
  cases h

theorem countedLines_subset : p.countedLines ⊆ p.declaredLines := by
  refine List.append_subset.2 ⟨List.subset_append_left _ _, ?_⟩
  split
  · rename_i htruthy
    rw [declaredLines, if_neg (ne_null_of_isTruthy htruthy)]
    exact List.subset_append_right _ _
  · exact List.nil_subset _

theorem writtenLines_subset : p.writtenLines ⊆ p.declaredLines := by
  rw [writtenLines_eq]
  split
  · exact List.nil_subset _
  · exact p.countedLines_subset

/-- all declared lines are written, except those of a default value that does not count as such, and a
lone empty line -/
theorem writtenLines_eq_declaredLines_iff :
    p.writtenLines = p.declaredLines ↔
      (p.defaultValue = .null ∨ p.defaultValue.isTruthy = true) ∧ p.declaredLines ≠ [[]] := by
  rw [writtenLines_eq]
  by_cases hcounts : p.defaultValue = .null ∨ p.defaultValue.isTruthy = true
  · have hsame : p.countedLines = p.declaredLines := by
      rw [countedLines, declaredLines]
      rcases hcounts with hnull | htruthy
      · rw [hnull]
        rfl
      · rw [if_pos htruthy, if_neg (ne_null_of_isTruthy htruthy)]
    rw [hsame, and_iff_right hcounts]
    split
    · rename_i hempty
      rw [hempty]
      exact iff_of_false nofun fun h => h rfl
    · rename_i hempty
      exact iff_of_true rfl hempty
  · refine iff_of_false (fun h => ?_) fun h => hcounts h.1
    obtain ⟨hnull, htruthy⟩ := not_or.1 hcounts
    have hlonger : p.countedLines.length < p.declaredLines.length := by
      have hdefault := List.length_pos_iff.2 (Text.feedParts_ne_nil p.defaultText)
      rw [countedLines, declaredLines, if_neg htruthy, if_neg hnull, List.length_append,
        List.length_append]
      exact Nat.add_lt_add_left hdefault _
    have hlength := congrArg List.length h
    split at hlength
    · rw [← hlength] at hlonger
      exact absurd hlonger (Nat.not_lt_zero _)
    · exact absurd hlength (Nat.ne_of_lt hlonger)

end DocTypes.Property
