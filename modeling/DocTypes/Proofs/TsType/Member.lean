import DocTypes.TsType.Printer

/-!
# The members of an object type

On several lines an object type is written as its members, each on a line of its own, below its doc
comment if it has one.  The marks of a member are looked up under its name: it is optional if its name
is among the optional names, and of the comments for its name the last one counts.

* `Member`             a member as it is written;
* `recordText`         the text that members form;
* `TsType.text_record` the members of an object type.
-/

namespace DocTypes

/-- a member as it is written; an empty comment stands for none -/
structure Member where
  name : String
  optional : Bool
  type : String
  comment : String
  deriving DecidableEq

namespace Member

def declaration (m : Member) : String := m.name ++ optionalMark m.optional ++ ": " ++ m.type

def commentLines (m : Member) : List String :=
  if m.comment = "" then [] else DocTypes.commentLines m.comment

def lines (m : Member) : List String := m.commentLines ++ ["    " ++ m.declaration ++ ";"]

end Member

/-- the text of a record with a member per line -/
def recordText (members : List Member) : String :=
  if members.isEmpty then "\x7b\x7d"
  else "\n".intercalate (["\x7b"] ++ members.flatMap Member.lines ++ ["\x7d"])

theorem recordText_cons (m : Member) (members : List Member) : recordText (m :: members)
    = "\n".intercalate (["\x7b"] ++ (m :: members).flatMap Member.lines ++ ["\x7d"]) := rfl

namespace TsType

/-- the member of a name, with the marks that are found under it -/
def memberNamed (optional : NameSet) (docs : List (String × String)) (name type : String) : Member :=
  ⟨name, name ∈ optional, type, (docFor docs name).getD ""⟩

def memberOf (optional : NameSet) (docs : List (String × String)) (p : Named TsType) : Member :=
  memberNamed optional docs p.name p.type.text

variable (optional : NameSet) (docs : List (String × String))

theorem propertyTexts_eq_map (properties : List (Named TsType)) : propertyTexts optional properties
    = properties.map fun p => ⟨some p.name, (memberOf optional docs p).declaration⟩ := by
  induction properties with
  | nil => rfl
  | cons p ps ih =>
    rw [propertyTexts, ih]
    rfl

theorem lines_memberOf (p : Named TsType) :
    MemberText.lines docs ⟨some p.name, (memberOf optional docs p).declaration⟩
      = (memberOf optional docs p).lines := by
  have hlookup : (memberOf optional docs p).comment = (docFor docs p.name).getD "" := rfl
  rw [Member.lines, Member.commentLines, hlookup, MemberText.lines]
  congr 1
  rw [Option.bind_some]
  cases docFor docs p.name with
  | none => rfl
  | some doc =>
    rw [Option.getD_some]
    by_cases h : doc = ""
    · rw [if_pos h, h]
      rfl
    · rw [if_neg h]
      split
      · contradiction
      · rename_i hdoc
        exact absurd (Option.some.inj hdoc) h
      · rename_i hdoc
        rw [Option.some.inj hdoc]

theorem flatMap_lines_memberOf (properties : List (Named TsType)) :
    (propertyTexts optional properties).flatMap (MemberText.lines docs)
      = (properties.map (memberOf optional docs)).flatMap Member.lines := by
  rw [propertyTexts_eq_map optional docs, List.flatMap_map, List.flatMap_map]
  congr 1
  funext p
  exact lines_memberOf optional docs p

/-- an object type on several lines has a member for each property, in order -/
theorem text_record (properties : List (Named TsType)) :
    (object properties optional none false docs).text
      = recordText (properties.map (memberOf optional docs)) := by
  show objectText false docs (propertyTexts optional properties ++ []) = _
  rw [List.append_nil]
  cases properties with
  | nil => rfl
  | cons p ps =>
    have hlines := flatMap_lines_memberOf optional docs (p :: ps)
    show "\n".intercalate (["\x7b"] ++ (propertyTexts optional (p :: ps)).flatMap _ ++ ["\x7d"]) = _
    rw [hlines]
    rfl

end TsType

end DocTypes
