import DocTypes.Text.Lines
import DocTypes.TsType

/-!
# Declared types as text

A union or a function stands in parentheses before `[]`, and a function as a member of a union.
An object type is written on one line or, with doc comments, one property per line.

* `TsType.text`  the text of a type.
-/

namespace DocTypes

/-- arguments between angle brackets, nothing if there are none -/
def argumentText (args : List String) : String :=
  if args.isEmpty then "" else "<" ++ ", ".intercalate args ++ ">"

/-- a member of an object type: the property it declares, if any, and its text -/
structure MemberText where
  property : Option String
  text : String

/-- the doc comment of a property; of several texts for one name the last counts -/
def docFor (docs : List (String × String)) (name : String) : Option String :=
  docs.reverse.lookup name

def commentLines (doc : String) : List String :=
  let lines := (Text.feedParts doc.toList).map String.ofList
  ["    /**"] ++ lines.map ("     * " ++ ·) ++ ["     */"]

/-- the lines of a member with its doc comment, which an empty text does not make -/
def MemberText.lines (docs : List (String × String)) (m : MemberText) : List String :=
  let comment := match m.property.bind (docFor docs) with
    | none | some "" => []
    | some doc => commentLines doc
  comment ++ ["    " ++ m.text ++ ";"]

def objectText (singleLine : Bool) (docs : List (String × String)) (members : List MemberText) :
    String :=
  if members.isEmpty then "\x7b\x7d"
  else if singleLine then "\x7b " ++ ", ".intercalate (members.map (·.text)) ++ " \x7d"
  else "\n".intercalate (["\x7b"] ++ members.flatMap (MemberText.lines docs) ++ ["\x7d"])

def parenthesized (s : String) : String := "(" ++ s ++ ")"

def optionalMark (optional : Bool) : String := if optional then "?" else ""

namespace TsType

mutual
def text : TsType → String
  | keyword k => k.text
  | this => "this"
  | reference name args => name ++ argumentText (texts args)
  | array element =>
    (if element.isCompound then parenthesized element.text else element.text) ++ "[]"
  | union members => " | ".intercalate (memberTexts members)
  | function params result rest =>
    "(" ++ ", ".intercalate (paramTexts params ++ restTexts rest) ++ ") => " ++ result.text
  | object properties optional index singleLine docs =>
    objectText singleLine docs (propertyTexts optional properties ++ indexTexts index)
  | query target => "typeof " ++ target
  | imported path qualifier args =>
    "import(\"" ++ path ++ "\")." ++ qualifier ++ argumentText (texts args)
def texts : List TsType → List String
  | [] => []
  | t :: ts => t.text :: texts ts
/-- the members of a union -/
def memberTexts : List TsType → List String
  | [] => []
  | t :: ts => (if t.isFunction then parenthesized t.text else t.text) :: memberTexts ts
def paramTexts : List (Param TsType) → List String
  | [] => []
  | ⟨⟨name, type⟩, optional⟩ :: ps =>
    (name ++ optionalMark optional ++ ": " ++ type.text) :: paramTexts ps
def restTexts : Option (Named TsType) → List String
  | none => []
  | some ⟨name, type⟩ =>
    ["..." ++ name ++ ": " ++ (if type.isCompound then parenthesized type.text else type.text)
      ++ "[]"]
def propertyTexts (optional : NameSet) : List (Named TsType) → List MemberText
  | [] => []
  | ⟨name, type⟩ :: ps =>
    ⟨some name, name ++ optionalMark (decide (name ∈ optional)) ++ ": " ++ type.text⟩
      :: propertyTexts optional ps
def indexTexts : Option (TsType × TsType) → List MemberText
  | none => []
  | some (key, value) => [⟨none, "[key: " ++ key.text ++ "]: " ++ value.text⟩]
end

theorem texts_eq_map (ts : List TsType) : texts ts = ts.map text := by
  induction ts with
  | nil => rfl
  | cons t ts ih => simp [texts, ih]

end TsType

end DocTypes
