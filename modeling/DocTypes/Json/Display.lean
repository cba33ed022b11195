import DocTypes.Json
import DocTypes.Text.Quoted
import DocTypes.Decimal.Layout

/-!
# Values as shown in a comment

A doc comment shows a default value in a reader's form: the truth values and null as words with a
capital, a text as it is, and inside arrays and objects as a quoted text.

* `Json.display`  the form of a value that stands alone;
* `Json.nested`   its form inside another value.
-/

namespace DocTypes.Json

def shownLayout : Decimal.Layout := ⟨-4, 16, "inf", "nan"⟩

mutual
def nested : Json → String
  | null => "None"
  | bool b => if b then "True" else "False"
  | int n => toString n
  | float x => shownLayout.write x
  | text s => Text.quoted s
  | array items => "[" ++ ", ".intercalate (nestedItems items) ++ "]"
  | object entries => "\x7b" ++ ", ".intercalate (nestedEntries entries) ++ "\x7d"
def nestedItems : List Json → List String
  | [] => []
  | item :: items => nested item :: nestedItems items
def nestedEntries : List (String × Json) → List String
  | [] => []
  | (key, item) :: entries => (Text.quoted key ++ ": " ++ nested item) :: nestedEntries entries
end

def display : Json → String
  | text s => s
  | value => nested value

end DocTypes.Json
