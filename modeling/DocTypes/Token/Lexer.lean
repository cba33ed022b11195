import DocTypes.Token
import DocTypes.Text.Blank

/-!
# From text to tokens

A text is cut at its marks.  What stands between two marks is a word once the blanks at its ends
are taken off; blanks alone make no token.

* `cut`       the characters before the first mark, and the tokens from that mark on;
* `tokenize`  the tokens of a text.
-/

namespace DocTypes

open Text (trim)

/-- the token of the characters between two marks, if they are not all blank -/
def wordToken (cs : List Char) : List Token :=
  match trim cs with
  | [] => []
  | kept => [.word (String.ofList kept)]

/-- the leading characters that are no marks, and the tokens of the rest -/
def cut : List Char → List Char × List Token
  | [] => ([], [])
  | c :: rest =>
    let (word, tokens) := cut rest
    match Mark.ofChar? c with
    | some m => ([], .mark m :: (wordToken word ++ tokens))
    | none => (c :: word, tokens)

def tokenize (text : String) : List Token :=
  let (word, tokens) := cut text.toList
  wordToken word ++ tokens

end DocTypes
