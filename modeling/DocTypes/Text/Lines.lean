/-!
# The lines of a text

A line ends at a line break: a line feed, a carriage return with or without a line feed after it,
a vertical tab, a form feed, one of the separators U+001C to U+001E, U+0085, U+2028 or U+2029.
A break at the very end of the text opens no further line.

* `lines`       the lines of a text, cut at every line break;
* `feedParts`   the parts between its line feeds alone, of which there is always one.
-/

namespace DocTypes.Text

def isLineBreak (c : Char) : Bool :=
  let n := c.toNat
  (0x0A ≤ n && n ≤ 0x0D) || (0x1C ≤ n && n ≤ 0x1E) || n == 0x85 || n == 0x2028 || n == 0x2029

/-- a character put in front of the first line -/
def extendFirst (c : Char) : List (List Char) → List (List Char)
  | [] => [[c]]
  | line :: more => (c :: line) :: more

def lines : List Char → List (List Char)
  | [] => []
  | '\r' :: '\n' :: rest => [] :: lines rest
  | c :: rest => if isLineBreak c then [] :: lines rest else extendFirst c (lines rest)

def feedParts : List Char → List (List Char)
  | [] => [[]]
  | c :: rest => if c = '\n' then [] :: feedParts rest else extendFirst c (feedParts rest)

end DocTypes.Text
