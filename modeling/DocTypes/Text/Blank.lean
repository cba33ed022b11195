/-!
# Blanks around a word

A blank is a character that may stand before or after a word without being part of it: the
Unicode white space, and the four information separators U+001C to U+001F.

* `trim`      a text without the blanks at its two ends;
* `stripped`  the same on strings.
-/

namespace DocTypes.Text

/-- the blanks; zero-width characters are not among them -/
def isBlank (c : Char) : Bool :=
  let n := c.toNat
  (0x09 ≤ n && n ≤ 0x0D) || (0x1C ≤ n && n ≤ 0x20) || n == 0x85 || n == 0xA0 || n == 0x1680
    || (0x2000 ≤ n && n ≤ 0x200A) || n == 0x2028 || n == 0x2029 || n == 0x202F || n == 0x205F
    || n == 0x3000

def trimStart (cs : List Char) : List Char := cs.dropWhile isBlank

def trimEnd (cs : List Char) : List Char := (trimStart cs.reverse).reverse

def trim (cs : List Char) : List Char := trimEnd (trimStart cs)

def stripped (s : String) : String := String.ofList (trim s.toList)

end DocTypes.Text
