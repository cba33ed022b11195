import DocTypes.Text.Printable

/-!
# Quoted text

A text inside a larger value is shown between single quotes, or between double quotes if it holds
a single quote and no double one.  The quote in use and the backslash are written with a backslash
before them, the tab and the two line ends by a letter, and any other character that is not
printable by its hexadecimal code with two, four or eight digits.
-/

namespace DocTypes.Text

def quoteFor (cs : List Char) : Char :=
  if cs.contains '\'' && !cs.contains '"' then '"' else '\''

def hexEscape (letter : Char) (width n : Nat) : List Char :=
  let digits := Nat.toDigits 16 n
  '\\' :: letter :: (List.replicate (width - digits.length) '0' ++ digits)

def shown (q c : Char) : List Char :=
  if c = q || c = '\\' then ['\\', c]
  else match c with
    | '\t' => ['\\', 't']
    | '\n' => ['\\', 'n']
    | '\r' => ['\\', 'r']
    | c =>
      let n := c.toNat
      if isPrintable c then [c]
      else if n < 0x100 then hexEscape 'x' 2 n
      else if n < 0x10000 then hexEscape 'u' 4 n
      else hexEscape 'U' 8 n

def quoted (s : String) : String :=
  let cs := s.toList
  let q := quoteFor cs
  String.ofList (q :: (cs.flatMap (shown q) ++ [q]))

end DocTypes.Text
