import DocTypes.Json
import DocTypes.Decimal.Layout

/-!
# Writing JSON

A value is written in Basic Latin characters only: every other character of a text becomes `\u`
and four hexadecimal digits, or two such escapes for a character beyond U+FFFF.

* `Json.compact`   on one line;
* `Json.indented`  one entry per line, four blanks to a level.
-/

namespace DocTypes.Json

/-- how floating-point numbers are written -/
def numberLayout : Decimal.Layout := ⟨-4, 16, "Infinity", "NaN"⟩

/-- `\u` and the four hexadecimal digits of a 16-bit unit -/
def unitEscape (n : Nat) : List Char :=
  let digits := Nat.toDigits 16 n
  '\\' :: 'u' :: (List.replicate (4 - digits.length) '0' ++ digits)

def escaped (c : Char) : List Char :=
  match c with
  | '"' => ['\\', '"']
  | '\\' => ['\\', '\\']
  | '\n' => ['\\', 'n']
  | '\r' => ['\\', 'r']
  | '\t' => ['\\', 't']
  | '\x08' => ['\\', 'b']
  | '\x0c' => ['\\', 'f']
  | c =>
    let n := c.toNat
    if 0x20 ≤ n && n < 0x7F then [c]
    else if n < 0x10000 then unitEscape n
    else
      let low := n - 0x10000
      unitEscape (0xD800 + low / 0x400) ++ unitEscape (0xDC00 + low % 0x400)

/-- a text between quotes -/
def quote (s : String) : String := String.ofList ('"' :: (s.toList.flatMap escaped ++ ['"']))

mutual
def compact : Json → String
  | null => "null"
  | bool b => if b then "true" else "false"
  | int n => toString n
  | float x => numberLayout.write x
  | text s => quote s
  | array items => "[" ++ ", ".intercalate (compactItems items) ++ "]"
  | object entries => "\x7b" ++ ", ".intercalate (compactEntries entries) ++ "\x7d"
def compactItems : List Json → List String
  | [] => []
  | item :: items => compact item :: compactItems items
def compactEntries : List (String × Json) → List String
  | [] => []
  | (key, item) :: entries => (quote key ++ ": " ++ compact item) :: compactEntries entries
end

/-- entries between brackets, each on a line of its own; nothing between them if there are none -/
def block (opening closing : String) (level : Nat) (entries : List String) : String :=
  let line (n : Nat) : String := "\n" ++ String.ofList (List.replicate (4 * n) ' ')
  if entries.isEmpty then opening ++ closing
  else
    opening ++ line (level + 1) ++ ("," ++ line (level + 1)).intercalate entries ++ line level
      ++ closing

mutual
/-- a value that stands `level` levels deep -/
def indentedAt (level : Nat) : Json → String
  | null => "null"
  | bool b => if b then "true" else "false"
  | int n => toString n
  | float x => numberLayout.write x
  | text s => quote s
  | array items => block "[" "]" level (indentedItems (level + 1) items)
  | object entries => block "\x7b" "\x7d" level (indentedEntries (level + 1) entries)
def indentedItems (level : Nat) : List Json → List String
  | [] => []
  | item :: items => indentedAt level item :: indentedItems level items
def indentedEntries (level : Nat) : List (String × Json) → List String
  | [] => []
  | (key, item) :: entries =>
    (quote key ++ ": " ++ indentedAt level item) :: indentedEntries level entries
end

def indented (value : Json) : String := indentedAt 0 value

end DocTypes.Json
