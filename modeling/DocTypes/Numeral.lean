import DocTypes.Json
import DocTypes.Text.Blank
import DocTypes.Text.DecimalDigit

/-!
# Integers from settings

A setting that wants an integer takes a number, whose fraction is cut off, a truth value as 1 or 0,
or a text that spells an integer: decimal digits of any script, a single `_` allowed between two of
them, with a sign before and blanks around the whole.

* `Numeral.ofText`  the integer that a text spells;
* `Numeral.ofJson`  the integer that a value stands for, or why there is none.
-/

namespace DocTypes.Numeral

/-- why a value gives no integer -/
inductive Fault where
  /-- a text that spells none, or no number at all -/
  | malformed
  | infinite
  /-- null, an array or an object -/
  | wrongKind
  deriving DecidableEq, Repr

/-- a blank that may stand around the digits: the separators U+001C to U+001F may not -/
def isMargin (c : Char) : Bool := Text.isBlank c && !(0x1C ≤ c.toNat && c.toNat ≤ 0x1F)

def withoutMargins (cs : List Char) : List Char :=
  ((cs.dropWhile isMargin).reverse.dropWhile isMargin).reverse

/-- the values of the digits, which one `_` may part from each other -/
def digitValues : List Char → Option (List Nat)
  | [] => none
  | [c] => (Text.decimalDigit? c).map ([·])
  | c :: '_' :: rest => do
    let d ← Text.decimalDigit? c
    let ds ← digitValues rest
    pure (d :: ds)
  | c :: rest => do
    let d ← Text.decimalDigit? c
    let ds ← digitValues rest
    pure (d :: ds)

/-- the most digits that are read -/
def digitLimit : Nat := 4300

def unsigned (cs : List Char) : Option Nat :=
  match digitValues cs with
  | none => none
  | some ds => if ds.length ≤ digitLimit then some (ds.foldl (10 * · + ·) 0) else none

def ofText (s : String) : Option Int :=
  match withoutMargins s.toList with
  | '+' :: rest => (unsigned rest).map (Int.ofNat ·)
  | '-' :: rest => (unsigned rest).map (-Int.ofNat ·)
  | cs => (unsigned cs).map (Int.ofNat ·)

def ofJson : Json → Except Fault Int
  | .int n => .ok n
  | .bool b => .ok (if b then 1 else 0)
  | .float x =>
    match x.value, x.truncated? with
    | .infinite, _ => .error .infinite
    | _, some n => .ok n
    | _, none => .error .malformed
  | .text s => match ofText s with
    | some n => .ok n
    | none => .error .malformed
  | .null | .array _ | .object _ => .error .wrongKind

end DocTypes.Numeral
