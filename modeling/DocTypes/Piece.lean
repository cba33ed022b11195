import DocTypes.Bracket.Match
import DocTypes.Bracket.Split
import DocTypes.Text.Letters

/-!
# The pieces of a span

A span of tokens falls into pieces, read from left to right.  A piece is one type, together with
the spans inside its brackets as they stand, or something that is no type: a separator, a bracket
that nothing opens, or a bracket that nothing closes.

* `Piece.first`   the piece that begins with a given token, and how many of the tokens after it
  belong to the piece;
* `pieces`        all pieces of a span;
* `unitLength?`   how many tokens the type at the head of a list takes up, found without making
  anything of it: this is how far the result type of a function reaches;
* `Field`, `Field.ofTokens`, `paramType`  the parts of a record and of a parameter list.

A function type may name its result after a colon, and such results may follow one another in a
chain; a reference into a module runs to the end of its span.
-/

namespace DocTypes

open Text (upper)

/-- what may follow a type: nothing, a span that does not end, or a span -/
inductive Tail where
  | absent
  | unclosed (first : Token)
  | span (tokens : List Token)
  deriving DecidableEq, Repr

inductive Piece where
  | plain (name : String)
  | generic (name : String) (args : List Token)
  | group (body : List Token)
  | record (body : List Token)
  | function (name : String) (params : List Token) (result : Tail)
  | reference (path : String) (qualifier : Option String) (args : Tail)
  /-- a reference into a module that is not named -/
  | pathless
  | separator
  | stray (m : Mark)
  /-- a bracket without its end, after the text that shows it -/
  | unclosed (fragment : String) (bracket : Bracket)
  deriving DecidableEq, Repr

/-! ## words -/

def isFunctionWord (w : String) : Bool := upper w == "FUNCTION"
def isModuleWord (w : String) : Bool := upper w == "MODULE"

def endsInDot (cs : List Char) : Bool := cs.getLast? == some '.'

/-- a text without the dot at its end -/
def dropDot (cs : List Char) : List Char := if endsInDot cs then cs.dropLast else cs

/-- names that are written anew on sight -/
def plainName (w : String) : String :=
  match upper w with
  | "*" => "any"
  | "OBJECT" => "object"
  | "ARRAY" => "any[]"
  | "FUNCTION" => "Function"
  | _ => w

/-- the path of a module, and the member behind its tilde -/
def splitPath (cs : List Char) : List Char × Option (List Char) :=
  let path := cs.takeWhile (· != '~')
  match cs.dropWhile (· != '~') with
  | [] => (dropDot path, none)
  | _ :: member => (path, if (dropDot member).isEmpty then none else some (dropDot member))

/-! ## how far a type reaches -/

def unitLength? : List Token → Option Nat
  | .word _ :: .mark .lt :: rest => (Bracket.angle.interior? rest).map (· + 3)
  | .mark .lparen :: rest => (Bracket.paren.interior? rest).map (· + 2)
  | .mark .lbrace :: rest => (Bracket.brace.interior? rest).map (· + 2)
  | .word w :: .mark .lparen :: rest =>
    if isFunctionWord w then
      match Bracket.paren.interior? rest with
      | none => none
      | some n =>
        match _h : rest.drop (n + 1) with
        | .mark .colon :: first :: more => (unitLength? (first :: more)).map (· + (n + 4))
        | _ => some (n + 3)
    else some 1
  | .word w :: .mark .colon :: rest => if isModuleWord w then some (rest.length + 2) else some 1
  | _ => some 1
termination_by tokens => tokens.length
decreasing_by
  have := congrArg List.length _h
  simp only [List.length_drop, List.length_cons] at this ⊢
  omega

/-! ## pieces -/

/-- the piece made from the interior of a bracket that was opened just before `rest`, or an
unclosed one that takes all the rest -/
def bracketed (b : Bracket) (fragment : String) (rest : List Token) (make : List Token → Piece) :
    Piece × Nat :=
  match b.interior? rest with
  | some n => (make (rest.take n), n + 1)
  | none => (.unclosed fragment b, rest.length)

/-- the result type that a colon announces, and how many tokens it takes with the colon -/
def resultTail : List Token → Tail × Nat
  | .mark .colon :: first :: more =>
    match unitLength? (first :: more) with
    | some n => (.span ((first :: more).take n), n + 1)
    | none => (.unclosed first, more.length + 2)
  | _ => (.absent, 0)

/-- a function whose parameters begin with `rest` -/
def functionPiece (name : String) (rest : List Token) : Piece × Nat :=
  match Bracket.paren.interior? rest with
  | some n =>
    let result := resultTail (rest.drop (n + 1))
    (.function name (rest.take n) result.1, n + 1 + result.2)
  | none => (.unclosed name .paren, rest.length)

/-- the arguments that follow the path of a module -/
def argumentTail : List Token → Tail
  | [] => .absent
  | first :: rest =>
    match Bracket.angle.interior? rest with
    | some n => .span (rest.take n)
    | none => .unclosed first

/-- a reference into the module whose path begins with `rest` -/
def referencePiece (rest : List Token) : Piece :=
  let isPath (t : Token) : Bool := t != .mark .lt
  let (path, qualifier) := splitPath (Token.joined (rest.takeWhile isPath)).toList
  if path.isEmpty then .pathless
  else
    .reference (String.ofList path) (qualifier.map String.ofList)
      (argumentTail (rest.dropWhile isPath))

namespace Piece

/-- the piece that begins with the word `w`, which no argument list follows -/
def ofWord (w : String) : List Token → Piece × Nat
  | .mark .lparen :: rest =>
    if isFunctionWord w then
      let (piece, n) := functionPiece w rest
      (piece, n + 1)
    else (plain (plainName w), 0)
  | .mark .colon :: rest =>
    if isModuleWord w then (referencePiece rest, rest.length + 1) else (plain (plainName w), 0)
  | _ => (plain (plainName w), 0)

def first : Token → List Token → Piece × Nat
  | .word w, .mark .lt :: rest =>
    let (piece, n) := bracketed .angle w rest (generic (String.ofList (dropDot w.toList)))
    (piece, n + 1)
  | .word w, rest => if endsInDot w.toList then (unclosed w .angle, 0) else ofWord w rest
  | .mark .lparen, rest => bracketed .paren (Token.mark .lparen).text rest group
  | .mark .lbrace, rest => bracketed .brace (Token.mark .lbrace).text rest record
  | .mark m, _ => if m.isSeparator then (separator, 0) else (stray m, 0)

end Piece

def pieces : List Token → List Piece
  | [] => []
  | t :: rest =>
    let (piece, n) := Piece.first t rest
    piece :: pieces (rest.drop n)
termination_by tokens => tokens.length
decreasing_by simp only [List.length_drop, List.length_cons]; omega

/-! ## records and parameters -/

inductive Field where
  | nameless
  | untyped (key : String)
  | typed (key : String) (value : List Token)
  deriving DecidableEq, Repr

def Field.ofTokens : List Token → Field
  | .word key :: .mark .colon :: first :: more => typed key (first :: more)
  | .word key :: _ => untyped key
  | _ => nameless

/-- the type of a parameter, without the name that a colon parts from it -/
def paramType : List Token → List Token
  | .word name :: .mark .colon :: first :: more =>
    if isModuleWord name then .word name :: .mark .colon :: first :: more else first :: more
  | tokens => tokens

end DocTypes
