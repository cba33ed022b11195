import DocTypes.TsType.Printer
import Mathlib.Data.List.Basic

/-!
# A reader of declared types

The text of a type can be read from left to right without turning back: what stands at the front of
a text, and behind the name that stands there, tells which shape of type is to be read.

* `Reader`          reads from the front of a text and leaves the rest of it;
* `Reader.row`      parameters or properties, with a special one at the end at most;
* `Reader.primary`  a type in parentheses, a function, an object type, or one that a name begins;
* `Reader.member`   the same with array marks behind it;
* `Reader.union`    members with bars between them, or a single one;
* `readType`        a type that nests a number of levels deep.

A keyword is read as a reference of the same name.
-/

namespace DocTypes

abbrev Reader (α : Type) := List Char → Option (α × List Char)

/-- the characters of a name -/
def isNameChar (c : Char) : Bool := c.isAlphanum || c == '_' || c == '$'

/-- the names of the parameters that may be left out -/
def optionalNames (params : List (Param TsType)) : NameSet :=
  .ofList ((params.filter Param.optional).map fun p => p.name)

namespace Reader

variable {α β : Type}

def name : Reader String := fun input =>
  match input.takeWhile isNameChar with
  | [] => none
  | cs => some (String.ofList cs, input.dropWhile isNameChar)

/-- things of one kind with a separator between any two of them, as many as `limit` -/
def separated (item : Reader α) (separator : List Char) : Nat → Reader (List α)
  | 0, _ => none
  | limit + 1, input => do
    let (a, rest) ← item input
    match rest.dropPrefix? separator with
    | none => some ([a], rest)
    | some rest => do
      let (as, rest) ← separated item separator limit rest
      some (a :: as, rest)

def comma : List Char := [',', ' ']

def bar : List Char := [' ', '|', ' ']

/-- something special, or else an item -/
def slot (special : Reader β) (item : Reader α) : Reader (α ⊕ β) := fun input =>
  match special input with
  | some (b, rest) => some (.inr b, rest)
  | none => (item input).map fun (a, rest) => (.inl a, rest)

/-- items, and something special that stands only at the end -/
def splitLast : List (α ⊕ β) → Option (List α × Option β)
  | [] => some ([], none)
  | [.inr b] => some ([], some b)
  | .inl a :: more => (splitLast more).map fun (as, b) => (a :: as, b)
  | .inr _ :: _ :: _ => none

/-- items up to a closing text, the last of which may be special -/
def row (special : Reader β) (item : Reader α) (closing : List Char) (limit : Nat) :
    Reader (List α × Option β) := fun input =>
  match input.dropPrefix? closing with
  | some rest => some (([], none), rest)
  | none => do
    let (slots, rest) ← separated (slot special item) comma limit input
    let rest ← rest.dropPrefix? closing
    let parts ← splitLast slots
    some (parts, rest)

section
variable (inner : Reader TsType) (limit : Nat)

/-- a type behind a colon -/
def typed : Reader TsType := fun input => do
  let rest ← input.dropPrefix? [':', ' ']
  inner rest

def arguments : Reader (List TsType)
  | '<' :: rest => do
    let (args, rest) ← separated inner comma limit rest
    let rest ← rest.dropPrefix? ['>']
    some (args, rest)
  | rest => some ([], rest)

/-- a parameter of a function, or a property -/
def param : Reader (Param TsType) := fun input => do
  let (name, rest) ← name input
  match rest with
  | '?' :: rest => do
    let (type, rest) ← typed inner rest
    some (⟨⟨name, type⟩, true⟩, rest)
  | rest => do
    let (type, rest) ← typed inner rest
    some (⟨⟨name, type⟩, false⟩, rest)

def restParam : Reader (Named TsType) := fun input => do
  let rest ← input.dropPrefix? ['.', '.', '.']
  let (name, rest) ← name rest
  match ← typed inner rest with
  | (.array element, rest) => some (⟨name, element⟩, rest)
  | _ => none

/-- an index signature: the type of the keys and that of the values -/
def index : Reader (TsType × TsType) := fun input => do
  let rest ← input.dropPrefix? "[key: ".toList
  let (key, rest) ← inner rest
  let rest ← rest.dropPrefix? [']']
  let (value, rest) ← typed inner rest
  some ((key, value), rest)

/-- a function, behind the parenthesis that opens its parameters -/
def function : Reader TsType := fun input => do
  let ((params, last), rest) ← row (restParam inner) (param inner) [')'] limit input
  let rest ← rest.dropPrefix? " => ".toList
  let (result, rest) ← inner rest
  some (.function params result last, rest)

/-- an object type, behind its opening brace -/
def object : Reader TsType
  | ' ' :: rest => do
    let ((params, last), rest) ← row (index inner) (param inner) [' ', '}'] limit rest
    some (.object (params.map Param.toNamed) (optionalNames params) last true [], rest)
  | '}' :: rest => some (.object [] .empty none true [], rest)
  | _ => none

/-- a type behind an opening parenthesis, up to the closing one -/
def group : Reader TsType := fun input => do
  let (type, rest) ← inner input
  let rest ← rest.dropPrefix? [')']
  some (type, rest)

/-- an import, behind the quotation mark that opens its module -/
def imported : Reader TsType := fun input => do
  let path := input.takeWhile (· != '"')
  let rest ← (input.dropWhile (· != '"')).dropPrefix? ['"', ')', '.']
  let (qualifier, rest) ← name rest
  let (args, rest) ← arguments inner limit rest
  some (.imported (String.ofList path) qualifier args, rest)

/-- a type that begins with a name: a query if another name follows, an import if a module does -/
def named : Reader TsType := fun input => do
  let (word, rest) ← name input
  match rest with
  | '(' :: '"' :: rest => imported inner limit rest
  | rest =>
    match (rest.dropPrefix? [' ']).bind name with
    | some (target, rest) => some (.query target, rest)
    | none => do
      let (args, rest) ← arguments inner limit rest
      some (.reference word args, rest)

/-- whether the parameters of a function stand behind an opening parenthesis -/
def beginsParams (input : List Char) : Bool :=
  match input.dropWhile isNameChar with
  | ')' :: _ | ':' :: _ | '?' :: _ | '.' :: _ => true
  | _ => false

def primary : Reader TsType
  | '(' :: rest => if beginsParams rest then function inner limit rest else group inner rest
  | '{' :: rest => object inner limit rest
  | input => named inner limit input

/-- the array marks behind a type -/
def marks (type : TsType) : List Char → TsType × List Char
  | '[' :: ']' :: rest => marks (.array type) rest
  | rest => (type, rest)

def member : Reader TsType := fun input =>
  (primary inner limit input).map fun (type, rest) => marks type rest

def union : Reader TsType := fun input => do
  match ← separated (member inner limit) bar limit input with
  | ([type], rest) => some (type, rest)
  | (members, rest) => some (.union members, rest)

end

end Reader

/-- a type that nests as many levels deep as `limit` -/
def readType : Nat → Reader TsType
  | 0 => fun _ => none
  | limit + 1 => Reader.union (readType limit) (limit + 1)

end DocTypes
