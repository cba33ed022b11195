import DocTypes.Numeral
import DocTypes.Text.DecimalDigit

/-!
# Options of the command line

The command takes expressions and options.  A long option may be cut short as long as only one
option begins that way, and its value may follow in the same argument after `=`.  An argument is an
expression if it does not begin with a dash, or is a dash alone, looks like a negative number, or
holds a blank and begins no option; after `--` every argument is one.  All expressions stand in one
run, without options between them.

* `Switch`, `Argument`     the options, and what an argument turns out to be;
* `classify?`              the arguments of a command line;
* `Request.ofArguments`    the settings and expressions they amount to.
-/

namespace DocTypes.CommandLine

inductive Switch where
  | help | tree | json | verbose | strict | maxDepth
  deriving DecidableEq, Repr

namespace Switch

/-- the switches by the names they have -/
def names : List (String × Switch) :=
  [("-h", help), ("--help", help), ("--tree", tree), ("--json", json), ("--verbose", verbose),
    ("--strict", strict), ("--max-depth", maxDepth)]

end Switch

inductive Argument where
  | operand (text : String)
  /-- `--`, after which every argument is an operand -/
  | divider
  /-- a switch, and the value that stands in the same argument -/
  | switch (s : Switch) (value : Option String)
  | unknown
  deriving DecidableEq, Repr

/-! ## what an argument is -/

/-- a text before and after its first equals sign -/
def splitEquals (cs : List Char) : List Char × Option String :=
  match cs.dropWhile (· != '=') with
  | [] => (cs, none)
  | _ :: value => (cs.takeWhile (· != '='), some (String.ofList value))

def isDigits (cs : List Char) : Bool := cs.all fun c => (Text.decimalDigit? c).isSome

/-- `5`, `1.5` or `.5`, the number after a minus sign; one line feed may follow it -/
def isUnsignedNumber (cs : List Char) : Bool :=
  let cs := if cs.getLast? = some '\n' then cs.dropLast else cs
  match cs.dropWhile (· != '.') with
  | [] => !cs.isEmpty && isDigits cs
  | _ :: decimals =>
    isDigits (cs.takeWhile (· != '.')) && !decimals.isEmpty && isDigits decimals

/-- the switches that an argument can stand for, by the start of their names, each with the value
in the same argument; a single dash has only its next character for a name -/
def candidates (text : String) : List (Switch × Option String) :=
  let cs := text.toList
  match cs with
  | '-' :: '-' :: _ =>
    let (start, value) := splitEquals cs
    (Switch.names.filter fun (name, _) => start.isPrefixOf name.toList).map fun (_, s) =>
      (s, value)
  | '-' :: c :: rest =>
    (Switch.names.filter fun (name, _) => name.toList == ['-', c]).map fun (_, s) =>
      (s, some (String.ofList rest))
  | _ => []

/-- an argument before any `--`; none if it could be several switches -/
def classifyOne? (text : String) : Option Argument :=
  match text.toList with
  | [] | ['-'] => some (.operand text)
  | '-' :: rest =>
    match Switch.names.lookup text with
    | some s => some (.switch s none)
    | none =>
      let (start, value) := splitEquals text.toList
      match value.bind fun _ => Switch.names.lookup (String.ofList start) with
      | some s => some (.switch s value)
      | none =>
        match candidates text with
        | [(s, value)] => some (.switch s value)
        | _ :: _ :: _ => none
        | [] =>
          if isUnsignedNumber rest || rest.contains ' ' then some (.operand text)
          else some .unknown
  | _ => some (.operand text)

def classify? : List String → Option (List Argument)
  | [] => some []
  | "--" :: rest => some (.divider :: rest.map .operand)
  | text :: rest => do
    let argument ← classifyOne? text
    let arguments ← classify? rest
    pure (argument :: arguments)

/-! ## what a command line asks for -/

structure Settings where
  tree : Bool := false
  json : Bool := false
  verbose : Bool := false
  strict : Bool := false
  maxDepth : Int := 64
  deriving DecidableEq, Repr

inductive Request where
  | resolve (settings : Settings) (expressions : List String)
  | help
  /-- a command line that is not understood -/
  | unusable
  deriving DecidableEq, Repr

/-- a switch that takes no value -/
def Settings.set (settings : Settings) : Switch → Settings
  | .tree => { settings with tree := true }
  | .json => { settings with json := true }
  | .verbose => { settings with verbose := true }
  | .strict => { settings with strict := true }
  | .help | .maxDepth => settings

/-- what has been read of a command line: the settings, the run of expressions once it has ended
(`closed`), and whether all was understood -/
structure Progress where
  settings : Settings := {}
  expressions : List String := []
  closed : Bool := false
  sound : Bool := true

namespace Progress

/-- an expression; a second run of them is not understood -/
def operand (p : Progress) (text : String) : Progress :=
  if p.closed then { p with sound := false }
  else { p with expressions := p.expressions ++ [text] }

/-- the end of a run of expressions -/
def close (p : Progress) : Progress := { p with closed := p.closed || !p.expressions.isEmpty }

def withDepth? (p : Progress) (text : String) : Option Progress :=
  (Numeral.ofText text).map fun n => { p with settings := { p.settings with maxDepth := n } }

def request (p : Progress) : Request :=
  if p.sound && !p.expressions.isEmpty then .resolve p.settings p.expressions else .unusable

end Progress

def read (p : Progress) : List Argument → Request
  | [] => p.request
  | .operand text :: rest => read (p.operand text) rest
  | .divider :: rest => read (if p.closed then { p with sound := false } else p) rest
  | .unknown :: rest => read { p.close with sound := false } rest
  | .switch .help none :: _ => .help
  | .switch .maxDepth (some text) :: rest =>
    match p.close.withDepth? text with
    | some p => read p rest
    | none => .unusable
  | .switch .maxDepth none :: .operand text :: rest =>
    match p.close.withDepth? text with
    | some p => read p rest
    | none => .unusable
  | .switch .maxDepth none :: _ => .unusable
  | .switch _ (some _) :: _ => .unusable
  | .switch s none :: rest => read { p.close with settings := p.settings.set s } rest

def Request.ofArguments (arguments : List String) : Request :=
  match classify? arguments with
  | none => .unusable
  | some arguments => read {} arguments

end DocTypes.CommandLine
