import DocTypes.CommandLine.Options
import DocTypes.Json.Printer
import DocTypes.Naming
import DocTypes.Report.Log
import DocTypes.TsType.Printer

/-!
# Resolving the expressions of a command line

The expressions have their turns one after the other.  The type of an expression goes to the
output, after its tree if that is asked for, or as one line of JSON; what it logs goes to the error
output, and so does the reason if it is rejected.

* `Record`       what is known of one expression;
* `Record.of`    the record of an expression;
* `Result`       what has been written, and the exit code;
* `turn`         what an expression adds to the result;
* `run`          the result of a command line.
-/

namespace DocTypes.CommandLine

structure Record where
  input : String
  tree : Option String
  type : String
  warnings : List String
  deriving DecidableEq, Repr

namespace Record

/-- the tree as a listing, read for its own sake: nothing of it is logged -/
def listing (config : Config) (expression : String) : Run (Option String) :=
  ⟨[], (Node.ofText config expression).outcome.map fun root => some root.dump⟩

def ofRun (expression : String) (tree : Option String) (run : Run TsType) : Run Record := do
  let type ← run
  pure ⟨expression, tree, type.text, run.diagnostics.map (·.message)⟩

def of (config : Config) (withTree : Bool) (expression : String) : Run Record := do
  let tree ← if withTree then listing config expression else pure none
  ofRun expression tree (nameType config (some expression))

def toJson (r : Record) : Json :=
  .object <|
    [("input", .text r.input)]
      ++ (r.tree.toList.map fun tree => ("tree", .text tree))
      ++ [("type", .text r.type), ("warnings", .array (r.warnings.map .text))]

end Record

/-- what has been written so far, and the exit code as it stands: 1 if an expression was rejected,
2 if the command line is not understood -/
structure Result where
  exit : UInt32 := 0
  output : String := ""
  errors : String := ""

namespace Result

/-- a line of the output -/
def print (result : Result) (line : String) : Result :=
  { result with output := result.output ++ (line ++ "\n") }

/-- a line of the error output -/
def tell (result : Result) (line : String) : Result :=
  { result with errors := result.errors ++ (line ++ "\n") }

end Result

def Settings.config (settings : Settings) : Config :=
  { verbose := settings.verbose, strict := settings.strict, maxDepth := settings.maxDepth }

def Settings.level (settings : Settings) : Level := if settings.verbose then .debug else .warning

def Record.print (settings : Settings) (result : Result) (r : Record) : Result :=
  if settings.json then result.print r.toJson.compact
  else
    let result := match r.tree with
      | some tree => result.print tree
      | none => result
    result.print r.type

/-- the turn of one expression; the exit code stays 1 once an expression was rejected -/
def turn (settings : Settings) (result : Result) (expression : String) : Result :=
  let run := Record.of settings.config settings.tree expression
  let result := (logLines settings.level settings.verbose run.journal).foldl Result.tell result
  match run.outcome with
  | .ok r => r.print settings result
  | .error fault => { result.tell ("error: " ++ fault.text) with exit := 1 }

/-- one expression after the other -/
def resolveAll (settings : Settings) (expressions : List String) : Result :=
  expressions.foldl (turn settings) {}

/-! ## the command -/

def usage : String :=
  "usage: typexpr [-h] [--tree] [--json] [--verbose] [--strict] [--max-depth N] EXPR [EXPR ...]\n"

def run (arguments : List String) : Result :=
  match Request.ofArguments arguments with
  | .help => { output := usage }
  | .unusable => { exit := 2, errors := usage }
  | .resolve settings expressions => resolveAll settings expressions

end DocTypes.CommandLine
