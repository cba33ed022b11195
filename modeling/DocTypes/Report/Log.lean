import DocTypes.Report

/-!
# The log of a resolution

The log has a line for each entry of the journal that its level lets through.  A verbose log adds
to each warning a second line with what the warning is about.
-/

namespace DocTypes

inductive Level where
  | debug | warning
  deriving DecidableEq, Repr

def Level.label : Level → String
  | debug => "DEBUG"
  | warning => "WARNING"

def logLine (level : Level) (message : String) : String :=
  level.label ++ " [typexpr] " ++ message

def Entry.logLines (level : Level) (verbose : Bool) : Entry → List String
  | .warning w =>
    let about := if verbose then w.context.toList else []
    (w.message :: about).map (logLine .warning)
  | .trace message => if level = .debug then [logLine .debug message] else []

def logLines (level : Level) (verbose : Bool) (journal : List Entry) : List String :=
  journal.flatMap (Entry.logLines level verbose)

end DocTypes
