/-!
# What a resolution reports

Malformed types are repaired, and every repair is reported by a warning.

* `Anomaly`     the category of what was wrong;
* `Diagnostic`  a category and a message; two diagnostics with the same of both are the same,
  whatever they are about;
* `Warning`     a diagnostic with the text of what it is about and the expression it stands in;
* `Rejection`   what a strict resolution ends with instead of warning;
* `Entry`       a line of the journal of a resolution: a warning, or a trace of progress.
-/

namespace DocTypes

inductive Anomaly where
  /-- a bracket that is not closed, or a closing one too many -/
  | unbalancedBracket
  /-- a part that the shape of a type needs is missing -/
  | unresolvedMember
  /-- a map whose keys are neither texts nor numbers -/
  | invalidMapKey
  /-- nothing to make a type of -/
  | unknownTypeName
  /-- brackets nested too deep -/
  | depthExceeded
  deriving DecidableEq, Repr

namespace Anomaly

def label : Anomaly → String
  | unbalancedBracket => "UNBALANCED_BRACKET"
  | unresolvedMember => "UNRESOLVED_MEMBER"
  | invalidMapKey => "INVALID_MAP_KEY"
  | unknownTypeName => "UNKNOWN_TYPE_NAME"
  | depthExceeded => "DEPTH_EXCEEDED"

def ofLabel? : String → Option Anomaly
  | "UNBALANCED_BRACKET" => some unbalancedBracket
  | "UNRESOLVED_MEMBER" => some unresolvedMember
  | "INVALID_MAP_KEY" => some invalidMapKey
  | "UNKNOWN_TYPE_NAME" => some unknownTypeName
  | "DEPTH_EXCEEDED" => some depthExceeded
  | _ => none

end Anomaly

structure Diagnostic where
  anomaly : Anomaly
  message : String
  deriving DecidableEq, Repr

def Diagnostic.text (d : Diagnostic) : String := d.anomaly.label ++ ": " ++ d.message

structure Warning extends Diagnostic where
  /-- what the warning is about, as it is shown to a reader -/
  context : Option String
  /-- the whole expression; without one, what the warning is about stands for it -/
  expression : Option String
  deriving DecidableEq, Repr

structure Rejection where
  expression : String
  message : String
  deriving DecidableEq, Repr

def Rejection.text (r : Rejection) : String :=
  "Failed to resolve type '" ++ r.expression ++ "': " ++ r.message

/-- the rejection that takes the place of a warning -/
def Warning.rejection (w : Warning) : Rejection :=
  ⟨w.expression.getD (w.context.getD "null"), w.message⟩

inductive Entry where
  | warning (w : Warning)
  | trace (message : String)
  deriving DecidableEq, Repr

def Entry.diagnostic? : Entry → Option Diagnostic
  | warning w => some w.toDiagnostic
  | trace _ => none

/-- the diagnostics of a journal, in order -/
def diagnostics (journal : List Entry) : List Diagnostic := journal.filterMap Entry.diagnostic?

@[simp] theorem diagnostics_append (a b : List Entry) :
    diagnostics (a ++ b) = diagnostics a ++ diagnostics b := List.filterMap_append

end DocTypes
