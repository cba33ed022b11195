import DocTypes.Piece
import DocTypes.Report

/-!
# Flaws of an expression

What can be wrong with an expression as it is read, with the category and the wording of each.  A
warning about a flaw shows the whole expression.
-/

namespace DocTypes

inductive Flaw where
  /-- an expression of blanks alone -/
  | blank
  /-- a bracket below the last level that is read -/
  | tooDeep (limit : Int)
  /-- a bracket without its end, after the text that shows it -/
  | unclosed (fragment : String) (b : Bracket)
  /-- a mark that closes or opens nothing -/
  | stray (m : Mark)
  /-- a span, given as text, that makes no type -/
  | typeless (span : String)
  | namelessField
  | untypedField (key : String)
  /-- a result type, from its first token on, with an unclosed bracket -/
  | unclosedResult (first : Token)
  /-- the arguments of a module with an unclosed bracket -/
  | unclosedArguments (path : String)
  /-- a reference into a module that is not named -/
  | pathless
  deriving DecidableEq, Repr

namespace Flaw

def anomaly : Flaw → Anomaly
  | unclosed _ _ | stray _ | unclosedResult _ | unclosedArguments _ => .unbalancedBracket
  | typeless _ | namelessField | untypedField _ => .unresolvedMember
  | blank | pathless => .unknownTypeName
  | tooDeep _ => .depthExceeded

def message (source : String) : Flaw → String
  | blank => "Empty type expression '" ++ source ++ "', defaulting to `any`."
  | tooDeep limit =>
    "Type expression '" ++ source ++ "' is nested deeper than " ++ toString limit
      ++ " levels, defaulting to `any`."
  | unclosed fragment b =>
    "Unable to find matching '" ++ (Token.mark b.opener).text ++ "', '"
      ++ (Token.mark b.closer).text ++ "' brackets in '" ++ fragment ++ "' of '" ++ source
      ++ "', defaulting to `any`."
  | stray m => "Unexpected '" ++ (Token.mark m).text ++ "' in '" ++ source ++ "', ignoring it."
  | typeless span =>
    "Unable to resolve a type from '" ++ span ++ "' in '" ++ source
      ++ "', defaulting to `any`."
  | namelessField => "Object field without a name in '" ++ source ++ "', skipping it."
  | untypedField key =>
    "Object field '" ++ key ++ "' in '" ++ source ++ "' has no type, defaulting to `any`."
  | unclosedResult first =>
    "Unable to find the end of return type '" ++ first.text ++ "' of '" ++ source
      ++ "', defaulting to `any`."
  | unclosedArguments path =>
    "Unable to find matching '<', '>' brackets for module '" ++ path ++ "' in '" ++ source
      ++ "', ignoring its type arguments."
  | pathless =>
    "Module reference without a module path in '" ++ source ++ "', defaulting to `any`."

def warning (source : String) (flaw : Flaw) : Warning :=
  ⟨⟨flaw.anomaly, flaw.message source⟩, some source, some source⟩

end Flaw

end DocTypes
