import DocTypes.Node.Listing
import DocTypes.Report

/-!
# Defects of a node

What a node can lack that its shape needs, with the category and the wording of each.  A warning
about a defect shows the node.
-/

namespace DocTypes

inductive Defect where
  | emptyUnion
  | emptyArray
  | emptyClass
  | emptyGeneric
  | mapWithoutKey
  /-- a map whose keys are neither `string` nor `number`, with the name of their node -/
  | mapKey (name : String)
  | mapWithoutValue
  /-- a record key without a value, with the way down to it -/
  | keyWithoutValue (path : String)
  /-- a node of a kind that no type has -/
  | unsupported (kind : Kind) (name : String)
  deriving DecidableEq, Repr

namespace Defect

def anomaly : Defect → Anomaly
  | mapKey _ => .invalidMapKey
  | _ => .unresolvedMember

def message : Defect → String
  | emptyUnion => "Unable to resolve any types for union, defaulting to `any`."
  | emptyArray => "Unable to resolve array value type, defaulting to `any`."
  | emptyClass => "Unable to resolve class value type, defaulting to `any`."
  | emptyGeneric => "Unable to resolve generic type, defaulting to `any`."
  | mapWithoutKey =>
    "Unable to resolve object key type, this is likely due to invalid JSDoc."
      ++ " Defaulting to `string`."
  | mapKey name =>
    "Invalid object key type. It must be `string` or `number`, but got: " ++ name
      ++ ". Defaulting to `string`."
  | mapWithoutValue =>
    "Unable to resolve object value type, this is likely due to invalid JSDoc."
      ++ " Defaulting to `any`."
  | keyWithoutValue path =>
    "Unable to resolve value type of '" ++ path
      ++ "', this is likely due to invalid JSDoc. Defaulting to `any`."
  | unsupported kind name =>
    "Unsupported type shape " ++ kind.label ++ " for '" ++ name ++ "', defaulting to `any`."

def warning (node : Node) (defect : Defect) : Warning :=
  ⟨⟨defect.anomaly, defect.message⟩, some node.dump, none⟩

end Defect

end DocTypes
