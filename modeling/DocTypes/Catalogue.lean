import DocTypes.Text.Quoted

/-!
# Public names

The names under which the parts of the package can be asked for, and the answer for any other.
-/

namespace DocTypes

def publicNames : List String :=
  ["DEFAULT_CONFIG", "Diagnostic", "DiagnosticKind", "Diagnostics", "Doclet", "DocletProp",
    "DocletReturn", "DocletType", "NameResolver", "NodeKind", "ResolverConfig", "TreeBuilder",
    "TreeNode", "TreeResolver", "TypeExpressionError", "generate_tree",
    "resolve_complex_type_name", "resolve_tree", "resolve_type", "resolve_type_name", "tokenize"]

/-- why a name cannot be had, if it is not public -/
def missingNameMessage? (name : String) : Option String :=
  if publicNames.contains name then none
  else some ("module 'typexpr' has no attribute " ++ Text.quoted name)

end DocTypes
