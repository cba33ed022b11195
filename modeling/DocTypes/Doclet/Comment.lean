import DocTypes.Doclet
import DocTypes.Json.Display
import DocTypes.Text.Blank
import DocTypes.Text.Lines

/-!
# The doc comment of a property

The comment has the lines of the description, without the blanks around them, and then a line with
the default value, if one is given that counts as such.

* `Property.comment`  its text; empty if there is nothing to say.
-/

namespace DocTypes.Property

def descriptionLines (p : Property) : List String :=
  (Text.lines (p.description.getD "").toList).map fun line => String.ofList (Text.trim line)

def defaultLines (p : Property) : List String :=
  if p.defaultValue.isTruthy then ["@defaultValue " ++ p.defaultValue.display] else []

def comment (p : Property) : String := "\n".intercalate (p.descriptionLines ++ p.defaultLines)

end DocTypes.Property
