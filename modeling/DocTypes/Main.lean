import DocTypes.CommandLine.Run

/-!
# The command

Resolves the type expressions given as arguments and writes their types.

What this library leaves out: the wording of usage errors and of the help text (a usage error is known
by its exit code), how log lines get to a stream, two equal nodes being one and the same unless they are
nodes of a `Graph`, and inputs nested deeper than a stack allows or calls that never end: declared types
that lead back to themselves (`Doclet.IsCircular`), and paths up a circle of parents.
-/

def main (arguments : List String) : IO UInt32 := do
  let result := DocTypes.CommandLine.run arguments
  IO.print result.output
  IO.eprint result.errors
  return result.exit
