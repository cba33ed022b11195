import DocTypes.Token

/-!
# Splitting outside brackets

A span is cut at the separators that stand outside every bracket.  Here all three kinds of
brackets count together, and a closing token with nothing open changes nothing.

* `segments`       all segments, the empty ones too;
* `splitTopLevel`  the segments that hold something.
-/

namespace DocTypes

/-- a token put in front of the first segment -/
def extendSegment (t : Token) : List (List Token) → List (List Token)
  | [] => [[t]]
  | segment :: more => (t :: segment) :: more

/-- the segments of a span that begins `depth` brackets deep; an opening token never cuts, a
closing one only with nothing open -/
def segments (separator : Token) : Nat → List Token → List (List Token)
  | _, [] => [[]]
  | depth, t :: rest =>
    if t.isOpener then extendSegment t (segments separator (depth + 1) rest)
    else if t.isCloser && 0 < depth then extendSegment t (segments separator (depth - 1) rest)
    else if t = separator ∧ depth = 0 then [] :: segments separator 0 rest
    else extendSegment t (segments separator depth rest)

def splitTopLevel (separator : Token) (tokens : List Token) : List (List Token) :=
  (segments separator 0 tokens).filter (!·.isEmpty)

/-- the parts of a list that commas separate -/
def splitCommas (tokens : List Token) : List (List Token) := splitTopLevel (.mark .comma) tokens

end DocTypes
