import DocTypes.Token

/-!
# Matching brackets

Brackets come in three kinds.  The partner of an opening token is found by counting tokens of its
own kind only; tokens of the other kinds are passed over, and so are closing tokens that come
before the first opening one.

* `closing?`            the place of the token at which the count falls back to zero;
* `matchIndex?`         the same from a given place of a list on;
* `Bracket.interior?`   the length of the interior of a bracket whose opening mark has been read.
-/

namespace DocTypes

inductive Bracket where
  | angle | paren | brace
  deriving DecidableEq, Repr

namespace Bracket

def opener : Bracket → Mark
  | angle => .lt
  | paren => .lparen
  | brace => .lbrace

def closer : Bracket → Mark
  | angle => .gt
  | paren => .rparen
  | brace => .rbrace

end Bracket

/-- the place of the closing token that brings the count of open brackets, `depth` at the start,
back to zero -/
def closing? (opening closing : Token) : Nat → List Token → Option Nat
  | _, [] => none
  | depth, t :: rest =>
    if t = opening then (closing? opening closing (depth + 1) rest).map (· + 1)
    else if t = closing then
      match depth with
      | 0 => (closing? opening closing 0 rest).map (· + 1)
      | 1 => some 0
      | d + 2 => (closing? opening closing (d + 1) rest).map (· + 1)
    else (closing? opening closing depth rest).map (· + 1)

/-- the index of the token that closes the first bracket opened at or after `start` -/
def matchIndex? (tokens : List Token) (start : Nat) (opening closing : Token) : Option Nat :=
  (closing? opening closing 0 (tokens.drop start)).map (· + start)

/-- how many tokens of `rest` lie inside a bracket that was opened just before it -/
def Bracket.interior? (b : Bracket) (rest : List Token) : Option Nat :=
  closing? (.mark b.opener) (.mark b.closer) 1 rest

theorem closing?_nil (o c : Token) (depth : Nat) : closing? o c depth [] = none := rfl

section
variable {o c t : Token} (depth : Nat) (rest : List Token)

theorem closing?_cons_opening :
    closing? o c depth (o :: rest) = (closing? o c (depth + 1) rest).map (· + 1) := if_pos rfl

theorem closing?_cons_last (hoc : o ≠ c) : closing? o c 1 (c :: rest) = some 0 :=
  (if_neg hoc.symm).trans (if_pos rfl)

theorem closing?_cons_closing (hoc : o ≠ c) :
    closing? o c (depth + 2) (c :: rest) = (closing? o c (depth + 1) rest).map (· + 1) :=
  (if_neg hoc.symm).trans (if_pos rfl)

theorem closing?_cons_of_ne (ho : t ≠ o) (hc : t ≠ c) :
    closing? o c depth (t :: rest) = (closing? o c depth rest).map (· + 1) :=
  (if_neg ho).trans (if_neg hc)

/-- with nothing open, a closing token is passed over too -/
theorem closing?_cons_zero (ho : t ≠ o) :
    closing? o c 0 (t :: rest) = (closing? o c 0 rest).map (· + 1) := by
  by_cases hc : t = c
  · exact (if_neg ho).trans (if_pos hc)
  · exact closing?_cons_of_ne 0 rest ho hc

end

theorem closing?_lt {o c : Token} {depth : Nat} {tokens : List Token} {i : Nat}
    (h : closing? o c depth tokens = some i) : i < tokens.length := by
  fun_induction closing? o c depth tokens generalizing i with
  | case1 => simp at h
  | case2 depth rest ih | case3 rest _ ih | case5 rest d _ ih | case6 depth t rest _ _ ih =>
    obtain ⟨j, hj, rfl⟩ := Option.map_eq_some_iff.1 h
    have := ih hj
    simp only [List.length_cons]
    omega
  | case4 => simp_all; omega

theorem Bracket.interior?_lt {b : Bracket} {rest : List Token} {n : Nat}
    (h : b.interior? rest = some n) : n < rest.length := closing?_lt h

end DocTypes
