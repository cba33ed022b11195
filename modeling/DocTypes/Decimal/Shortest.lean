import DocTypes.Decimal.Binary64

/-!
# The shortest decimal that reads back

A decimal reads back to a binary number if it lies in the interval of the reals that round to that
number: from halfway to the next smaller number to halfway to the next greater one, the ends
included if the mantissa is even.  `shortest` is the decimal of fewest digits in that interval and,
among those, the one closest to the number; of two equally close ones it is the even one.

Everything is computed with fractions of naturals, so nothing is rounded on the way.
-/

namespace DocTypes.Decimal

/-- a fraction with positive denominator -/
structure Fraction where
  num : Nat
  den : Nat

/-- `n * 2 ^ e` -/
def Fraction.binary (n : Nat) : Int → Fraction
  | .ofNat e => ⟨n <<< e, 1⟩
  | .negSucc e => ⟨n, 1 <<< (e + 1)⟩

/-- `x / 10 ^ e` -/
def Fraction.scaled (x : Fraction) : Int → Fraction
  | .ofNat e => ⟨x.num, x.den * Nat.pow 10 e⟩
  | .negSucc e => ⟨x.num * Nat.pow 10 (e + 1), x.den⟩

/-- how many decimal digits a natural has -/
def digitCount (n : Nat) : Nat := (Nat.toDigits 10 n).length

/-- the exponent of the first digit of a positive fraction -/
def Fraction.magnitude (x : Fraction) : Int :=
  if x.den ≤ x.num then (digitCount (x.num / x.den) : Int) - 1
  else -(digitCount ((x.den - 1) / x.num) : Int)

/-- `digits * 10 ^ exponent` -/
structure Digits where
  digits : Nat
  exponent : Int
  deriving DecidableEq, Repr

namespace Dyadic

def fraction (d : Dyadic) : Fraction := .binary (4 * d.mantissa) (d.exponent - 2)

/-- the lower end of the interval that rounds to `d` -/
def lowerEnd (d : Dyadic) : Fraction :=
  .binary (4 * d.mantissa - if d.narrow then 1 else 2) (d.exponent - 2)

/-- the upper end of the interval that rounds to `d` -/
def upperEnd (d : Dyadic) : Fraction := .binary (4 * d.mantissa + 2) (d.exponent - 2)

/-- whether `k * 10 ^ e` reads back to `d` -/
def readsBack (d : Dyadic) (k : Nat) (e : Int) : Bool :=
  let low := d.lowerEnd.scaled e
  let high := d.upperEnd.scaled e
  if d.mantissa % 2 = 0 then low.num ≤ k * low.den && k * high.den ≤ high.num
  else low.num < k * low.den && k * high.den < high.num

/-- of the two neighbours of `d` among the multiples of `10 ^ e`, the one to write, if either
reads back -/
def onGrid (d : Dyadic) (e : Int) : Option Digits :=
  let x := d.fraction.scaled e
  let k := x.num / x.den
  let upperIsNearer := (2 * k + 1) * x.den < 2 * x.num
  let isTie := (2 * k + 1) * x.den == 2 * x.num
  match d.readsBack k e, d.readsBack (k + 1) e with
  | true, true => some ⟨if upperIsNearer || (isTie && k % 2 == 1) then k + 1 else k, e⟩
  | true, false => some ⟨k, e⟩
  | false, true => some ⟨k + 1, e⟩
  | false, false => none

/-- the shortest decimal that reads back to a positive `d`; seventeen digits always suffice, and
the value cut after them only stands where the search has no answer -/
def shortest (d : Dyadic) : Digits :=
  let top := d.fraction.magnitude
  let last := d.fraction.scaled (top - 16)
  ((List.range 17).findSome? fun (i : Nat) => d.onGrid (top - i)).getD ⟨last.num / last.den, top - 16⟩

end Dyadic

end DocTypes.Decimal
