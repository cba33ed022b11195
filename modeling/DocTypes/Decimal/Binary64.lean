/-!
# Binary floating-point numbers of 64 bits

A number is kept as its 64 bits, so that two numbers are the same exactly when their bits are.

* `Binary64.value`     what the bits stand for: a finite `mantissa * 2 ^ exponent` with a sign, an
                       infinity, or no number;
* `Binary64.truncated?`  the integer left when the fraction is cut off.
-/

namespace DocTypes.Decimal

structure Binary64 where
  bits : UInt64
  deriving DecidableEq, Repr

/-- `mantissa * 2 ^ exponent`; `narrow` says that the next smaller number of the format is only
half as far away as the next greater one -/
structure Dyadic where
  mantissa : Nat
  exponent : Int
  narrow : Bool

inductive Value where
  | finite (size : Dyadic)
  | infinite
  | notANumber

namespace Binary64

/-- the number of fractions: one more than the greatest -/
def fractions : Nat := 1 <<< 52

def isNegative (x : Binary64) : Bool := x.bits.toNat.testBit 63

/-- the size of the number; its sign is `isNegative` -/
def value (x : Binary64) : Value :=
  let fraction := x.bits.toNat % fractions
  match x.bits.toNat / fractions % 2048 with
  | 0 => .finite ⟨fraction, -1074, false⟩
  | 2047 => if fraction = 0 then .infinite else .notANumber
  | e => .finite ⟨fractions + fraction, e - 1075, fraction == 0 && e != 1⟩

def isZero (x : Binary64) : Bool := x.bits.toNat % (1 <<< 63) == 0

end Binary64

/-- the integer part of a size -/
def Dyadic.floor (d : Dyadic) : Nat :=
  match d.exponent with
  | .ofNat n => d.mantissa <<< n
  | .negSucc n => d.mantissa >>> (n + 1)

/-- the integer that is left when the fraction is cut off -/
def Binary64.truncated? (x : Binary64) : Option Int :=
  match x.value with
  | .finite d => some (if x.isNegative then -(d.floor : Int) else d.floor)
  | _ => none

end DocTypes.Decimal
