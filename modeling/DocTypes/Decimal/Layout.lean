import DocTypes.Decimal.Shortest

/-!
# Laying out a decimal

The digits of a number are written out in place as long as its first digit stands from four places
after the point to sixteen before it, always with at least one digit after the point; beyond that
with an exponent, which has a sign and at least two digits.  Two layouts are in use; they differ in
the words for what is no finite number.
-/

namespace DocTypes.Decimal

structure Layout where
  /-- the least exponent of the first digit that is written in place -/
  lowest : Int
  /-- from this exponent of the first digit on, an exponent is written -/
  limit : Int
  infinity : String
  notANumber : String

def zeros (n : Nat) : List Char := List.replicate n '0'

/-- an exponent with its sign and at least two digits -/
def exponentText (e : Int) : List Char :=
  let digits := Nat.toDigits 10 e.natAbs
  (if e < 0 then '-' else '+') :: (zeros (2 - digits.length) ++ digits)

/-- digits without zeros at their end; `first` is the exponent of the first of them -/
def Layout.digits (layout : Layout) (ds : List Char) (first : Int) : List Char :=
  if first < layout.lowest || layout.limit ≤ first then
    let fraction := if ds.length ≤ 1 then [] else '.' :: ds.drop 1
    ds.take 1 ++ fraction ++ 'e' :: exponentText first
  else if first < 0 then '0' :: '.' :: (zeros (-first - 1).toNat ++ ds)
  else
    let whole := first.toNat + 1
    let fraction := ds.drop whole
    ds.take whole ++ zeros (whole - ds.length) ++ '.' :: (if fraction.isEmpty then ['0'] else fraction)

/-- a size as its shortest decimal -/
def Layout.size (layout : Layout) (d : Dyadic) : List Char :=
  if d.mantissa = 0 then ['0', '.', '0']
  else
    let shortest := d.shortest
    let all := Nat.toDigits 10 shortest.digits
    let kept := (all.reverse.dropWhile (· == '0')).reverse
    layout.digits kept (shortest.exponent + all.length - 1)

def Layout.write (layout : Layout) (x : Binary64) : String :=
  let signed (s : String) : String := if x.isNegative then "-" ++ s else s
  match x.value with
  | .finite d => signed (String.ofList (layout.size d))
  | .infinite => signed layout.infinity
  | .notANumber => layout.notANumber

end DocTypes.Decimal
