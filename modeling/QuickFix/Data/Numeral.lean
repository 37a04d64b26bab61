import QuickFix.Data.Json
import QuickFix.Number.Width

/-!
# JSON numerals

What number the digits of a JSON numeral give. Integers that fit into 64 bits are kept as they are.
All others become numbers of double precision in two roundings: first the digits that fit into 64
bits, then their product or quotient by a power of ten.
-/

namespace QuickFix

/-- A number as JSON text writes it. -/
structure Numeral where
  negative : Bool
  /-- The digits before the point. -/
  whole : Text
  /-- The digits after the point, if there is one. -/
  fraction? : Option Text
  /-- What stands after the letter `e`, if there is one. -/
  exponent? : Option Int
  deriving DecidableEq, Repr

namespace Numeral

/-- The number that `n` and the digits after it spell, as long as it fits into 64 bits, and the digits
that are left. -/
def absorb (n : Nat) : Text → Nat × Text
  | [] => (n, [])
  | c :: t =>
    let next := 10 * n + (c.toNat - '0'.toNat)
    if fitsUnsigned64 next then absorb next t else (n, c :: t)

/-- The product with a power of ten; `none` past the largest number. -/
def scale? (x : Double) (exponent : Int) : Option Double :=
  if x matches .finite _ 0 _ then some x
  else if exponent < -308 then scale? (x.overPower 308) (exponent + 308)
  else if exponent < 0 then some (x.overPower exponent.natAbs)
  else if 308 < exponent then none
  else
    let y := x.timesPower exponent.toNat
    if y matches .infinite _ then none else some y
termination_by exponent.natAbs
decreasing_by omega

/-- The number of double precision that is meant; `none` past the largest. -/
def toDouble? (n : Numeral) : Option Double :=
  let (digits, left) := absorb 0 n.whole
  let fraction := n.fraction?.getD []
  let (digits, ignored) := absorb digits fraction
  let taken : Int := fraction.length - ignored.length
  scale? (.ofFraction n.negative digits 1) (left.length - taken + n.exponent?.getD 0)

/-- The integer that the digits spell, with the sign. -/
def toInt (n : Numeral) : Int :=
  let m := n.whole.foldl (fun m c => 10 * m + (c.toNat - '0'.toNat)) 0
  if n.negative then -m else m

/-- Is it written as an integer, and fits into 64 bits, with a sign only if it is negative? -/
def isInteger (n : Numeral) : Bool :=
  n.fraction?.isNone && n.exponent?.isNone &&
    if n.negative then n.toInt < 0 && fitsSigned64 n.toInt else fitsUnsigned64 n.toInt

/-- The number that is meant; `none` past the largest. -/
def value? (n : Numeral) : Option Json :=
  if n.isInteger then some (.integer n.toInt) else n.toDouble?.map .float

end Numeral

end QuickFix
