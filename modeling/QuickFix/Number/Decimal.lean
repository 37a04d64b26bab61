import QuickFix.Text.Basic

/-!
# Decimal and binary numbers

A `Decimal` is a number as it is written; `Double.ofDecimal` is the double-precision number nearest
to it, and `Double.shortest` the decimal with the fewest digits that is read back as that number.
All of it is exact arithmetic on naturals. `Decimal.integer?` and `Double.parse?` read a text as a number
if all of it is one.
-/

namespace QuickFix

/-- The number `digits · 10 ^ exponent`, with a sign. -/
structure Decimal where
  negative : Bool
  digits : Nat
  exponent : Int
  deriving DecidableEq, Repr

/-- A number of double precision: `mantissa · 2 ^ exponent` with a sign, or one past all of those. A
mantissa has 53 bits, fewer only at the least exponent, -1074. -/
inductive Double where
  | finite (negative : Bool) (mantissa : Nat) (exponent : Int)
  | infinite (negative : Bool)
  | notANumber
  deriving DecidableEq, Repr

/-- Which of two integers is taken for what lies halfway between them. -/
inductive Tie where
  | even
  /-- The greater one. -/
  | up
  deriving DecidableEq, Repr

namespace Decimal

/-- The number that decimal digits spell, of which there is one at least. -/
def digits? (t : Text) : Option Nat :=
  if t.isEmpty || !t.all Char.isDigit then none
  else some (t.foldl (fun n c => 10 * n + (c.toNat - '0'.toNat)) 0)

/-- The number that decimal digits spell, a plus sign before them allowed. -/
def natural? : Text → Option Nat
  | '+' :: t => digits? t
  | t => digits? t

/-- The integer that decimal digits spell, with a sign before them or without one. -/
def integer? : Text → Option Int
  | '-' :: t => (digits? t).map fun n => -(n : Int)
  | t => (natural? t).map Int.ofNat

/-- The number that decimal digits spell, with a point among them or without one and with an exponent
behind them or without one; its sign is taken as given. -/
def unsigned? (negative : Bool) (t : Text) : Option Decimal := do
  let whole := t.takeWhile Char.isDigit
  let (fraction, rest) := match t.dropWhile Char.isDigit with
    | '.' :: r => (r.takeWhile Char.isDigit, r.dropWhile Char.isDigit)
    | r => ([], r)
  let exponent ← match rest with
    | [] => some 0
    | c :: r => if c = 'e' ∨ c = 'E' then integer? r else none
  return ⟨negative, ← digits? (whole ++ fraction), exponent - fraction.length⟩

end Decimal

namespace Double

/-- `a / b` as an integer, to the nearest. -/
def roundDiv (tie : Tie) (a b : Nat) : Nat :=
  let n := a / b
  let r := a % b
  if b < 2 * r ∨ (2 * r = b ∧ (tie = .up ∨ n % 2 = 1)) then n + 1 else n

/-- Numerator and denominator of `(a / b) · base ^ k`. -/
def scaleBy (base : Nat) (k : Int) (a b : Nat) : Nat × Nat :=
  if 0 ≤ k then (a * Nat.pow base k.toNat, b) else (a, b * Nat.pow base (-k).toNat)

/-- The least mantissa of 53 bits, two to the power 52. -/
def leastMantissa : Nat := 4503599627370496

/-- The least exponent. -/
def leastExponent : Int := -1074

/-- The exponent of the number nearest to `a / b`, both positive. -/
def exponentOf (a b : Nat) : Int :=
  let q := (Nat.log2 a : Int) - Nat.log2 b - 52
  let (n, d) := scaleBy 2 (-q) a b
  max leastExponent (if n < leastMantissa * d then q - 1 else q)

/-- The number nearest to `a / b`, a tie to the even mantissa; infinite past the largest. -/
def ofFraction (negative : Bool) (a b : Nat) : Double :=
  if a = 0 then .finite negative 0 leastExponent
  else
    let q := exponentOf a b
    let (n, d) := scaleBy 2 (-q) a b
    let m := roundDiv .even n d
    let (m, q) := if m = 2 * leastMantissa then (leastMantissa, q + 1) else (m, q)
    if 971 < q then .infinite negative else .finite negative m q

/-- The number nearest to a decimal. Decimals far out of range are not expanded. -/
def ofDecimal (d : Decimal) : Double :=
  let magnitude := d.exponent + (Nat.toDigits 10 d.digits).length
  if d.digits = 0 ∨ magnitude < -400 then .finite d.negative 0 leastExponent
  else if 400 < magnitude then .infinite d.negative
  else
    let (a, b) := scaleBy 10 d.exponent d.digits 1
    ofFraction d.negative a b

/-- The number that a text spells, its sign taken as given; words stand for what is not finite. -/
def unsigned? (negative : Bool) (t : Text) : Option Double :=
  if Text.lower t = "inf" ∨ Text.lower t = "infinity" then some (.infinite negative)
  else if Text.lower t = "nan" then some .notANumber
  else (Decimal.unsigned? negative t).map ofDecimal

/-- The number that a text spells. -/
def parse? : Text → Option Double
  | '-' :: t => unsigned? true t
  | '+' :: t => unsigned? false t
  | t => unsigned? false t

/-- Place among all numbers, in units of the least positive one. Zero has one place with both signs, and
what is no number comes last. -/
def place (x : Double) : Int :=
  let signed (negative : Bool) (n : Nat) : Int := if negative then -n else n
  -- More units than any finite number has.
  let infinity := Nat.pow 2 2098
  match x with
  | .finite negative m q => signed negative (m * Nat.pow 2 (q - leastExponent).toNat)
  | .infinite negative => signed negative infinity
  | .notANumber => infinity + 1

/-! ## Scaling -/

/-- Numerator and denominator of `m · 2 ^ q`. -/
def fraction (m : Nat) (q : Int) : Nat × Nat := scaleBy 2 q m 1

/-- The number nearest to the product with the number that is nearest to `10 ^ k`. -/
def timesPower (x : Double) (k : Nat) : Double :=
  match x, ofDecimal ⟨false, 1, k⟩ with
  | .finite negative m q, .finite _ n r =>
    let (a, b) := fraction m q
    let (c, d) := fraction n r
    ofFraction negative (a * c) (b * d)
  | .finite negative _ _, _ => .infinite negative
  | x, _ => x

/-- The number nearest to the quotient by the number that is nearest to `10 ^ k`. -/
def overPower (x : Double) (k : Nat) : Double :=
  match x, ofDecimal ⟨false, 1, k⟩ with
  | .finite negative m q, .finite _ n r =>
    let (a, b) := fraction m q
    let (c, d) := fraction n r
    ofFraction negative (a * d) (b * c)
  | .finite negative _ _, _ => .finite negative 0 leastExponent
  | x, _ => x

/-! ## Shortest decimals -/

/-- Is `n · 10 ^ k` read back as `m · 2 ^ q`: not farther from it than halfway to its neighbours, and
exactly halfway only if `m` is even? -/
def readsBack (m : Nat) (q : Int) (n : Nat) (k : Int) : Bool :=
  let narrow : Bool := m = leastMantissa ∧ leastExponent < q
  -- Everything in units of `2 ^ (q - 2)`.
  let low := 4 * m - if narrow then 1 else 2
  let high := 4 * m + 2
  let (a, b) := scaleBy 10 k n 1
  let (a, b) := scaleBy 2 (2 - q) a b
  if m % 2 = 0 then low * b ≤ a ∧ a ≤ high * b else low * b < a ∧ a < high * b

/-- The decimal at `10 ^ k`, or at the first smaller power of ten, that reads back as
`m · 2 ^ q`; `steps` powers are tried. -/
def shortestFrom (tie : Tie) (m : Nat) (q : Int) : Nat → Int → Nat × Int
  | 0, k => (0, k)
  | steps + 1, k =>
    let (a, b) := fraction m q
    let (a, b) := scaleBy 10 (-k) a b
    let near := roundDiv tie a b
    let far := if near = a / b then near + 1 else near - 1
    if readsBack m q near k then (near, k)
    else if readsBack m q far k then (far, k)
    else shortestFrom tie m q steps (k - 1)

/-- Digits and exponent of the shortest decimal that reads back as `m · 2 ^ q`, the nearest of those;
zero for zero. -/
def shortest (tie : Tie) (m : Nat) (q : Int) : Nat × Int :=
  if m = 0 then (0, 0)
  else
    let (a, b) := fraction m q
    let top := (Nat.toDigits 10 (a / b)).length
    let start : Int :=
      if b ≤ a then top
      else -((Nat.toDigits 10 (b / a)).length : Int) + 1
    -- The interval is narrower than the seventeenth digit.
    shortestFrom tie m q 20 start

/-- How numbers are written. -/
structure Style where
  /-- Is there no exponent? `point` is the place of the decimal point, counted from the first digit. -/
  positional : (point : Int) → Bool
  /-- Which of two shortest decimals is written for the number halfway between them. -/
  tie : Tie

/-- Written with digits only. -/
def plain : Style := ⟨fun _ => true, .up⟩

/-- Written with digits only from 0.00001 up to below 10 ^ 16. -/
def compact : Style := ⟨fun point => -5 < point ∧ point ≤ 16, .even⟩

/-- Digits with a decimal point at place `point`, at least one digit on either side of it. -/
def positional (digits : Text) (point : Int) : Text :=
  if point ≤ 0 then "0." ++ List.replicate (-point).toNat '0' ++ digits
  else
    let n := point.toNat
    let whole := digits.take n ++ List.replicate (n - digits.length) '0'
    let rest := digits.drop n
    whole ++ "." ++ if rest.isEmpty then ['0'] else rest

/-- The first digit, a point and the other digits if there are any, and the exponent with its sign. -/
def scientific (digits : Text) (point : Int) : Text :=
  let mantissa := match digits with
    | d :: e :: ds => d :: '.' :: e :: ds
    | ds => ds
  let e := point - 1
  mantissa ++ "e" ++ [if e < 0 then '-' else '+'] ++ Text.ofNat e.natAbs

/-- A number as text. -/
def render (style : Style) : Double → Text
  | .notANumber => "NaN"
  | .infinite negative => (if negative then ['-'] else []) ++ "inf"
  | .finite negative m q =>
    let (n, k) := shortest style.tie m q
    let digits := Text.ofNat n
    let point := k + digits.length
    (if negative then ['-'] else []) ++
      if style.positional point then positional digits point else scientific digits point

end Double

end QuickFix
