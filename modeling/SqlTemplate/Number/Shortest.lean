import SqlTemplate.Number.Binary64

set_option autoImplicit false

/-!
# Shortest decimal text of a floating-point number

A floating-point number is written with the fewest digits that read back as the same number and,
of the decimals with so few digits, the nearest one. The numbers that round to `m * 2 ^ q` form
an interval, the ends included when `m` is even. For 1, 2, … 17 digits the two neighbours of the
number on the decimal grid of that many digits are compared with the interval, and the first
grid with a neighbour inside it settles the digits.
-/

namespace SqlTemplate

namespace Binary64

/-- The interval of the positive numbers that round to one number, as ratios over a common
denominator. -/
structure RoundingInterval where
  low : Nat
  mid : Nat
  high : Nat
  -- the common denominator
  den : Nat
  -- whether the ends belong to the interval
  closed : Bool

/-- The interval of the numbers that round to `m * 2 ^ q`. Below a power of two the numbers lie
twice as close. -/
def RoundingInterval.of (m : Nat) (q : Int) : RoundingInterval :=
  let below := if m = leastNormal && minExponent < q then 1 else 2
  let (unit, den) := scaled 2 1 1 (2 - q)
  { low := (4 * m - below) * unit, mid := 4 * m * unit, high := (4 * m + 2) * unit, den,
    closed := m % 2 == 0 }

/-- Whether `digits * 10 ^ e` lies in the interval. -/
def RoundingInterval.holds (i : RoundingInterval) (digits : Nat) (e : Int) : Bool :=
  let (n, d) := scaled 10 digits 1 (-e)
  let x := n * i.den
  if i.closed then i.low * d ≤ x && x ≤ i.high * d else i.low * d < x && x < i.high * d

/-- The exponent `k` with `10 ^ (k - 1) ≤ num / den < 10 ^ k`. -/
def decimalMagnitude (num den : Nat) : Int :=
  let guess : Int := (Decimal.ofNat num).length - ((Decimal.ofNat den).length : Int)
  let (n, d) := scaled 10 num den guess
  if d ≤ n then guess + 1 else guess

/-- The nearest neighbour of the number on the grid of the multiples of `10 ^ e`, of those that
lie in the interval. Of two equally near ones it is the even one. -/
def RoundingInterval.onGrid? (i : RoundingInterval) (e : Int) : Option Nat :=
  let (n, d) := scaled 10 i.mid i.den e
  let down := n / d
  match i.holds down e, i.holds (down + 1) e with
  | true, true => some (roundedQuotient n d)
  | true, false => some down
  | false, true => some (down + 1)
  | false, false => none

/-- The first of the grids with `count`, `count + 1`, … digits that has a number in the
interval, `tries` grids in all; on the last one the neighbour below is taken as it is. -/
def RoundingInterval.shortest (i : RoundingInterval) (magnitude : Int) :
    (tries count : Nat) → Nat × Int
  | 0, count =>
      let e := magnitude - count
      let (n, d) := scaled 10 i.mid i.den e
      (n / d, e)
  | tries + 1, count =>
      let e := magnitude - count
      match i.onGrid? e with
      | some digits => (digits, e)
      | none => i.shortest magnitude tries (count + 1)

/-- The digits and the decimal exponent of the shortest decimal that reads back as
`m * 2 ^ q`, which is not zero. -/
def shortestDecimal (m : Nat) (q : Int) : Nat × Int :=
  let i := RoundingInterval.of m q
  i.shortest (decimalMagnitude i.mid i.den) 17 1

/-! ## Layout -/

/-- The text of an exponent: its sign and at least two digits. -/
def exponentText (e : Int) : Text :=
  let digits := Decimal.ofNat e.natAbs
  (if e < 0 then '-' else '+') :: (if digits.length < 2 then '0' :: digits else digits)

/-- A decimal whose digits start with `point` places before the decimal point: with an exponent
when the leading digit counts at least `10 ^ 16` or less than `10 ^ -4`, and otherwise with at
least one digit on either side of the point. -/
def layout (digits : Text) (point : Int) : Text :=
  if 16 < point || point < -3 then
    let fraction := if digits.length ≤ 1 then [] else '.' :: digits.drop 1
    digits.take 1 ++ fraction ++ 'e' :: exponentText (point - 1)
  else
    match point with
    | .ofNat p =>
        let whole := digits.take p ++ List.replicate (p - digits.length) '0'
        let fraction := digits.drop p
        (if whole.isEmpty then ['0'] else whole) ++ '.'
          :: (if fraction.isEmpty then ['0'] else fraction)
    | .negSucc p => "0.".toList ++ List.replicate (p + 1) '0' ++ digits

/-- The text of a finite number that is not negative. -/
def magnitudeText (m : Nat) (q : Int) : Text :=
  if m = 0 then "0.0".toList
  else
    let (digits, e) := shortestDecimal m q
    let ds := Decimal.ofNat digits
    let significant := (ds.reverse.dropWhile (· == '0')).reverse
    layout significant (ds.length + e)

/-- The text of a number. -/
def text : Binary64 → Text
  | .nan => "nan".toList
  | .infinite negative => if negative then "-inf".toList else "inf".toList
  | .finite negative m q =>
      if negative then '-' :: magnitudeText m q else magnitudeText m q

end Binary64

end SqlTemplate
