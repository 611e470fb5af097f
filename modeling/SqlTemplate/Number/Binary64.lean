import SqlTemplate.Number.Decimal
import SqlTemplate.Text.Blank
import SqlTemplate.Text.Case

set_option autoImplicit false

/-!
# Binary floating point

Numbers with a binary fraction of 53 bits, as whole numbers times powers of two, so that all
arithmetic on them is exact arithmetic of whole numbers. The file rounds a ratio and a decimal
to the nearest such number, a half going to the even neighbour, and reads the usual decimal
notation.
-/

namespace SqlTemplate

/-- A binary floating-point number of double precision. A finite one is
`± mantissa * 2 ^ exponent`, where the exponent is at least `-1074` and the mantissa is below
`2 ^ 53`, and at least `2 ^ 52` unless the exponent is `-1074`. -/
inductive Binary64 where
  | nan
  | infinite (negative : Bool)
  -- a finite number; zero has a sign too
  | finite (negative : Bool) (mantissa : Nat) (exponent : Int)
  deriving DecidableEq, Repr

namespace Binary64

/-- What every mantissa is below. -/
def mantissaBound : Nat := Nat.pow 2 53

/-- The least mantissa of a number that is not close to zero. -/
def leastNormal : Nat := Nat.pow 2 52

/-- The least exponent. -/
def minExponent : Int := -1074

/-- The greatest exponent. -/
def maxExponent : Int := 971

/-- The numerator and denominator of `num / den / base ^ e`. -/
def scaled (base num den : Nat) : Int → Nat × Nat
  | .ofNat e => (num, den * Nat.pow base e)
  | .negSucc e => (num * Nat.pow base (e + 1), den)

/-- The quotient rounded to the nearest whole number, a half to the even neighbour. -/
def roundedQuotient (num den : Nat) : Nat :=
  let q := num / den
  let twice := 2 * (num % den)
  if twice < den then q
  else if den < twice then q + 1
  else if q % 2 = 0 then q else q + 1

/-- The exponent `e` with `2 ^ e ≤ num / den < 2 ^ (e + 1)`. -/
def leadingExponent (num den : Nat) : Int :=
  let guess : Int := (num.log2 : Int) - (den.log2 : Int)
  let (n, d) := scaled 2 num den guess
  if d ≤ n then guess else guess - 1

/-- The number nearest to a ratio, infinity when it is too large. -/
def ofRatio (negative : Bool) (num den : Nat) : Binary64 :=
  if num = 0 then .finite negative 0 minExponent
  else
    let e := max (leadingExponent num den - 52) minExponent
    let (n, d) := scaled 2 num den e
    let m := roundedQuotient n d
    let (m, e) := if m = mantissaBound then (leastNormal, e + 1) else (m, e)
    if maxExponent < e then .infinite negative else .finite negative m e

/-- The number nearest to `digits * 10 ^ exponent`. A decimal far outside the range is settled
by its order of magnitude. -/
def ofDecimal (negative : Bool) (digits : Nat) (exponent : Int) : Binary64 :=
  let magnitude := ((Decimal.ofNat digits).length : Int) + exponent
  if digits = 0 || magnitude < -400 then .finite negative 0 minExponent
  else if 400 < magnitude then .infinite negative
  else
    match exponent with
    | .ofNat e => ofRatio negative (digits * Nat.pow 10 e) 1
    | .negSucc e => ofRatio negative digits (Nat.pow 10 (e + 1))

/-- The number given by its digits before and after the point and its decimal exponent. -/
def ofParts (negative : Bool) (whole fraction : Text) (exponent : Int) : Binary64 :=
  ofDecimal negative (Decimal.value (whole ++ fraction)) (exponent - fraction.length)

/-- The whole number that this is, if it is one. -/
def toInt? : Binary64 → Option Int
  | .finite negative m (.ofNat e) =>
      let n : Int := (m * Nat.pow 2 e : Nat)
      some (if negative then -n else n)
  | .finite negative m (.negSucc e) =>
      let d := Nat.pow 2 (e + 1)
      if m % d = 0 then
        let n : Int := (m / d : Nat)
        some (if negative then -n else n)
      else none
  | _ => none

/-! ## Decimal notation -/

/-- The exponent written behind the mark `e`; no mark stands for zero. -/
def readExponent? : Text → Option Int
  | [] => some 0
  | c :: t => if c == 'e' || c == 'E' then Decimal.readInt? t else none

/-- Reads digits, an optional point with further digits and an optional exponent. There is a
digit before or after the point. -/
def readUnsigned? (negative : Bool) (t : Text) : Option Binary64 :=
  let whole := t.takeWhile Char.isDigit
  let rest := t.dropWhile Char.isDigit
  let afterPoint := match rest with
    | '.' :: r => r
    | _ => []
  let fraction := afterPoint.takeWhile Char.isDigit
  let rest := match rest with
    | '.' :: r => r.dropWhile Char.isDigit
    | r => r
  if whole.isEmpty && fraction.isEmpty then none
  else (readExponent? rest).map fun e => ofParts negative whole fraction e

/-- Reads decimal notation or the word for a special number, in any case. -/
def readMagnitude? (negative : Bool) (t : Text) : Option Binary64 :=
  let word := t.lower
  if word = "nan".toList then some .nan
  else if word = "inf".toList || word = "infinity".toList then some (.infinite negative)
  else readUnsigned? negative t

/-- The number that a text stands for. -/
def ofText? (t : Text) : Option Binary64 :=
  let (negative, magnitude) := Decimal.splitSign (Decimal.plain t)
  readMagnitude? negative magnitude

end Binary64

end SqlTemplate
