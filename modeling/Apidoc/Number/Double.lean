/-!
# Finite double-precision numbers

A double is a sign, a significand below `2 ^ 53` and a power of two.  Arithmetic is exact
arithmetic on naturals followed by one rounding: to the nearest double, a tie to the even
significand.

* `roundQuotient n d`        `n / d` to the nearest natural, a tie to the even one;
* `Double.ofRatio`           the double nearest to a quotient of naturals;
* `Double.ofDecimal`         the double nearest to `digits * 10 ^ exponent`;
* `Double.mul`, `Double.div` the rounded product and quotient.

A result too large for a double is no double (`none`).
-/

namespace Apidoc

/-! ## rounding -/

def roundQuotient (n d : Nat) : Nat :=
  let q := n / d
  let r := n % d
  if 2 * r < d then q else if d < 2 * r then q + 1 else q + q % 2

/-! ## doubles -/

/-- `significand * 2 ^ exponent`, with a sign; the exponent is at least -1074, and the
significand has 53 bits unless the exponent is -1074 -/
structure Double where
  negative : Bool
  significand : Nat
  exponent : Int
deriving DecidableEq, Repr, Inhabited

namespace Double

def leastExponent : Int := -1074
def greatestExponent : Int := 971

def zero (negative : Bool) : Double := ⟨negative, 0, leastExponent⟩

def isZero (x : Double) : Bool := x.significand == 0

/-- the numerator and the denominator of `n / d / 2 ^ e` -/
def scaled (n d : Nat) (e : Int) : Nat × Nat :=
  if 0 ≤ e then (n, d * Nat.pow 2 e.toNat) else (n * Nat.pow 2 (-e).toNat, d)

def ofRatio (negative : Bool) (n d : Nat) : Option Double :=
  if n = 0 then some (zero negative)
  else
    let e : Int := (n.log2 : Int) - d.log2 - 52
    let (a, b) := scaled n d e
    let e := max (if a / b < Nat.pow 2 52 then e - 1 else e) leastExponent
    let (a, b) := scaled n d e
    let m := roundQuotient a b
    let (m, e) := if m = Nat.pow 2 53 then (Nat.pow 2 52, e + 1) else (m, e)
    if greatestExponent < e then none else some ⟨negative, m, e⟩

def ofNat (n : Nat) : Option Double := ofRatio false n 1

/-- the number of decimal digits of a natural, one for zero -/
def decimalLength (n : Nat) : Nat := (Nat.toDigits 10 n).length

/-- A decimal with more than 310 digits before its point is too large and one with more than
330 zeros after its point is nothing; only between these bounds the powers of ten are formed. -/
def ofDecimal (negative : Bool) (digits : Nat) (exponent : Int) : Option Double :=
  if digits = 0 then some (zero negative)
  else
    let size : Int := decimalLength digits + exponent
    if 310 < size then none
    else if size < -330 then some (zero negative)
    else if 0 ≤ exponent then ofRatio negative (digits * Nat.pow 10 exponent.toNat) 1
    else ofRatio negative digits (Nat.pow 10 (-exponent).toNat)

def mul (x y : Double) : Option Double :=
  let (a, b) := scaled (x.significand * y.significand) 1 (-(x.exponent + y.exponent))
  ofRatio (x.negative != y.negative) a b

/-- the quotient by a double other than zero -/
def div (x y : Double) : Option Double :=
  let (a, b) := scaled x.significand y.significand (y.exponent - x.exponent)
  ofRatio (x.negative != y.negative) a b

def neg (x : Double) : Double := { x with negative := !x.negative }

end Double

end Apidoc
