import Apidoc.Number.Double
import Apidoc.Text.Word

/-!
# Numbers written in decimal

* `Decimal`           a sign, digits and a power of ten;
* `Decimal.read?`     reads `[sign] digits [. digits] [e [sign] digits]` with at least one digit
  on one side of the point;
* `readInteger?`      reads a sign and digits whose value a signed 64-bit word holds;
* `readDouble?`       reads a decimal and rounds it; what is too large for a double is refused.
-/

namespace Apidoc

open Text (isAsciiDigit)

/-! ## digits -/

def digitValue (c : Char) : Nat := c.toNat - '0'.toNat

/-- the natural that a digit run writes -/
def digitsValue (ds : List Char) : Nat := ds.foldl (fun n c => 10 * n + digitValue c) 0

/-- the sign in front of a number, true for minus, and the rest -/
def readSign : List Char → Bool × List Char
  | '-' :: s => (true, s)
  | '+' :: s => (false, s)
  | s => (false, s)

/-- the leading digits and the rest -/
def spanDigits (s : List Char) : List Char × List Char :=
  (s.takeWhile isAsciiDigit, s.dropWhile isAsciiDigit)

/-! ## decimals -/

structure Decimal where
  negative : Bool
  digits : Nat
  exponent : Int
deriving DecidableEq, Repr

namespace Decimal

/-- `e` or `E`, a sign and digits, or nothing at all -/
def readExponent? : List Char → Option Int
  | [] => some 0
  | c :: s =>
    if c = 'e' ∨ c = 'E' then
      let (negative, s) := readSign s
      let (ds, rest) := spanDigits s
      if ds.isEmpty || !rest.isEmpty then none
      else some (if negative then -(digitsValue ds : Int) else digitsValue ds)
    else none

def read? (s : List Char) : Option Decimal := do
  let (negative, s) := readSign s
  let (whole, s) := spanDigits s
  let (fraction, s) := match s with
    | '.' :: s => spanDigits s
    | s => ([], s)
  if whole.isEmpty && fraction.isEmpty then none
  let e ← readExponent? s
  some ⟨negative, digitsValue (whole ++ fraction), e - fraction.length⟩

def toDouble? (d : Decimal) : Option Double :=
  Double.ofDecimal d.negative d.digits d.exponent

end Decimal

/-! ## reading numbers -/

def readDouble? (s : List Char) : Option Double := (Decimal.read? s).bind Decimal.toDouble?

def leastInteger : Int := -Int.pow 2 63
def greatestInteger : Int := Int.pow 2 63 - 1

def readInteger? (s : List Char) : Option Int :=
  let (negative, ds) := readSign s
  if ds.isEmpty || !ds.all isAsciiDigit then none
  else
    let n : Int := if negative then -(digitsValue ds : Int) else digitsValue ds
    if leastInteger ≤ n ∧ n ≤ greatestInteger then some n else none

end Apidoc
