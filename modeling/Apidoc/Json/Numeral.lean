import Apidoc.Number.Decimal
import Apidoc.Value

/-!
# Numbers in JSON

A number is an optional minus, digits without a needless leading zero, and optionally a point
with digits and an exponent.

* `Numeral.read?`     the number at the start of a text, and the rest;
* `Numeral.value?`    its value: an integer if it has neither point nor exponent and fits a
  64-bit word (signed below zero, unsigned above), and a double otherwise.

A double is found in two steps.  The digits are taken as long as their value fits an unsigned
64-bit word; the digits before the point that are left over count as powers of ten and those
after it are dropped.  What was taken is rounded to a double, and is then multiplied with or
divided by the rounded power of ten, in steps of `10 ^ 308` when the power is smaller than
`10 ^ -308`.
-/

namespace Apidoc.Json

open Text (isAsciiDigit)

/-- the parts of a number as they are written -/
structure Numeral where
  negative : Bool
  whole : List Char
  /-- the digits after the point -/
  fraction : Option (List Char)
  /-- whether the exponent is negative, and its digits -/
  exponent : Option (Bool × List Char)
deriving DecidableEq, Repr

namespace Numeral

/-! ## reading -/

/-- a point and digits, if a point follows -/
def readFraction? : List Char → Option (Option (List Char) × List Char)
  | '.' :: s =>
    let (ds, rest) := spanDigits s
    if ds.isEmpty then none else some (some ds, rest)
  | s => some (none, s)

def readExponent? : List Char → Option (Option (Bool × List Char) × List Char)
  | c :: s =>
    if c = 'e' ∨ c = 'E' then
      let (negative, s) := readSign s
      let (ds, rest) := spanDigits s
      if ds.isEmpty then none else some (some (negative, ds), rest)
    else some (none, c :: s)
  | [] => some (none, [])

def read? (s : List Char) : Option (Numeral × List Char) := do
  let (negative, s) := match s with
    | '-' :: s => (true, s)
    | s => (false, s)
  let (whole, s) := spanDigits s
  if whole.isEmpty || (whole.head? == some '0' && whole.length != 1) then none
  let (fraction, s) ← readFraction? s
  let (exponent, s) ← readExponent? s
  some (⟨negative, whole, fraction, exponent⟩, s)

/-! ## meaning -/

def wordLimit : Nat := Nat.pow 2 64

/-- appends digits to `n` while the value fits an unsigned 64-bit word, and counts the digits
appended; the digits that are left -/
def takeDigits : Nat → List Char → Nat × Nat × List Char
  | n, [] => (n, 0, [])
  | n, d :: ds =>
    let n' := 10 * n + digitValue d
    if n' < wordLimit then
      let (m, k, rest) := takeDigits n' ds
      (m, k + 1, rest)
    else (n, 0, d :: ds)

/-- the double nearest to `10 ^ k` -/
def power? (k : Nat) : Option Double := Double.ofNat (Nat.pow 10 k)

/-- divides by `10 ^ k`, first by `10 ^ 308` as often as `k` exceeds 308 -/
def divPower? : Nat → Double → Nat → Option Double
  | 0, x, _ => some x
  | fuel + 1, x, k =>
    if k ≤ 308 then do x.div (← power? k)
    else if x.isZero then some x
    else do divPower? fuel (← x.div (← power? 308)) (k - 308)

/-- `n * 10 ^ e`, rounded after each step -/
def scale? (n : Nat) (e : Int) : Option Double := do
  let x ← Double.ofNat n
  if e < 0 then
    -- a double survives three divisions by `10 ^ 308` only as zero
    divPower? 4 x e.natAbs
  else if e ≤ 308 then x.mul (← power? e.toNat)
  else if x.isZero then some x
  else none

/-- an exponent has at most 31 bits; a longer one stands for infinity or for zero -/
def exponentLimit : Nat := Nat.pow 2 31

def double? (x : Numeral) : Option Double := do
  let (n, _, left) := takeDigits 0 x.whole
  let (n, k, _) := takeDigits n (x.fraction.getD [])
  let shift : Int := left.length - k
  let d ← match x.exponent with
    | none => scale? n shift
    | some (negative, ds) =>
      let e := digitsValue ds
      if exponentLimit ≤ e then
        if n ≠ 0 ∧ !negative then none else some (.zero false)
      else scale? n (if negative then shift - e else shift + e)
  some (if x.negative then d.neg else d)

def value? (x : Numeral) : Option Value :=
  if x.fraction.isSome || x.exponent.isSome then x.double?.map .double
  else
    let n := digitsValue x.whole
    if x.negative then
      if 0 < n ∧ n ≤ Nat.pow 2 63 then some (.integer (-(n : Int))) else x.double?.map .double
    else if n < wordLimit then some (.integer n)
    else x.double?.map .double

end Numeral

end Apidoc.Json
