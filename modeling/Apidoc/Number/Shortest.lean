import Apidoc.Number.Double

/-!
# The text of a double: the fewest digits that read back

The reals that round to a double form an interval around it, halfway to its two neighbours,
with its ends when the significand is even.  `Double.shortest` searches the decimal grids of
1, 2, ... 17 digits for a point of that interval; on the first grid that has one it takes the
nearer of the two points beside the double.

How the digits are laid out is a `NumberLayout`: positional from `10 ^ -5` up to below
`10 ^ 16`, always with a point, and with an exponent otherwise.  Formats differ in the plus sign
of the exponent.
-/

namespace Apidoc

namespace Double

/-! ## digits -/

/-- whether `c * 10 ^ k` rounds to the double `m * 2 ^ e`: the comparison with the two halfway
points, in quarters of the last place -/
def readsBack (m : Nat) (e : Int) (c : Nat) (k : Int) : Bool :=
  let lo := if m = Nat.pow 2 52 ∧ leastExponent < e then 4 * m - 1 else 4 * m - 2
  let hi := 4 * m + 2
  let (p, r) := scaled 1 1 (2 - e)
  let (s, t) := if 0 ≤ k then (Nat.pow 10 k.toNat, 1) else (1, Nat.pow 10 (-k).toNat)
  let x := c * s * r
  if m % 2 = 0 then lo * p * t ≤ x && x ≤ hi * p * t
  else lo * p * t < x && x < hi * p * t

/-- `floor (m * 2 ^ e / 10 ^ k)` and the doubled remainder's comparison with the unit: whether
the point above is nearer -/
def gridFloor (m : Nat) (e k : Int) : Nat × Bool :=
  let (p, r) := scaled m 1 (-e)
  let (a, b) := if 0 ≤ k then (p, r * Nat.pow 10 k.toNat) else (p * Nat.pow 10 (-k).toNat, r)
  (a / b, b < 2 * (a % b) || (b == 2 * (a % b) && a / b % 2 == 1))

/-- `e` with `10 ^ e ≤ m * 2 ^ q < 10 ^ (e + 1)` -/
def decimalExponent (m : Nat) (q : Int) : Int :=
  let (p, r) := scaled (m * Nat.pow 10 400) 1 (-q)
  (decimalLength (p / r) : Int) - 401

/-- the search through the grids with `n`, `n + 1`, ... digits -/
def shortestFrom (m : Nat) (e top : Int) : Nat → Nat → Nat × Int
  | 0, _ =>
    let k := top - 16
    ((gridFloor m e k).1, k)
  | fuel + 1, n =>
    let k := top - n + 1
    let (c, up) := gridFloor m e k
    match readsBack m e c k, readsBack m e (c + 1) k with
    | true, true => (if up then c + 1 else c, k)
    | true, false => (c, k)
    | false, true => (c + 1, k)
    | false, false => shortestFrom m e top fuel (n + 1)

/-- a number of tens moved into the exponent -/
def stripZeros : Nat → Nat → Int → Nat × Int
  | 0, c, k => (c, k)
  | fuel + 1, c, k =>
    if c % 10 = 0 ∧ c ≠ 0 then stripZeros fuel (c / 10) (k + 1) else (c, k)

/-- the decimal `digits * 10 ^ exponent` with the fewest digits that reads back -/
def shortest (x : Double) : Nat × Int :=
  let (c, k) :=
    shortestFrom x.significand x.exponent (decimalExponent x.significand x.exponent) 17 1
  stripZeros 18 c k

end Double

/-! ## layout -/

structure NumberLayout where
  /-- what stands before the digits of a positive exponent -/
  plus : List Char

namespace NumberLayout

def zeros (n : Nat) : List Char := List.replicate n '0'

/-- a decimal other than zero, without its sign -/
def decimal (layout : NumberLayout) (digits : List Char) (exponent : Int) : List Char :=
  let point : Int := digits.length + exponent
  if -5 < point ∧ point ≤ 16 then
    if 0 ≤ exponent then digits ++ zeros exponent.toNat ++ ['.', '0']
    else if 0 < point then digits.take point.toNat ++ '.' :: digits.drop point.toNat
    else '0' :: '.' :: zeros (-point).toNat ++ digits
  else
    let e := point - 1
    let mantissa := match digits with
      | d :: rest@(_ :: _) => d :: '.' :: rest
      | ds => ds
    mantissa ++ 'e' :: (if e < 0 then ['-'] else layout.plus) ++ Nat.toDigits 10 e.natAbs

def double (layout : NumberLayout) (x : Double) : List Char :=
  let body :=
    if x.isZero then ['0', '.', '0']
    else
      let (c, k) := x.shortest
      layout.decimal (Nat.toDigits 10 c) k
  if x.negative then '-' :: body else body

end NumberLayout

end Apidoc
