import Apidoc.Number.Decimal

/-!
# What plain scalars mean in YAML

A scalar that is written plainly, without quotation marks, may stand for something else than
its text.  `Plain.readsAsText` tells when it does not:

* `isNull`       the words for null;
* `isBool`       the words for the truth values;
* `isInteger`    digits in base 16, 8 or 2 after `0x`, `0o`, `0b`, with a value that 128 bits hold;
* `isNumber`     a decimal that a double holds, and the words for infinity and for no number;
* `isPadded`     a digit run with a needless zero in front, which is a text but looks like a
  number.

A decimal integer is a decimal, so `isNumber` covers it.
-/

namespace Apidoc.Yaml.Plain

def nullWords : List String := ["null", "Null", "NULL", "~"]

def isNull (s : List Char) : Bool := nullWords.any (·.toList == s)

def isBool (s : List Char) : Bool :=
  ["true", "True", "TRUE", "false", "False", "FALSE"].any (·.toList == s)

/-! ## numbers -/

/-- the value of one digit in a base up to 16 -/
def digit? (base : Nat) (c : Char) : Option Nat :=
  let n :=
    if '0' ≤ c ∧ c ≤ '9' then c.toNat - '0'.toNat
    else if 'a' ≤ c ∧ c ≤ 'f' then c.toNat - 'a'.toNat + 10
    else if 'A' ≤ c ∧ c ≤ 'F' then c.toNat - 'A'.toNat + 10
    else base
  if n < base then some n else none

def natural? (base : Nat) (s : List Char) : Option Nat :=
  if s.isEmpty then none
  else s.foldlM (fun n c => (digit? base c).map (base * n + ·)) 0

/-- the base that a mark such as `0x` announces, and the digits after it -/
def marked? : List Char → Option (Nat × List Char)
  | '0' :: 'x' :: s => some (16, s)
  | '0' :: 'o' :: s => some (8, s)
  | '0' :: 'b' :: s => some (2, s)
  | _ => none

def isInteger (s : List Char) : Bool :=
  let (negative, s) := readSign s
  match marked? s with
  | some (base, ds) =>
    match natural? base ds with
    | some n => if negative then n ≤ Nat.pow 2 127 else n < Nat.pow 2 128
    | none => false
  | none => false

def isInfinite (s : List Char) : Bool :=
  [".inf", ".Inf", ".INF"].any (·.toList == (readSign s).2)

def isNan (s : List Char) : Bool := [".nan", ".NaN", ".NAN"].any (·.toList == s)

def isNumber (s : List Char) : Bool := (readDouble? s).isSome || isInfinite s || isNan s

def isPadded (s : List Char) : Bool :=
  match (readSign s).2 with
  | '0' :: c :: ds => (c :: ds).all Text.isAsciiDigit
  | _ => false

/-! ## texts -/

/-- a plain scalar that means nothing but its text, and does not look otherwise -/
def readsAsText (s : List Char) : Bool :=
  !(s.isEmpty || isNull s || isBool s || isInteger s || isNumber s || isPadded s)

end Apidoc.Yaml.Plain
