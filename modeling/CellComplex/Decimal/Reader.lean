import CellComplex.Decimal.Binary64

/-!
# Reading numbers

Two readers for numbers typed by hand: floats and natural numbers.

* `readFloat?`: a sign, then a word for infinity or not-a-number in any case, or digits with an
  optional point and exponent. A digit is needed on one side of the point only.
* `readNat?`: digits, with an optional plus sign.
-/

namespace CellComplex

/-- The value of a decimal digit. -/
def digitValue (c : Char) : Nat := c.toNat - '0'.toNat

/-- The number that a list of digits writes in base ten. -/
def digitsValue (cs : List Char) : Nat := cs.foldl (fun n c => 10 * n + digitValue c) 0

/-- Splits off a sign: whether it is a minus, and the rest. -/
def splitSign : List Char → Bool × List Char
  | '-' :: rest => (true, rest)
  | '+' :: rest => (false, rest)
  | rest => (false, rest)

/-- The exponent of a number: nothing, or `e`, a sign and at least one digit. -/
def readExponent? : List Char → Option Int
  | [] => some 0
  | e :: rest =>
    if e = 'e' || e = 'E' then
      let (negative, digits) := splitSign rest
      if digits.isEmpty || !digits.all Char.isDigit then none
      else
        let n : Int := digitsValue digits
        some (if negative then -n else n)
    else none

/-- The point of a number and what follows it: the digits after the point, and the rest. -/
def splitFraction : List Char → List Char × List Char
  | '.' :: rest => (rest.takeWhile Char.isDigit, rest.dropWhile Char.isDigit)
  | rest => ([], rest)

/-- Digits, an optional point and an optional exponent. -/
def readNumeral? (negative : Bool) (cs : List Char) : Option Numeral := do
  let whole := cs.takeWhile Char.isDigit
  let (fraction, rest) := splitFraction (cs.dropWhile Char.isDigit)
  guard !(whole ++ fraction).isEmpty
  let exponent ← readExponent? rest
  return ⟨negative, digitsValue (whole ++ fraction), exponent - fraction.length⟩

/-- A float typed by hand. -/
def readFloat? (text : String) : Option Float :=
  let (negative, rest) := splitSign text.toList
  let word := String.ofList (rest.map Char.toLower)
  if word = "inf" || word = "infinity" then some (infinity negative)
  else if word = "nan" then some notANumber
  else (readNumeral? negative rest).map Numeral.toFloat

/-- A natural number below `bound` typed by hand. -/
def readNat? (bound : Nat) (text : String) : Option Nat :=
  let digits := match text.toList with
    | '+' :: rest => rest
    | rest => rest
  if digits.isEmpty || !digits.all Char.isDigit then none
  else
    let n := digitsValue digits
    if n < bound then some n else none

end CellComplex
