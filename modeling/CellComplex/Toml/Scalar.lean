import CellComplex.Toml.Moment
import CellComplex.Toml.Token
import CellComplex.Toml.Value

/-!
# Bare values

A value without quotes or brackets is a boolean, a number or a moment. Between the digits of a
number low lines may stand. What a number is worth is found when someone asks for it, and not
before: a number that nobody looks at may be too large, and its digits may be none of its radix.

* `isDecimal`: whether a word is a decimal with a fraction, an exponent or both.
* `readNumber?`: an integer or a float as it is written.
* `readScalar?`: a bare value.
-/

namespace CellComplex.Toml

/-! ## 1. Low lines -/

/-- Whether a character is a digit of base sixteen. -/
def isHexDigit (c : Char) : Bool := (hexValue? c).isSome

/-- Whether a character begins a text and is a digit. -/
def startsWithDigit (isDigit : Char → Bool) : List Char → Bool
  | c :: _ => isDigit c
  | [] => false

/-- Whether every low line stands between two digits; `afterDigit` tells what stands in front. -/
def lowLinesInside (isDigit : Char → Bool) (afterDigit : Bool) : List Char → Bool
  | [] => true
  | c :: rest =>
    if c = '_' then
      afterDigit && startsWithDigit isDigit rest && lowLinesInside isDigit false rest
    else lowLinesInside isDigit (isDigit c) rest

/-- Whether every low line of a number stands between two of its digits. -/
def areLowLinesInside (isDigit : Char → Bool) (cs : List Char) : Bool :=
  lowLinesInside isDigit false cs

/-- Without low lines. -/
def dropLowLines (cs : List Char) : List Char := cs.filter (· ≠ '_')

/-! ## 2. Decimals -/

/-- Whether a character belongs to a group of digits. -/
def isGroupChar (c : Char) : Bool := c.isDigit || c = '_'

/-- What follows a group with at least one digit. -/
def afterGroup? (cs : List Char) : Option (List Char) :=
  if (cs.takeWhile isGroupChar).any Char.isDigit then some (cs.dropWhile isGroupChar) else none

/-- What follows the fraction of a decimal. -/
def afterFraction? : List Char → Option (List Char)
  | '.' :: rest => afterGroup? rest
  | rest => some rest

/-- What follows the exponent of a decimal. -/
def afterPower? : List Char → Option (List Char)
  | c :: rest => if c = 'e' || c = 'E' then afterGroup? (splitSign rest).2 else some (c :: rest)
  | [] => some []

/-- Whether a word without its sign is digits, with a fraction, an exponent, both or neither. -/
def isDecimal (cs : List Char) : Bool :=
  (do afterPower? (← afterFraction? (← afterGroup? cs))) = some []

/-- Whether a zero stands in front of other digits. -/
def hasZeroInFront : List Char → Bool
  | '0' :: c :: _ => isGroupChar c
  | _ => false

/-- Whether a character tells a float from an integer. -/
def isFloatMark (c : Char) : Bool := c = '.' || c = 'e' || c = 'E'

/-! ## 3. Numbers -/

/-- The digits of an integer that is written in a radix other than ten. -/
def readRadix? (radix : Nat) (isDigit : Char → Bool) (cs : List Char) : Option Value :=
  let digits := dropLowLines cs
  if digits.all isDigit && areLowLinesInside isDigit cs then some (.integer radix digits)
  else none

/-- A number with an optional sign. What begins with digits and a low line is an integer; no space
may be in it. -/
def readSigned? (cs : List Char) : Option Value :=
  let unsigned := (splitSign cs).2
  let rest := unsigned.dropWhile Char.isDigit
  if unsigned.isEmpty || hasZeroInFront unsigned then none
  else if unsigned = ['i', 'n', 'f'] || unsigned = ['n', 'a', 'n'] then some (.float cs)
  else if rest.any isFloatMark then
    if isDecimal unsigned && areLowLinesInside Char.isDigit unsigned then
      some (.float (dropLowLines cs))
    else none
  else if rest.isEmpty ||
      (rest.head? = some '_' && areLowLinesInside isHexDigit unsigned &&
        !rest.contains ' ') then
    some (.integer 10 (dropLowLines cs))
  else none

/-- A number. -/
def readNumber? : List Char → Option Value
  | '0' :: 'x' :: rest => readRadix? 16 isHexDigit rest
  | '0' :: 'o' :: rest => readRadix? 8 (fun c => '0' ≤ c && c ≤ '7') rest
  | '0' :: 'b' :: rest => readRadix? 2 (fun c => c = '0' || c = '1') rest
  | cs => readSigned? cs

/-! ## 4. Bare values -/

/-- A value without quotes or brackets. -/
def readScalar? (text : String) : Option Value :=
  if text = "true" then some (.boolean true)
  else if text = "false" then some (.boolean false)
  else
    let cs := text.toList
    if isMoment cs then some .moment else readNumber? cs

end CellComplex.Toml
