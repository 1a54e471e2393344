/-!
# Binary floating point, exactly

A finite binary64 number is `significand · 2 ^ exponent` with a sign. This module takes the 64 bits
apart and finds the bits nearest to a decimal number, all in exact integer arithmetic.

* `Binary64.ofBits`: the value behind 64 bits.
* `Numeral.toFloat`: the float nearest to a decimal numeral, a tie going to the even significand.
-/

namespace CellComplex

/-- A power of two. -/
def twoTo (n : Nat) : Nat := Nat.pow 2 n

/-- A power of ten. -/
def tenTo (n : Nat) : Nat := Nat.pow 10 n

/-! ## 1. Taking a float apart -/

/-- The value behind 64 bits. A finite value is `significand * 2 ^ exponent`, negated if
`negative`. -/
inductive Binary64 where
  | nan
  | infinite (negative : Bool)
  | finite (negative : Bool) (significand : Nat) (exponent : Int)
  deriving DecidableEq, Repr

namespace Binary64

/-- Reads sign, exponent field and fraction field. An exponent field of zero is a subnormal number:
its significand has no hidden bit. -/
def ofBits (bits : Nat) : Binary64 :=
  let negative := bits / twoTo 63 % 2 = 1
  let field : Nat := bits / twoTo 52 % twoTo 11
  let fraction : Nat := bits % twoTo 52
  if field = 2047 then
    if fraction = 0 then .infinite negative else .nan
  else if field = 0 then
    .finite negative fraction (-1074)
  else
    .finite negative (twoTo 52 + fraction) ((field : Int) - 1075)

/-- The value of a float. -/
def ofFloat (x : Float) : Binary64 := ofBits x.toBits.toNat

/-- The bits of positive infinity. -/
def infinityBits : Nat := 2047 * twoTo 52

end Binary64

/-! ## 2. Rounding a quotient -/

/-- Which neighbour an exact tie goes to. -/
inductive Tie where
  | even
  | up
  deriving DecidableEq, Repr

/-- The integer nearest to `num / den`. -/
def roundDiv (num den : Nat) (tie : Tie) : Nat :=
  let q := num / den
  let twice := 2 * (num % den)
  if twice < den then q
  else if den < twice then q + 1
  else match tie with
    | .up => q + 1
    | .even => if q % 2 = 0 then q else q + 1

/-! ## 3. From decimal to binary -/

/-- How many decimal digits `n` has; zero has one. -/
def decimalLength (n : Nat) : Nat := (Nat.toDigits 10 n).length

/-- The bits of the positive binary64 number nearest to `num / den`. The unit of the last place
`2 ^ q` is chosen so that the quotient has 53 bits, but never below `2 ^ -1074`. -/
def Binary64.nearestBits (num den : Nat) : Nat :=
  let estimate : Int := (num.log2 : Int) - den.log2 - 52
  let scaled (q : Int) : Nat × Nat :=
    if q < 0 then (num * twoTo q.natAbs, den) else (num, den * twoTo q.natAbs)
  let full := scaled estimate
  let q := max (if full.1 / full.2 < twoTo 52 then estimate - 1 else estimate) (-1074)
  let fit := scaled q
  let s := roundDiv fit.1 fit.2 .even
  let (s, q) := if s = twoTo 53 then (twoTo 52, q + 1) else (s, q)
  if q > 971 then infinityBits
  else if s < twoTo 52 then s
  else (q + 1075).toNat * twoTo 52 + (s - twoTo 52)

/-- A decimal number as written: `digits * 10 ^ scale`, negated if `negative`. -/
structure Numeral where
  negative : Bool
  digits : Nat
  scale : Int
  deriving DecidableEq, Repr

namespace Numeral

/-- The bits of the magnitude. Numbers of 310 integral digits and more are infinite, those with 330
zeros and more behind the point are zero; between the two the quotient is rounded. -/
def magnitudeBits (n : Numeral) : Nat :=
  if n.digits = 0 then 0
  else
    let order : Int := (decimalLength n.digits : Int) + n.scale
    if order > 310 then Binary64.infinityBits
    else if order < -330 then 0
    else if n.scale < 0 then Binary64.nearestBits n.digits (tenTo n.scale.natAbs)
    else Binary64.nearestBits (n.digits * tenTo n.scale.natAbs) 1

/-- The float nearest to the numeral; too large a numeral gives an infinity. -/
def toFloat (n : Numeral) : Float :=
  Float.ofBits (n.magnitudeBits + if n.negative then twoTo 63 else 0).toUInt64

end Numeral

/-- The infinity of a sign. -/
def infinity (negative : Bool) : Float :=
  Float.ofBits (Binary64.infinityBits + if negative then twoTo 63 else 0).toUInt64

/-- The number that is not one. -/
def notANumber : Float := Float.ofBits 0x7ff8000000000000

end CellComplex
