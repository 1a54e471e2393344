import CellComplex.Decimal.Binary64

/-!
# The fewest digits that read back

A float is written with the fewest decimal digits that still read back as the same float, and of
those with the digits nearest to its value.

* `shortest`: the digits. Every decimal between the midpoints to the two neighbouring floats reads
  back (the midpoints themselves too if the significand is even), so the grids of 1, 2, … digits
  are tried in turn, and on each only the value's two neighbours.
-/

namespace CellComplex

/-- A positive decimal `digits * 10 ^ scale`. -/
structure Digits where
  digits : Nat
  scale : Int
  deriving DecidableEq, Repr

namespace Digits

/-- The order of magnitude: `10 ^ order ≤ value < 10 ^ (order + 1)`. -/
def order (d : Digits) : Int := (decimalLength d.digits : Int) - 1 + d.scale

/-- Moves zeros at the end of the digits into the scale, at most `n` of them. -/
def trimUpTo : Nat → Digits → Digits
  | 0, d => d
  | n + 1, d =>
    if d.digits % 10 = 0 then trimUpTo n ⟨d.digits / 10, d.scale + 1⟩ else d

/-- Without zeros at the end of the digits. -/
def trim (d : Digits) : Digits := trimUpTo (decimalLength d.digits) d

end Digits

/-- A positive rational. -/
structure Ratio where
  num : Nat
  den : Nat
  deriving DecidableEq, Repr

namespace Ratio

/-- The rational `n * 2 ^ q`. -/
def scaleTwo (n : Nat) (q : Int) : Ratio :=
  if q < 0 then ⟨n, twoTo q.natAbs⟩ else ⟨n * twoTo q.natAbs, 1⟩

/-- The rational `n * 10 ^ k`. -/
def scaleTen (n : Nat) (k : Int) : Ratio :=
  if k < 0 then ⟨n, tenTo k.natAbs⟩ else ⟨n * tenTo k.natAbs, 1⟩

/-- Decides `a < b`. -/
def lt (a b : Ratio) : Bool := a.num * b.den < b.num * a.den

/-- Decides `a ≤ b`. -/
def le (a b : Ratio) : Bool := a.num * b.den ≤ b.num * a.den

/-- The order of magnitude: the number of digits before the point tells it up to one. -/
def order (a : Ratio) : Int :=
  let k : Int := (decimalLength a.num : Int) - decimalLength a.den
  if (scaleTen 1 k).le a then k else k - 1

end Ratio

/-- The decimals that read back as one float, and the float's value. -/
structure Rounding where
  low : Ratio
  high : Ratio
  value : Ratio
  closed : Bool

namespace Rounding

/-- The decimals that read back as `significand * 2 ^ exponent`. Below a power of two the
neighbouring float is only half as far away. -/
def ofFinite (significand : Nat) (exponent : Int) : Rounding :=
  let below := if significand = twoTo 52 ∧ exponent > -1074 then 1 else 2
  { low := .scaleTwo (4 * significand - below) (exponent - 2)
    high := .scaleTwo (4 * significand + 2) (exponent - 2)
    value := .scaleTwo significand exponent
    closed := significand % 2 = 0 }

/-- Whether a decimal reads back. -/
def holds (r : Rounding) (d : Digits) : Bool :=
  let x := Ratio.scaleTen d.digits d.scale
  if r.closed then r.low.le x && x.le r.high else r.low.lt x && x.lt r.high

/-- The multiple of `10 ^ scale` at or below the value, and what is left, as a fraction of
`10 ^ scale`: the digits, twice the remainder, and the unit. -/
def below (r : Rounding) (scale : Int) : Nat × Nat × Nat :=
  let unit := Ratio.scaleTen 1 scale
  let num := r.value.num * unit.den
  let den := r.value.den * unit.num
  (num / den, 2 * (num % den), den)

/-- The decimal with places down to `10 ^ scale` that reads back, if there is one: of two, the
nearer one. -/
def onGrid (r : Rounding) (tie : Tie) (scale : Int) : Option Digits :=
  let (digits, twice, unit) := r.below scale
  let lower : Digits := ⟨digits, scale⟩
  let upper : Digits := ⟨digits + 1, scale⟩
  match r.holds lower, r.holds upper with
  | false, false => none
  | true, false => some lower
  | false, true => some upper
  | true, true =>
    if twice < unit then some lower
    else if unit < twice then some upper
    else match tie with
      | .up => some upper
      | .even => some (if digits % 2 = 0 then lower else upper)

/-- Tries grids of more and more digits; seventeen always suffice. -/
def search (r : Rounding) (tie : Tie) (order : Int) : Digits :=
  let found := (List.range 17).findSome? fun (n : Nat) => r.onGrid tie (order - n)
  (found.getD ⟨(r.below (order - 17)).1, order - 17⟩).trim

end Rounding

/-- The fewest digits that read back as `significand * 2 ^ exponent`, for a positive
significand. -/
def shortest (tie : Tie) (significand : Nat) (exponent : Int) : Digits :=
  let r := Rounding.ofFinite significand exponent
  r.search tie r.value.order

/-! ## Hard cases -/

-- the least positive float, a power of two, and a float whose midpoint counts
example : shortest .up 1 (-1074) = ⟨5, -324⟩ := by decide +kernel
example : shortest .up (twoTo 52) (-52) = ⟨1, 0⟩ := by decide +kernel
example : shortest .up 5960464477539062 24 = ⟨1, 23⟩ := by decide +kernel

end CellComplex
