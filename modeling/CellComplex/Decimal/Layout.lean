import CellComplex.Decimal.Shortest

/-!
# Float text

Three forms of one float: the form of messages, the form of data files, and the form with a fixed
number of places. The first two lay out the shortest digits, each by its own `FloatStyle`; the last
rounds the exact value.

* `messageFloat`: never an exponent, no point for whole numbers.
* `dataFloat`: an exponent outside `1e-5 ≤ x < 1e16`, and `.0` for whole numbers inside.
* `fixedFloat`: a set number of places, a half going to the even neighbour.
-/

namespace CellComplex

/-! ## 1. Laying out digits -/

/-- How the shortest digits are laid out. -/
structure FloatStyle where
  /-- Where two shortest forms are equally near. -/
  tie : Tie
  /-- The orders of magnitude written without an exponent; `none` is all of them. -/
  positional : Option (Int × Int)
  /-- Whether a whole number still gets a point and a zero. -/
  wholePoint : Bool
  /-- The texts of infinity and of the number that is not one. -/
  infinite : String
  notNumber : String

/-- A run of zeros. -/
def zeros (n : Nat) : String := String.ofList (List.replicate n '0')

namespace Digits

/-- Digits with the point in its place, zeros filling the gap on either side. -/
def positional (d : Digits) (wholePoint : Bool) : String :=
  let text := toString d.digits
  let places := d.scale.natAbs
  if d.scale ≥ 0 then
    text ++ zeros places ++ (if wholePoint then ".0" else "")
  else if text.length ≤ places then
    "0." ++ zeros (places - text.length) ++ text
  else
    let whole := text.length - places
    String.ofList (text.toList.take whole) ++ "." ++ String.ofList (text.toList.drop whole)

/-- One digit before the point, the order of magnitude with its sign after it. -/
def scientific (d : Digits) : String :=
  let text := (toString d.digits).toList
  let mantissa := match text with
    | first :: second :: rest => first :: '.' :: second :: rest
    | short => short
  let order := d.order
  let sign := if order < 0 then "-" else "+"
  String.ofList mantissa ++ "e" ++ sign ++ toString order.natAbs

end Digits

namespace FloatStyle

/-- The text of a magnitude. -/
def magnitude (style : FloatStyle) (significand : Nat) (exponent : Int) : String :=
  if significand = 0 then
    if style.wholePoint then "0.0" else "0"
  else
    let d := shortest style.tie significand exponent
    match style.positional with
    | none => d.positional style.wholePoint
    | some (first, last) =>
      if first ≤ d.order && d.order ≤ last then d.positional style.wholePoint else d.scientific

/-- The text of a float. The sign of zero is written. -/
def text (style : FloatStyle) (x : Float) : String :=
  match Binary64.ofFloat x with
  | .nan => style.notNumber
  | .infinite negative => (if negative then "-" else "") ++ style.infinite
  | .finite negative significand exponent =>
    (if negative then "-" else "") ++ style.magnitude significand exponent

/-- Messages never use an exponent. -/
def message : FloatStyle :=
  { tie := .up, positional := none, wholePoint := false, infinite := "inf", notNumber := "NaN" }

/-- Data files use an exponent below `1e-5` and from `1e16` on; they have no word for what is not
finite. -/
def data : FloatStyle :=
  { tie := .even, positional := some (-5, 15), wholePoint := true,
    infinite := "null", notNumber := "null" }

end FloatStyle

/-- A float as messages write it. -/
def messageFloat (x : Float) : String := FloatStyle.message.text x

/-- A float as data files write it. -/
def dataFloat (x : Float) : String :=
  if x.isFinite then FloatStyle.data.text x else FloatStyle.data.notNumber

/-! ## 2. A fixed number of places -/

/-- `n` in units of `10 ^ -places`, with the point in its place. -/
def fixedPoint (n places : Nat) : String :=
  let whole := toString (n / tenTo places)
  let fraction := toString (n % tenTo places)
  if places = 0 then whole else whole ++ "." ++ zeros (places - fraction.length) ++ fraction

/-- A float with `places` decimals, rounded from its exact value. -/
def fixedFloat (places : Nat) (x : Float) : String :=
  match Binary64.ofFloat x with
  | .nan => "NaN"
  | .infinite negative => if negative then "-inf" else "inf"
  | .finite negative significand exponent =>
    let value := Ratio.scaleTwo significand exponent
    let n := roundDiv (value.num * tenTo places) value.den .even
    (if negative then "-" else "") ++ fixedPoint n places

end CellComplex
