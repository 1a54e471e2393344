import CellComplex.Decimal.Layout

/-!
# JSON

Reports for other programs are written as JSON, indented by two blanks, the members of an object in
the order in which they were given.

* `JsonValue`: what can be written.
* `JsonValue.pretty`: the text. Empty arrays and objects take no line of their own.
-/

namespace CellComplex

/-- A value of a report. -/
inductive JsonValue where
  | null
  | bool (b : Bool)
  | natural (n : Nat)
  | float (x : Float)
  | text (s : String)
  | array (items : List JsonValue)
  | object (members : List (String × JsonValue))

/-! ## 1. Texts -/

/-- A code point below 256 in four digits of base sixteen. -/
def fourHexDigits (n : Nat) : String :=
  let digit (k : Nat) : Char := Nat.digitChar (k % 16)
  String.ofList ['0', '0', digit (n / 16), digit n]

/-- One character of a JSON text. -/
def jsonChar (c : Char) : String :=
  match c with
  | '\x22' => "\\\""
  | '\\' => "\\\\"
  | '\x08' => "\\b"
  | '\x0c' => "\\f"
  | '\n' => "\\n"
  | '\r' => "\\r"
  | '\t' => "\\t"
  | _ => if c.toNat < 0x20 then "\\u" ++ fourHexDigits c.toNat else c.toString

/-- A JSON text: only quotes, backslashes and controls are escaped. -/
def jsonText (s : String) : String := s.foldl (fun out c => out ++ jsonChar c) "\"" ++ "\""

/-! ## 2. Values -/

/-- The start of a line at some depth. -/
def jsonLine (depth : Nat) : String := "\n" ++ String.ofList (List.replicate (2 * depth) ' ')

/-- Members or items, each on a line of its own, between brackets. -/
def jsonBlock (opener closer : String) (depth : Nat) (lines : List String) : String :=
  if lines.isEmpty then opener ++ closer
  else
    let start := jsonLine (depth + 1)
    opener ++ start ++ ("," ++ start).intercalate lines ++ jsonLine depth ++ closer

namespace JsonValue

mutual

/-- The text of a value that stands at some depth. -/
def prettyAt (depth : Nat) : JsonValue → String
  | null => "null"
  | bool b => if b then "true" else "false"
  | natural n => toString n
  | float x => dataFloat x
  | text s => jsonText s
  | array items => jsonBlock "[" "]" depth (itemLines (depth + 1) items)
  | object members => jsonBlock "\x7b" "\x7d" depth (memberLines (depth + 1) members)

/-- The lines of the items of an array. -/
def itemLines (depth : Nat) : List JsonValue → List String
  | [] => []
  | item :: rest => item.prettyAt depth :: itemLines depth rest

/-- The lines of the members of an object. -/
def memberLines (depth : Nat) : List (String × JsonValue) → List String
  | [] => []
  | (key, value) :: rest =>
    (jsonText key ++ ": " ++ value.prettyAt depth) :: memberLines depth rest

end

/-- The text of a value. -/
def pretty (v : JsonValue) : String := v.prettyAt 0

end JsonValue

end CellComplex
