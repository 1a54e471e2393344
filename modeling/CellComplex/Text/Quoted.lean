import CellComplex.Text.Printable

/-!
# Quoted text

The form in which messages show a text so that every character of it can be told: between double
quotes, with a backslash before what would be lost.

* `quoted`: quote and backslash are escaped, the named controls get their letters, and whatever
  does not print, or would join the character before it, is written by its code point.
-/

namespace CellComplex

/-- The code point of a character in base sixteen, without zeros in front. -/
def hexCode (c : Char) : String := String.ofList (Nat.toDigits 16 c.toNat)

/-- One character of a quoted text. -/
def quotedChar (c : Char) : String :=
  match c with
  | '\x22' => "\\\""
  | '\\' => "\\\\"
  | '\n' => "\\n"
  | '\r' => "\\r"
  | '\t' => "\\t"
  | '\x00' => "\\0"
  | _ =>
    if isJoining c || !isPrintable c then "\\u\x7b" ++ hexCode c ++ "\x7d"
    else c.toString

/-- A text between quotes, every character of it visible. -/
def quoted (text : String) : String :=
  text.foldl (fun out c => out ++ quotedChar c) "\"" ++ "\""

end CellComplex
