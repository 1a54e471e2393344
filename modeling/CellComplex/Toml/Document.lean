import CellComplex.Toml.Scalar
import CellComplex.Toml.Token

/-!
# Documents

A document is read token by token. Brackets that are open wait on a stack, each with what was
complete in it so far; a line that is complete becomes a statement; and the statements, taken in
order, make the table that the document is.

* `Reader.step`: one token.
* `Builder.add`: one statement.
* `readDocument?`: the table of a document, or nothing if the document is malformed.
-/

namespace CellComplex.Toml

/-! ## 1. Statements -/

/-- A complete line. -/
inductive Statement where
  | entry (path : List String) (value : Value)
  /-- The header of a table. -/
  | header (path : List String)
  /-- The header of an element of an array of tables. -/
  | element (path : List String)

/-- A part of a line: a token as it stands, or a value that was put together already. -/
inductive Part where
  | token (t : Token)
  | value (v : Value)

namespace Part

/-- Whether a part is blank or a line end. -/
def isSpace : Part → Bool
  | token (.blank _) => true
  | token .newline => true
  | _ => false

/-- Whether a part is blank. -/
def isBlank : Part → Bool
  | token (.blank _) => true
  | _ => false

/-- Whether a part is the mark between a key and its value. -/
def isEquals : Part → Bool
  | token .equals => true
  | _ => false

/-- The characters of a part of a bare value. -/
def bare? : Part → Option String
  | token (.word chars) => some chars
  | token .dot => some "."
  | token (.blank chars) => some chars
  | _ => none

/-- A part as a key: a quoted text of one line, or a word of letters, digits, `-` and `_`. -/
def key? : Part → Option String
  | token (.word chars) =>
    if chars.toList.all fun c => c.isAlphanum || c = '-' || c = '_' then some chars else none
  | token (.text s true) => some s
  | _ => none

end Part

/-- Without blanks and line ends on either side. -/
def trim (parts : List Part) : List Part :=
  ((parts.dropWhile Part.isSpace).reverse.dropWhile Part.isSpace).reverse

/-- Keys with dots between them. -/
def readKeys? : List Part → Option (List String)
  | [key] => key.key?.map fun k => [k]
  | key :: .token .dot :: rest => do return (← key.key?) :: (← readKeys? rest)
  | _ => none

/-- The number of brackets that may be open at once, and of keys that a path may have. -/
def depthLimit : Nat := 80

/-- A path; blanks may stand around its dots. -/
def readPath? (parts : List Part) : Option (List String) :=
  (readKeys? ((trim parts).filter (!·.isBlank))).filter (·.length ≤ depthLimit)

/-- A value; blanks may stand around it. -/
def readValue? (parts : List Part) : Option Value :=
  match trim parts with
  | [.value v] => some v
  | [.token (.text s _)] => some (.text s)
  | parts => do readScalar? (String.join (← parts.mapM Part.bare?))

/-- A path, the mark and a value. -/
def readEntry? (parts : List Part) : Option (List String × Value) := do
  let value ← (parts.dropWhile (!·.isEquals)).tail?
  return (← readPath? (parts.takeWhile (!·.isEquals)), ← readValue? value)

/-- The parts between `count` opening and closing brackets. -/
def unbracket? (count : Nat) (parts : List Part) : Option (List Part) :=
  let closers := (parts.drop (parts.length - count)).filter fun
    | .token .closeBracket => true
    | _ => false
  if closers.length = count && 2 * count ≤ parts.length then
    some ((parts.drop count).take (parts.length - 2 * count))
  else none

/-- A line; one without parts says nothing. -/
def readStatement? (parts : List Part) : Option (Option Statement) :=
  match trim parts with
  | [] => some none
  | .token .openBracket :: .token .openBracket :: rest => do
    let inner ← unbracket? 2 (.token .openBracket :: .token .openBracket :: rest)
    return some (.element (← readPath? inner))
  | .token .openBracket :: rest => do
    let inner ← unbracket? 1 (.token .openBracket :: rest)
    return some (.header (← readPath? inner))
  | parts => do
    let (path, value) ← readEntry? parts
    return some (.entry path value)

/-! ## 2. Tokens -/

/-- An open bracket: the parts that stood before it, latest first, and what is complete in it. -/
inductive Bracket where
  | array (before : List Part) (items : List Value)
  | table (before : List Part) (entries : Entries)

/-- What was read so far. -/
structure Reader where
  /-- The complete lines, latest first. -/
  statements : List Statement
  /-- The open brackets, innermost first. -/
  brackets : List Bracket
  /-- What is not complete yet, latest part first. -/
  parts : List Part
  /-- Whether the line has come to its value; before, brackets belong to a header. -/
  inValue : Bool

namespace Reader

/-- Nothing read. -/
def start : Reader := ⟨[], [], [], false⟩

/-- Takes a token as it stands. -/
def keep (r : Reader) (t : Token) : Reader := { r with parts := .token t :: r.parts }

/-- Whether there is nothing but blanks since the last mark. -/
def atRest (r : Reader) : Bool := r.parts.all Part.isSpace

/-- Ends a line. -/
def endLine (r : Reader) : Option Reader := do
  let statement ← readStatement? r.parts.reverse
  return { r with statements := statement.toList ++ r.statements, parts := [], inValue := false }

/-- Ends an item of an array. -/
def endItem (r : Reader) (items : List Value) : Option (List Value) :=
  (readValue? r.parts.reverse).map (· :: items)

/-- Ends an entry of a table in braces. -/
def endEntry (r : Reader) (entries : Entries) : Option Entries := do
  let (path, value) ← readEntry? r.parts.reverse
  insertAt value path entries

/-- Ends what stands before a comma. -/
def comma (r : Reader) : Option Reader :=
  match r.brackets with
  | [] => none
  | .array before items :: rest => do
    return { r with brackets := .array before (← r.endItem items) :: rest, parts := [] }
  | .table before entries :: rest => do
    return { r with brackets := .table before (← r.endEntry entries) :: rest, parts := [] }

/-- Closes an array; a comma may stand before the bracket. -/
def closeArray (r : Reader) : Option Reader :=
  match r.brackets with
  | .array before items :: rest => do
    let items ← if r.atRest then some items else r.endItem items
    return { r with brackets := rest, parts := .value (.array items.reverse) :: before }
  | .table .. :: _ => none
  | [] => some (r.keep .closeBracket)

/-- Closes a table in braces; a comma may stand before the brace. -/
def closeTable (r : Reader) : Option Reader :=
  match r.brackets with
  | .table before entries :: rest => do
    let entries ← if r.atRest then some entries else r.endEntry entries
    return { r with brackets := rest, parts := .value (.table .inline entries) :: before }
  | _ => none

/-- Whether an opening bracket begins a value here. -/
def opensValue (r : Reader) : Bool := !r.brackets.isEmpty || r.inValue

/-- Opens a bracket, unless too many are open. -/
def openBracket (r : Reader) (bracket : Bracket) : Option Reader :=
  if r.brackets.length < depthLimit then
    some { r with brackets := bracket :: r.brackets, parts := [] }
  else none

/-- Takes one token. -/
def step (r : Reader) : Token → Option Reader
  | .newline => if r.brackets.isEmpty then r.endLine else some (r.keep .newline)
  | .openBracket =>
    if r.opensValue then r.openBracket (.array r.parts []) else some (r.keep .openBracket)
  | .openBrace => if r.opensValue then r.openBracket (.table r.parts []) else none
  | .comma => r.comma
  | .closeBracket => r.closeArray
  | .closeBrace => r.closeTable
  | .equals => some { r.keep .equals with inValue := true }
  | t => some (r.keep t)

end Reader

/-- The lines of a document. The end of the source ends the last line. -/
def readStatements? (tokens : List Token) : Option (List Statement) := do
  let r ← (tokens ++ [Token.newline]).foldlM Reader.step .start
  guard r.brackets.isEmpty
  return r.statements.reverse

/-! ## 3. Tables -/

/-- The table so far, and the table that entries now belong to. -/
structure Builder where
  root : Entries
  here : List String

namespace Builder

/-- Takes one statement. -/
def add (b : Builder) : Statement → Option Builder
  | .entry path value => do
    return { b with root := ← changeAt (insertAt value path) b.here b.root }
  | .header path => do return ⟨← openAt define path b.root, path⟩
  | .element path => do return ⟨← openAt extend path b.root, path⟩

end Builder

/-- The table that a document is. -/
def readDocument? (source : String) : Option Entries := do
  let statements ← readStatements? (← tokens? source)
  return (← statements.foldlM Builder.add ⟨[], []⟩).root

end CellComplex.Toml
