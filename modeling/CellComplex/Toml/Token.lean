import CellComplex.Decimal.Reader

/-!
# The words of a TOML document

A document is a list of tokens: marks, line ends, blanks, bare words and quoted texts. Comments are
left out. A bare word is any run of characters that mean nothing else; whether it is a key, a number
or nothing at all is decided later.

* `readText`: a quoted text, of one line or of many, with escapes or as it stands.
* `readText_shorter`: it uses up some of the source, which is why `scan` ends.
* `tokens?`: all tokens, or nothing if a text or a line end is malformed.
-/

namespace CellComplex.Toml

/-- A word of a document. -/
inductive Token where
  | dot
  | equals
  | comma
  | openBracket
  | closeBracket
  | openBrace
  | closeBrace
  /-- A run of blanks. -/
  | blank (chars : String)
  | newline
  | word (chars : String)
  /-- A quoted text; only one written on one line can be a key. -/
  | text (value : String) (oneLine : Bool)
  deriving DecidableEq, Repr

/-! ## 1. Characters -/

/-- Whether a character may stand in a comment or in a text: all but the controls, tab excepted. -/
def isPlain (c : Char) : Bool := c = '\t' || ('\x20' ≤ c && c ≠ '\x7f')

/-- Blanks within a line. -/
def isBlank (c : Char) : Bool := c = ' ' || c = '\t'

/-- The characters other than blanks that end a bare word. A quote does not. -/
def wordEnds : List Char := ['.', '=', ',', '[', ']', '\x7b', '\x7d', '\n', '\r', '#']

/-- Whether a character belongs to a bare word. -/
def isWordChar (c : Char) : Bool := !isBlank c && !wordEnds.contains c

/-- Drops blanks and line ends. -/
def dropSpace : List Char → List Char
  | ' ' :: rest => dropSpace rest
  | '\t' :: rest => dropSpace rest
  | '\n' :: rest => dropSpace rest
  | '\r' :: '\n' :: rest => dropSpace rest
  | rest => rest

theorem length_dropSpace_le (cs : List Char) : (dropSpace cs).length ≤ cs.length := by
  fun_induction dropSpace cs <;> simp_all <;> omega

theorem length_dropWhile_le (p : Char → Bool) (cs : List Char) :
    (cs.dropWhile p).length ≤ cs.length :=
  (List.dropWhile_sublist p).length_le

/-! ## 2. Escapes -/

/-- The value of a digit in base sixteen. -/
def hexValue? (c : Char) : Option Nat :=
  if c.isDigit then some (c.toNat - '0'.toNat)
  else if 'a' ≤ c && c ≤ 'f' then some (c.toNat - 'a'.toNat + 10)
  else if 'A' ≤ c && c ≤ 'F' then some (c.toNat - 'A'.toNat + 10)
  else none

/-- The character whose code point is written by the first `count` characters. -/
def readCodePoint (count : Nat) (cs : List Char) : Option (Char × List Char) :=
  match (cs.take count).mapM hexValue? with
  | none => none
  | some digits =>
    let code := digits.foldl (fun n d => 16 * n + d) 0
    if digits.length = count && code.isValidChar then some (Char.ofNat code, cs.drop count)
    else none

/-- The letters that stand for a character after a backslash. -/
def escapeLetter? (c : Char) : Option Char :=
  match c with
  | 'b' => some '\x08'
  | 't' => some '\t'
  | 'n' => some '\n'
  | 'f' => some '\x0c'
  | 'r' => some '\r'
  | 'e' => some '\x1b'
  | '\x22' => some '\x22'
  | '\\' => some '\\'
  | _ => none

/-- How many digits follow the letters that introduce a code point. -/
def codePointDigits? (c : Char) : Option Nat :=
  match c with
  | 'x' => some 2
  | 'u' => some 4
  | 'U' => some 8
  | _ => none

/-- A backslash at the end of a line swallows all blanks and line ends up to the next word. -/
def readContinuation (cs : List Char) : Option (List Char) :=
  match cs.dropWhile isBlank with
  | '\n' :: rest => some (dropSpace rest)
  | '\r' :: '\n' :: rest => some (dropSpace rest)
  | _ => none

/-- What follows a backslash: the characters it stands for, and the rest. -/
def readEscape (oneLine : Bool) : List Char → Option (List Char × List Char)
  | [] => none
  | c :: rest =>
    match escapeLetter? c, codePointDigits? c with
    | some e, _ => some ([e], rest)
    | none, some count => (readCodePoint count rest).map fun (e, rest) => ([e], rest)
    | none, none => if oneLine then none else (readContinuation (c :: rest)).map fun rest => ([], rest)

theorem readCodePoint_shorter {count : Nat} {cs rest : List Char} {c : Char}
    (h : readCodePoint count cs = some (c, rest)) : rest.length ≤ cs.length := by
  unfold readCodePoint at h
  split at h
  · cases h
  · dsimp only at h
    split at h
    · cases h
      rw [List.length_drop]
      exact Nat.sub_le _ _
    · cases h

theorem readContinuation_shorter {cs rest : List Char} (h : readContinuation cs = some rest) :
    rest.length ≤ cs.length := by
  unfold readContinuation at h
  have hle := length_dropWhile_le isBlank cs
  split at h
  · next r hr =>
    cases h
    have := length_dropSpace_le r
    rw [hr] at hle
    simp only [List.length_cons] at hle
    omega
  · next r hr =>
    cases h
    have := length_dropSpace_le r
    rw [hr] at hle
    simp only [List.length_cons] at hle
    omega
  · cases h

theorem readEscape_shorter {oneLine : Bool} {cs chars rest : List Char}
    (h : readEscape oneLine cs = some (chars, rest)) : rest.length ≤ cs.length := by
  unfold readEscape at h
  split at h
  · cases h
  · next c tail =>
    split at h
    · cases h; simp
    · obtain ⟨⟨e, r⟩, hr, he⟩ := Option.map_eq_some_iff.mp h
      cases he
      have := readCodePoint_shorter hr
      simp only [List.length_cons]
      omega
    · split at h
      · cases h
      · obtain ⟨r, hr, he⟩ := Option.map_eq_some_iff.mp h
        cases he
        exact readContinuation_shorter hr

/-! ## 3. Texts -/

/-- A text of one line up to its closing mark; `done` is what was read so far, last character
first. -/
def readLine (mark : Char) (done : List Char) : List Char → Option (String × List Char)
  | [] => none
  | c :: rest =>
    if c = mark then some (String.ofList done.reverse, rest)
    else if c = '\\' && mark = '\x22' then
      match _h : readEscape true rest with
      | some (chars, rest) => readLine mark (chars ++ done) rest
      | none => none
    else if isPlain c then readLine mark (c :: done) rest
    else none
termination_by cs => cs.length
decreasing_by
  · have := readEscape_shorter _h
    simp only [List.length_cons]
    omega
  · simp

/-- How many marks a run at the start of a text of many lines has, as far as it matters. -/
def markRun (mark : Char) (cs : List Char) : Nat := ((cs.take 5).takeWhile (· = mark)).length

/-- A text of many lines up to its closing marks. Three marks close it; up to two more before them
belong to the text. -/
def readLines (mark : Char) (done : List Char) : List Char → Option (String × List Char)
  | [] => none
  | c :: rest =>
    if c = mark then
      let run := markRun mark (c :: rest)
      if run < 3 then readLines mark (c :: done) rest
      else
        some (String.ofList (List.replicate (run - 3) mark ++ done).reverse, rest.drop (run - 1))
    else if c = '\\' && mark = '\x22' then
      match _h : readEscape false rest with
      | some (chars, rest) => readLines mark (chars ++ done) rest
      | none => none
    else if c = '\r' then
      match rest with
      | '\n' :: rest => readLines mark ('\n' :: '\r' :: done) rest
      | _ => none
    else if isPlain c || c = '\n' then readLines mark (c :: done) rest
    else none
termination_by cs => cs.length
decreasing_by
  · simp
  · have := readEscape_shorter _h
    simp only [List.length_cons]
    omega
  · simp only [List.length_cons]; omega
  · simp

/-- A line end right after the opening marks does not belong to the text. -/
def dropFirstNewline : List Char → List Char
  | '\n' :: rest => rest
  | '\r' :: '\n' :: rest => rest
  | rest => rest

/-- A text after its first mark: its value and whether it was written on one line. -/
def readText (mark : Char) (cs : List Char) : Option (Token × List Char) :=
  if cs.take 2 = [mark, mark] then
    (readLines mark [] (dropFirstNewline (cs.drop 2))).map fun (s, rest) => (.text s false, rest)
  else (readLine mark [] cs).map fun (s, rest) => (.text s true, rest)

theorem readLine_shorter {mark : Char} {done cs rest : List Char} {s : String}
    (h : readLine mark done cs = some (s, rest)) : rest.length ≤ cs.length := by
  fun_induction readLine mark done cs with
  | case1 => cases h
  | case2 => cases h; simp
  | case3 done c tail _ _ chars r hr ih =>
    have := ih h
    have := readEscape_shorter hr
    simp only [List.length_cons]
    omega
  | case4 => cases h
  | case5 done c tail _ _ _ ih =>
    have := ih h
    simp only [List.length_cons]
    omega
  | case6 => cases h

theorem readLines_shorter {mark : Char} {done cs rest : List Char} {s : String}
    (h : readLines mark done cs = some (s, rest)) : rest.length ≤ cs.length := by
  fun_induction readLines mark done cs with
  | case1 => cases h
  | case2 done tail run _ ih =>
    have := ih h
    simp only [List.length_cons]
    omega
  | case3 => cases h; simp; omega
  | case4 done c tail _ _ chars r hr ih =>
    have := ih h
    have := readEscape_shorter hr
    simp only [List.length_cons]
    omega
  | case5 => cases h
  | case6 done tail _ _ ih =>
    have := ih h
    simp only [List.length_cons]
    omega
  | case7 => cases h
  | case8 done c tail _ _ _ _ ih =>
    have := ih h
    simp only [List.length_cons]
    omega
  | case9 => cases h

theorem length_dropFirstNewline_le (cs : List Char) :
    (dropFirstNewline cs).length ≤ cs.length := by
  unfold dropFirstNewline
  split
  · simp
  · simp only [List.length_cons]
    omega
  · exact Nat.le_refl _

theorem readText_shorter {mark : Char} {cs rest : List Char} {t : Token}
    (h : readText mark cs = some (t, rest)) : rest.length ≤ cs.length := by
  unfold readText at h
  split at h
  · obtain ⟨⟨s, r⟩, hr, he⟩ := Option.map_eq_some_iff.mp h
    cases he
    have h₁ := readLines_shorter hr
    have h₂ := length_dropFirstNewline_le (cs.drop 2)
    simp only [List.length_drop] at h₂
    omega
  · obtain ⟨⟨s, r⟩, hr, he⟩ := Option.map_eq_some_iff.mp h
    cases he
    exact readLine_shorter hr

/-! ## 4. Documents -/

/-- The mark that a character is by itself. -/
def markToken? (c : Char) : Option Token :=
  match c with
  | '.' => some .dot
  | '=' => some .equals
  | ',' => some .comma
  | '[' => some .openBracket
  | ']' => some .closeBracket
  | '\x7b' => some .openBrace
  | '\x7d' => some .closeBrace
  | '\n' => some .newline
  | _ => none

/-- What follows a comment, which goes up to the end of its line. -/
def readComment? (cs : List Char) : Option (List Char) :=
  match cs.dropWhile isPlain with
  | [] => some []
  | c :: rest => if c = '\n' || c = '\r' then some (c :: rest) else none

theorem readComment_shorter {cs rest : List Char} (h : readComment? cs = some rest) :
    rest.length ≤ cs.length := by
  have hle := length_dropWhile_le isPlain cs
  unfold readComment? at h
  split at h
  · cases h; exact Nat.zero_le _
  · next c r hr =>
    split at h
    · cases h; rw [← hr]; exact hle
    · cases h

/-- The token at the start of a source, unless a comment stands there, and the rest. -/
def readToken (c : Char) (rest : List Char) : Option (Option Token × List Char) :=
  match markToken? c with
  | some mark => some (some mark, rest)
  | none =>
    if isBlank c then
      some (some (.blank (String.ofList (c :: rest.takeWhile isBlank))), rest.dropWhile isBlank)
    else if c = '#' then (readComment? rest).map fun rest => (none, rest)
    else if c = '\r' then
      match rest with
      | '\n' :: rest => some (some .newline, rest)
      | _ => none
    else if c = '\x22' || c = '\'' then
      (readText c rest).map fun (t, rest) => (some t, rest)
    else
      some (some (.word (String.ofList (c :: rest.takeWhile isWordChar))), rest.dropWhile isWordChar)

theorem readToken_shorter {c : Char} {cs rest : List Char} {t : Option Token}
    (h : readToken c cs = some (t, rest)) : rest.length ≤ cs.length := by
  unfold readToken at h
  split at h
  · cases h; exact Nat.le_refl _
  · split at h
    · cases h; exact length_dropWhile_le _ _
    · split at h
      · obtain ⟨r, hr, he⟩ := Option.map_eq_some_iff.mp h
        cases he
        exact readComment_shorter hr
      · split at h
        · split at h
          · cases h; simp
          · cases h
        · split at h
          · obtain ⟨⟨t, r⟩, hr, he⟩ := Option.map_eq_some_iff.mp h
            cases he
            exact readText_shorter hr
          · cases h; exact length_dropWhile_le _ _

/-- Goes on reading; `done` are the tokens read so far, last one first. -/
def scan (done : List Token) : List Char → Option (List Token)
  | [] => some done.reverse
  | c :: rest =>
    match _h : readToken c rest with
    | none => none
    | some (none, rest) => scan done rest
    | some (some t, rest) => scan (t :: done) rest
termination_by cs => cs.length
decreasing_by
  all_goals
    have := readToken_shorter _h
    simp only [List.length_cons]
    omega

/-- The tokens of a document. A byte order mark at its start is skipped. -/
def tokens? (source : String) : Option (List Token) :=
  match source.toList with
  | '\ufeff' :: rest => scan [] rest
  | cs => scan [] cs

end CellComplex.Toml
