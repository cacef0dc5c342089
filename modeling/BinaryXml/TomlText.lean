import BinaryXml.Scan

/-!
# White space and texts in TOML

A text stands on one line or in a block of lines, and a backslash escapes a character unless the
delimiters are single quotes. Comments reach to the end of their line.
-/

namespace BinaryXml.TomlText

open Scan

/-! ## White space, line breaks and comments -/

def isBlank (c : Char) : Bool := c = ' ' || c = '\t'

/-- Control characters other than the tabulator. Line breaks are treated apart. -/
def isControl (c : Char) : Bool := (c.toNat < 0x20 && c ≠ '\t') || c.toNat = 0x7F

def blank : Scan Unit := skipWhile isBlank

/-- Drops everything between values, across lines. -/
def filler (inComment : Bool) : List Char → Option (List Char)
  | [] => some []
  | '\r' :: '\n' :: cs => filler false cs
  | c :: cs =>
    if c = '\n' then filler false cs
    else if inComment then (if isControl c then none else filler true cs)
    else if isBlank c then filler false cs
    else if c = '#' then filler true cs
    else some (c :: cs)

def skipFiller : Scan Unit := ofFunction fun cs => (filler false cs).map ((), ·)

/-- The end of a statement: nothing but a comment may follow on its line. -/
def lineEnd : Scan Unit := do
  blank
  if ← accept "#" then skipWhile fun c => !isControl c
  match ← peek? with
  | none => return
  | some '\n' => expect "\n"
  | some _ => expect "\r\n"

/-! ## Texts -/

def shortEscape? : Char → Option Char
  | 'b' => some '\x08'
  | 't' => some '\t'
  | 'n' => some '\n'
  | 'f' => some '\x0c'
  | 'r' => some '\r'
  | 'e' => some '\x1b'
  | '"' => some '"'
  | '\\' => some '\\'
  | _ => none

/-- The character that is escaped, and how many characters follow the backslash. -/
def escape? : List Char → Option (Char × Nat)
  | 'x' :: cs => numbered 2 cs
  | 'u' :: cs => numbered 4 cs
  | 'U' :: cs => numbered 8 cs
  | c :: _ => (shortEscape? c).map (·, 1)
  | [] => none
where
  numbered (count : Nat) (cs : List Char) : Option (Char × Nat) :=
    if count ≤ cs.length then
      ((number? 16 (cs.take count)).bind character?).map (·, count + 1)
    else none

/-- Text on one line, up to the delimiter. -/
def lineText (delimiter : Char) (escapes : Bool) : List Char → Option (List Char × List Char)
  | [] => none
  | c :: cs =>
    if c = delimiter then some ([], cs)
    else if escapes && c = '\\' then do
      let (e, used) ← escape? cs
      let (rest, cs) ← lineText delimiter escapes (cs.drop used)
      return (e :: rest, cs)
    else if isControl c then none
    else do
      let (rest, cs) ← lineText delimiter escapes cs
      return (c :: rest, cs)
termination_by cs => cs.length
decreasing_by all_goals (simp only [List.length_cons, List.length_drop]; omega)

/-- Whether nothing but white space follows on the line. -/
def endsLine (cs : List Char) : Bool :=
  match cs.dropWhile isBlank with
  | '\n' :: _ => true
  | '\r' :: '\n' :: _ => true
  | _ => false

/-- Text across lines, up to three delimiters. One or two more belong to the text. `seen` counts
the delimiters just before, and `skipping` tells that a line was ended by a backslash. -/
def blockText (delimiter : Char) (escapes : Bool) (seen : Nat) (skipping : Bool) :
    List Char → Option (List Char × List Char)
  | [] => if 3 ≤ seen then some (List.replicate (seen - 3) delimiter, []) else none
  | c :: cs =>
    if c = delimiter then
      if seen = 4 then some ([delimiter, delimiter], cs)
      else blockText delimiter escapes (seen + 1) false cs
    else if 3 ≤ seen then some (List.replicate (seen - 3) delimiter, c :: cs)
    else if skipping && (isBlank c || c = '\n' || (c = '\r' && cs.head? = some '\n')) then
      blockText delimiter escapes 0 true cs
    else if escapes && c = '\\' then
      if endsLine cs then do
        let (rest, cs) ← blockText delimiter escapes 0 true cs
        return (List.replicate seen delimiter ++ rest, cs)
      else do
        let (e, used) ← escape? cs
        let (rest, cs) ← blockText delimiter escapes 0 false (cs.drop used)
        return (List.replicate seen delimiter ++ e :: rest, cs)
    else if isControl c && c ≠ '\n' && !(c = '\r' && cs.head? = some '\n') then none
    else do
      let (rest, cs) ← blockText delimiter escapes 0 false cs
      return (List.replicate seen delimiter ++ c :: rest, cs)
termination_by cs => cs.length
decreasing_by all_goals (simp only [List.length_cons, List.length_drop]; omega)

/-- A line break right after the opening delimiters does not count. -/
def blockStart : Scan Unit := do
  if ← accept "\n" then return
  let _ ← accept "\r\n"

def text (block : Bool) : Scan String := do
  if block && (← accept "\"\"\"") then
    blockStart
    String.ofList <$> ofFunction (blockText '"' true 0 false)
  else if block && (← accept "'''") then
    blockStart
    String.ofList <$> ofFunction (blockText '\'' false 0 false)
  else if ← accept "\"" then String.ofList <$> ofFunction (lineText '"' true)
  else
    expect "'"
    String.ofList <$> ofFunction (lineText '\'' false)

end BinaryXml.TomlText
