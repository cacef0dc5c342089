import BinaryXml.CharacterClasses

/-!
# Text in quotes

Messages show text and single characters in quotes, so that every character can be told from
every other: characters without a glyph, and those that would change the one before them, are
written by their code point.
-/

namespace BinaryXml.QuotedText

/-- Lower-case hexadecimal digits without leading zeros. -/
def hexDigits (n : Nat) : String :=
  String.ofList (Nat.toDigits 16 n)

def codePoint (c : Char) : String :=
  "\\u\x7b" ++ hexDigits c.toNat ++ "\x7d"

/-- How a character is written between the quotes `mark`. -/
def escaped (mark : Char) (c : Char) : String :=
  if c = '\x00' then "\\0"
  else if c = '\t' then "\\t"
  else if c = '\n' then "\\n"
  else if c = '\r' then "\\r"
  else if c = '\\' || c = mark then String.ofList ['\\', c]
  else if CharacterClasses.isExtending c || !CharacterClasses.isPrintable c then codePoint c
  else String.singleton c

def quoteText (text : String) : String :=
  "\"" ++ String.join (text.toList.map (escaped '"')) ++ "\""

def quoteChar (c : Char) : String :=
  "'" ++ escaped '\'' c ++ "'"

end BinaryXml.QuotedText
