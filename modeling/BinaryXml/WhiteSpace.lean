/-!
# White space

The characters with the Unicode property White_Space, and the words of a text between them.
-/

namespace BinaryXml.WhiteSpace

def isWhiteSpace (c : Char) : Bool :=
  let n := c.toNat
  (0x9 ≤ n && n ≤ 0xD) || n == 0x20 || n == 0x85 || n == 0xA0 || n == 0x1680 ||
    (0x2000 ≤ n && n ≤ 0x200A) || n == 0x2028 || n == 0x2029 || n == 0x202F || n == 0x205F ||
    n == 0x3000

def trimList (cs : List Char) : List Char :=
  ((cs.dropWhile isWhiteSpace).reverse.dropWhile isWhiteSpace).reverse

/-- The text without white space at its ends. -/
def trim (text : String) : String :=
  String.ofList (trimList text.toList)

/-- Maximal runs of other characters; `word` holds the last characters seen, latest first. -/
def wordsAfter (word : List Char) : List Char → List (List Char)
  | [] => if word.isEmpty then [] else [word.reverse]
  | c :: cs =>
    if isWhiteSpace c then
      if word.isEmpty then wordsAfter [] cs else word.reverse :: wordsAfter [] cs
    else wordsAfter (c :: word) cs

def words (text : String) : List (List Char) :=
  wordsAfter [] text.toList

end BinaryXml.WhiteSpace
