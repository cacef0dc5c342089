import BinaryXml.QuotedText

/-!
# Qualified names

The prefix is part of a name: two names that differ in it alone are different entries of a table.
-/

namespace BinaryXml

structure QualifiedName where
  nsPrefix : String := ""
  namespaceName : String := ""
  localName : String
  deriving DecidableEq, Hashable

namespace QualifiedName

def hasPrefix (n : QualifiedName) : Bool := !n.nsPrefix.isEmpty

def hasNamespace (n : QualifiedName) : Bool := !n.namespaceName.isEmpty

/-- The name as it stands in a tag. -/
def tagText (n : QualifiedName) : String :=
  if n.hasPrefix then n.nsPrefix ++ ":" ++ n.localName else n.localName

/-- All three parts, quoted. -/
def quoted (n : QualifiedName) : String :=
  "QualifiedName \x7b prefix: " ++ QuotedText.quoteText n.nsPrefix ++ ", namespace: " ++
    QuotedText.quoteText n.namespaceName ++ ", local: " ++ QuotedText.quoteText n.localName ++
    " \x7d"

/-- Names are ordered by prefix, then namespace, then local part. -/
def compare (a b : QualifiedName) : Ordering :=
  (Ord.compare a.nsPrefix b.nsPrefix).then <|
    (Ord.compare a.namespaceName b.namespaceName).then (Ord.compare a.localName b.localName)

end QualifiedName

end BinaryXml
