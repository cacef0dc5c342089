import BinaryXml.QuotedText

/-!
# Namespace scopes

Each open element has a scope of prefix declarations. A prefix stands for the URI of its latest
binding that is still in scope; the bindings of `xml` and `xmlns` are fixed and never go away.
-/

namespace BinaryXml

def xmlNamespace : String := "http://www.w3.org/XML/1998/namespace"

def xmlnsNamespace : String := "http://www.w3.org/2000/xmlns/"

inductive NamespaceError
  | reservedPrefix (nsPrefix uri : String)
  | reservedNamespace (nsPrefix uri : String)
  | noScope
  | unboundPrefix (nsPrefix : String)

def NamespaceError.message : NamespaceError → String
  | reservedPrefix nsPrefix uri =>
    s!"Prefix {QuotedText.quoteText nsPrefix} cannot be bound to {QuotedText.quoteText uri}"
  | reservedNamespace nsPrefix uri =>
    let (uri, nsPrefix) := (QuotedText.quoteText uri, QuotedText.quoteText nsPrefix)
    s!"Namespace {uri} cannot be bound to prefix {nsPrefix}"
  | noScope => "No namespace context to pop"
  | unboundPrefix nsPrefix =>
    s!"Prefix {QuotedText.quoteText nsPrefix} is not bound to a namespace"

namespace NamespaceScopes

structure Binding where
  nsPrefix : String
  uri : String
  /-- How many scopes were open at the declaration. -/
  depth : Nat
  deriving DecidableEq

end NamespaceScopes

/-- Bindings are listed latest first. -/
structure NamespaceScopes where
  bindings : List NamespaceScopes.Binding
  depth : Nat
  deriving DecidableEq

namespace NamespaceScopes

def initial : NamespaceScopes where
  bindings := [⟨"xmlns", xmlnsNamespace, 0⟩, ⟨"xml", xmlNamespace, 0⟩]
  depth := 0

def push (s : NamespaceScopes) : NamespaceScopes :=
  { s with depth := s.depth + 1 }

/-- Leaves the innermost scope, and with it the bindings declared there. -/
def pop (s : NamespaceScopes) : Except NamespaceError NamespaceScopes :=
  if s.depth = 0 then .error .noScope
  else .ok ⟨s.bindings.dropWhile fun b => s.depth ≤ b.depth, s.depth - 1⟩

/-- A declaration takes the place of an earlier one of the same prefix in its scope, and counts as
the latest. That `xml` stands for its own URI may be said again, without effect. -/
def declare (s : NamespaceScopes) (nsPrefix uri : String) :
    Except NamespaceError NamespaceScopes :=
  if nsPrefix = "xml" ∧ uri = xmlNamespace then .ok s
  else if nsPrefix = "xml" ∨ nsPrefix = "xmlns" then .error (.reservedPrefix nsPrefix uri)
  else if uri = xmlNamespace ∨ uri = xmlnsNamespace then .error (.reservedNamespace nsPrefix uri)
  else
    let isInner (b : Binding) : Bool := b.depth = s.depth
    let inner := (s.bindings.takeWhile isInner).eraseP fun b => b.nsPrefix = nsPrefix
    .ok { s with bindings := ⟨nsPrefix, uri, s.depth⟩ :: inner ++ s.bindings.dropWhile isInner }

def resolve? (s : NamespaceScopes) (nsPrefix : String) : Option String :=
  (s.bindings.find? fun b => b.nsPrefix = nsPrefix).map (·.uri)

/-- The URI of a prefix, or the empty text. -/
def uriOf (s : NamespaceScopes) (nsPrefix : String) : String :=
  (s.resolve? nsPrefix).getD ""

/-- The prefixes that stand for a URI, latest declaration first. -/
def prefixesOf (s : NamespaceScopes) (uri : String) : List String :=
  ((s.bindings.filter fun b => b.uri = uri && s.resolve? b.nsPrefix = some uri).map
    (·.nsPrefix)).eraseDups

def prefixOf? (s : NamespaceScopes) (uri : String) : Option String :=
  (s.bindings.find? fun b => b.uri = uri && s.resolve? b.nsPrefix = some uri).map (·.nsPrefix)

/-- The prefixes declared in the innermost scope, in the order of their declaration. -/
def declared (s : NamespaceScopes) : List String :=
  if s.depth = 0 then []
  else ((s.bindings.filter fun b => b.depth = s.depth).map (·.nsPrefix)).reverse

end NamespaceScopes

end BinaryXml
