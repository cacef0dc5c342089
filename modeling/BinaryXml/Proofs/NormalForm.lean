import BinaryXml.Proofs.ContentInStep
import BinaryXml.Proofs.ElementScopes
import BinaryXml.Encoder

/-!
# Normal forms of documents

What a document says does not depend on what its events leave to the encoder. The normal form has
every name with the namespace that it stands for, every text in the form in which it can be
written, and nothing that the settings leave out or that carries nothing.
-/

namespace BinaryXml

namespace Content

/-- Whether the alphabet is known and has all the characters. -/
def isPackable (c : Codec) (alphabet : UInt8) (characters : String) : Bool :=
  (c.alphabets.find? alphabet).any fun a => characters.toList.all a.contains

/-- Text that cannot be packed is plain text. -/
def written (c : Codec) : Content → Content
  | restricted alphabet characters =>
    if isPackable c alphabet characters then restricted alphabet characters else text characters
  | content => content

end Content

/-- The name with its namespace, in elements with these declarations. Only elements take the
default namespace. -/
def QualifiedName.resolved (opened : List (List NamespaceDeclaration)) (kind : NameKind)
    (name : QualifiedName) : QualifiedName :=
  if name.hasNamespace || (kind = .attribute && !name.hasPrefix) then name
  else { name with namespaceName := namespaceOf opened name.nsPrefix }

def Attribute.normalised (c : Codec) (opened : List (List NamespaceDeclaration)) (a : Attribute) :
    Attribute where
  name := a.name.resolved opened .attribute
  value := (a.value.written c).asValue c

/-- The normal form of an event in elements with these declarations, if anything is left of it. -/
def Event.normalised? (c : Codec) (opened : List (List NamespaceDeclaration)) :
    Event → Option Event
  | .startDocument header =>
    some (.startDocument { header with externalVocabulary := c.initialUri? })
  | .startElement name declarations attributes =>
    let opened := declarations :: opened
    some (.startElement (name.resolved opened .element) declarations
      (attributes.map (Attribute.normalised c opened)))
  | .characters content =>
    if (c.config.ignoreBlankText && content.isBlank) || content.isVacuous c then none
    else some (.characters (content.written c))
  | .comment text => if c.config.ignoreComments then none else some (.comment text)
  | .instruction target data =>
    if c.config.ignoreInstructions then none else some (.instruction target data)
  | .endElement => some .endElement
  | .endDocument => none

namespace Codec

/-- The events inside of elements with the given declarations in normal form. -/
def normalisedIn (c : Codec) (opened : List (List NamespaceDeclaration)) :
    List Event → List Event
  | [] => []
  | e :: es => (e.normalised? c opened).toList ++ c.normalisedIn (e.openedAfter opened) es

/-- A document in normal form, which always has its end. -/
def normalised (c : Codec) (events : List Event) : List Event :=
  c.normalisedIn [] events ++ [.endDocument]

end Codec

/-! ## Names -/

namespace NamespaceScopes

variable {opened : List (List NamespaceDeclaration)}

/-- A name that can be resolved stands for what the declarations say. -/
theorem resolveName_eq_ok {kind : NameKind} {name resolved : QualifiedName}
    (allowed : ∀ ds ∈ opened, ∀ d ∈ ds, d.IsAllowed)
    (h : (ofElements opened).resolveName kind name = .ok resolved) :
    resolved = name.resolved opened kind := by
  unfold resolveName at h
  unfold QualifiedName.resolved
  split at h
  · next given =>
      cases h
      rw [given, Bool.true_or, if_pos rfl]
  · next bare =>
      rw [Bool.not_eq_true] at bare
      rw [bare, Bool.false_or]
      split at h
      · next named =>
          dsimp only at h
          rw [uriOf_ofElements allowed] at h
          split at h
          · cases h
          · cases h
            rw [named, Bool.not_true, Bool.and_false, if_neg Bool.false_ne_true]
      · next plain =>
          rw [Bool.not_eq_true] at plain
          have empty : name.nsPrefix = "" := by simpa [QualifiedName.hasPrefix] using plain
          rw [plain, Bool.not_false, Bool.and_true]
          cases kind with
          | element =>
              cases h
              rw [uriOf_ofElements allowed, empty]
              rfl
          | _ =>
              cases h
              rfl

end NamespaceScopes

/-! ## Content -/

namespace Alphabet

/-- Text is packed if the alphabet has all its characters. -/
theorem isOk_pack (a : Alphabet) (id : UInt8) (held pending : Nat) (cs : List Char) :
    (a.pack id held pending cs).isOk = cs.all a.contains := by
  induction cs generalizing held pending with
  | nil => rfl
  | cons c cs ih =>
      rw [pack, List.all_cons, contains, code?]
      cases a.characters.indexOf? c with
      | none => rfl
      | some i =>
          dsimp only [Option.map_some]
          rw [← ih]
          cases a.pack id _ _ cs <;> rfl

end Alphabet

namespace Content

variable {c : Codec}

theorem isPackable_eq (c : Codec) (id : UInt8) (characters : String) :
    isPackable c id characters = (c.alphabets.encode id characters).isOk := by
  rw [isPackable, AlphabetRegistry.encode, AlphabetRegistry.get]
  cases c.alphabets.find? id with
  | none => rfl
  | some a => exact (a.isOk_pack id 0 0 characters.toList).symm

theorem isVacuous_written (content : Content) :
    (content.written c).isVacuous c = content.isVacuous c := by
  cases content with
  | restricted id characters =>
      rw [written]
      split <;> rfl
  | _ => rfl

end Content

end BinaryXml
