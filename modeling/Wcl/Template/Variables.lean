import Wcl.Document.Basic
import Wcl.Template.Token

/-!
# The variables that a document refers to

A scan over all scalars for tokens of required variables.  Its tokens reach
from the opening brace to the next closing one.
-/

namespace Wcl

/-- The tokens that the scan looks for. -/
def referenceKind : TokenKind := ⟨Form.required.opener, (· != '}')⟩

/-- The names of the variables in a text, from left to right. -/
def referencedNames (t : Text) : List Text :=
  (Token.all referenceKind t).map fun token => Token.nameIn token.body

/-- The names of the variables in all scalars, in the order of the document. -/
def Entries.referencedNames : Entries → List Text
  | .nil => []
  | .scalar _ t rest => Wcl.referencedNames t ++ rest.referencedNames
  | .nested _ _ inner rest => inner.referencedNames ++ rest.referencedNames

/-- The names of the variables that a document refers to, each once and in
order. -/
def Document.referencedVariables (d : Document) : List Text :=
  d.entries.referencedNames.foldr Text.addSorted []

end Wcl
