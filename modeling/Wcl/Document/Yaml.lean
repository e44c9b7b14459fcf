import Wcl.Document.Basic
import Wcl.Document.Yaml.Scalar

/-!
# Documents as YAML

Sections are block mappings, two spaces further to the right at each level, and
an empty section is `{}`.  A key that is long or has several lines stands
behind a question mark.
-/

namespace Wcl

namespace Yaml

/-- The number of bytes a text takes. -/
def byteSize (t : Text) : Nat := t.foldr (fun c n => c.utf8Size + n) 0

/-- Whether a key can stand directly before its colon. -/
def isSimpleKey (k : Text) : Bool := !k.any isBreak && byteSize k ≤ 128

/-- A key, up to and with its colon. -/
def keyPart (left : Nat) (k : Text) : Text :=
  if isSimpleKey k then scalar (left + 2) k ++ [':']
  else '?' :: ' ' :: scalarLine (left + 2) k ++ margin left ++ [':']

/-- The entries of a mapping behind a colon.  Behind a simple key they begin on
the next line, behind another key on the same one. -/
def mapping (simple : Bool) (left : Nat) : List Text → Text
  | [] => " \x7b\x7d\n".toList
  | e :: es =>
    (if simple then '\n' :: margin left ++ e else ' ' :: e) ++ es.flatMap (margin left ++ ·)

end Yaml

/-- The entries of a block mapping, without the margin of each entry's first
line. -/
def Entries.yaml (left : Nat) : Entries → List Text
  | .nil => []
  | .scalar k t rest =>
    (Yaml.keyPart left k ++ ' ' :: Yaml.scalarLine (left + 2) t) :: rest.yaml left
  | .nested k _ inner rest =>
    (Yaml.keyPart left k ++ Yaml.mapping (Yaml.isSimpleKey k) (left + 2) (inner.yaml (left + 2)))
      :: rest.yaml left

/-- The document as YAML. -/
def Document.yaml (d : Document) : Text :=
  match d.entries.yaml 0 with
  | [] => "\x7b\x7d\n".toList
  | es => es.flatten

end Wcl
