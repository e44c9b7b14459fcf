import Wcl.Error
import Wcl.Text.LowerCase
import Wcl.Document.Path

/-!
# Looking keys up

A key is looked up in lower case.  A dotted key is a path.  Any other key is
looked for in four layers, and the first that has it answers: the current
values, an object of the caller's, the sections of the search order, and the
top level.  The section `s` of the search order takes part if the current value
of `curr_s` is a scalar; that scalar names the part of `s` that is looked into.

`find?` is the look-up itself, `search` the same with an error for a key that
must be there.
-/

namespace Wcl

/-- What a look-up consults besides the document. -/
structure Scope where
  /-- Current values that come before those of the document. -/
  current : Option Document := none
  /-- The caller's object. -/
  object : Option Document := none
  deriving DecidableEq, Repr

namespace Document

/-- The current value under a key. -/
def currentValue? (d : Document) (s : Scope) (key : Text) : Option Value :=
  (s.current.bind (·.get? key)).or (d.current?.bind (·.get? key))

/-- The key of the current value that selects a part of a section. -/
def selectorKey (name : Text) : Text := "curr_".toList ++ name

/-- The part of a section that the current values select. -/
def selected? (d : Document) (s : Scope) (name : Text) : Option Document :=
  ((d.currentValue? s (selectorKey name)).bind Value.text?).bind fun part =>
    (d.section? name).bind (·.section? part)

/-- The value under a key without dots, in lower case. -/
def findScoped? (d : Document) (s : Scope) (key : Text) : Option Value :=
  (d.currentValue? s key).or <|
    (s.object.bind (·.get? key)).or <|
      (d.searchOrder.findSome? fun name => (d.selected? s name).bind (·.get? key)).or
        (d.get? key)

/-- The value under a key. -/
def find? (d : Document) (s : Scope) (key : Text) : Option Value :=
  let k := Text.lowerCase key
  if '.' ∈ k then valueAt? (segments k) d else d.findScoped? s k

/-- The value under a key; to miss it is an error if it is required. -/
def search (d : Document) (s : Scope) (required : Bool) (key : Text) :
    Except Error (Option Value) :=
  match d.find? s key with
  | some v => .ok (some v)
  | none => if required then .error (.missingKey (Text.lowerCase key)) else .ok none

@[simp] theorem search_optional (d : Document) (s : Scope) (key : Text) :
    d.search s false key = .ok (d.find? s key) := by
  unfold search
  cases d.find? s key <;> rfl

end Document

end Wcl
