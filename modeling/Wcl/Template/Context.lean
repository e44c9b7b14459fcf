import Wcl.Bindings
import Wcl.Document.Search
import Wcl.Registry

/-!
# What a template is resolved against

A context is a document with a scope, and the decision whether a variable with
several values becomes a loop.  A combination is a text with the values that
its variables had when it came about.
-/

namespace Wcl

/-- The document and the collaborators that a template is resolved with. -/
structure Context where
  document : Document
  scope : Scope := {}
  /-- Whether a variable with several values becomes a loop. -/
  expand : Bool := false
  registry : Option Registry := none

/-- A text with the values of the variables that went into it. -/
structure Combination where
  text : Text
  bindings : Bindings
  deriving DecidableEq, Repr

/-- What a template resolves to. -/
inductive Resolved
  /-- One text, and no loop was expanded. -/
  | single (item : Combination)
  /-- One text for each combination of loop values, in the order of expansion. -/
  | expanded (items : List Combination)
  deriving DecidableEq, Repr

namespace Resolved

/-- The combinations, in order. -/
def combinations : Resolved → List Combination
  | .single item => [item]
  | .expanded items => items

/-- The number of combinations. -/
def size (r : Resolved) : Nat := r.combinations.length

/-- The only text that `template` stands for. -/
def only (template : Text) : Resolved → Except Error Text
  | .single item => .ok item.text
  | .expanded [item] => .ok item.text
  | .expanded items => .error (.ambiguous template items.length)

end Resolved

/-- The characters in all keys, and one more for each key. -/
def Entries.keyWeight : Entries → Nat
  | .nil => 0
  | .scalar k _ rest => k.length + 1 + rest.keyWeight
  | .nested k _ inner rest => k.length + 1 + inner.keyWeight + rest.keyWeight

namespace Context

/-- A length that no name exceeds under which something can be found. -/
def nameBound (c : Context) : Nat :=
  c.document.entries.keyWeight + (c.scope.current.getD .empty).entries.keyWeight
    + (c.scope.object.getD .empty).entries.keyWeight

/-- A number above that of all names under which something can be found, so
above the depth to which different variables can need one another. -/
def depthBound (c : Context) : Nat := Nat.pow 0x110000 (c.nameBound + 1)

end Context

end Wcl
