import Wcl.Error
import Wcl.Document.Basic

/-!
# Paths into a document

A path is a list of keys, each but the last of a section.  A dotted key is a
path written with dots.  Two ways lead along a path: `setAt` asks for every
section on the way to be there, and `modifyAt` makes those that are missing.
-/

namespace Wcl.Document

/-- The segments of a dotted key. -/
def segments (key : Text) : List Text := key.splitOn '.'

/-- The value at a path of sections. -/
def valueAt? : List Text → Document → Option Value
  | [], _ => none
  | [k], d => d.get? k
  | k :: ks, d => (d.section? k).bind (valueAt? ks)

/-- The section at a path of sections; the document itself at the empty path. -/
def sectionAt? : List Text → Document → Option Document
  | [], d => some d
  | k :: ks, d => (d.section? k).bind (sectionAt? ks)

/-- Puts a value at a path whose sections are all there. -/
def setAt (value : Value) : List Text → Document → Except Error Document
  | [], d => .ok d
  | [k], d => .ok (d.insert k value)
  | k :: ks, d =>
    match d.section? k with
    | none => .error (.noSection k)
    | some s =>
      match setAt value ks s with
      | .error e => .error e
      | .ok s' => .ok (d.insert k (.nested s'))

/-- Puts a value at a dotted key. -/
def set (d : Document) (key : Text) (value : Value) : Except Error Document :=
  setAt value (segments key) d

/-- The section under a key, or an empty one where there is none. -/
def sectionOrEmpty (d : Document) (key : Text) : Document := (d.section? key).getD empty

/-- Changes the section at a path.  A section that is missing on the way is
made, also where a scalar stands. -/
def modifyAt (f : Document → Document) : List Text → Document → Document
  | [], d => f d
  | k :: ks, d => d.insert k (.nested (modifyAt f ks (d.sectionOrEmpty k)))

@[simp] theorem modifyAt_nil (f : Document → Document) (d : Document) : modifyAt f [] d = f d :=
  rfl

@[simp] theorem modifyAt_cons (f : Document → Document) (k : Text) (ks : List Text)
    (d : Document) :
    modifyAt f (k :: ks) d = d.insert k (.nested (modifyAt f ks (d.sectionOrEmpty k))) := rfl

end Wcl.Document
