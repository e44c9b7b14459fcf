import Wcl.Document.Path
import Wcl.Text.LowerCase

/-!
# Open sections

While a document is read, sections are open, one inside the other.  A line may
open a section together with one inside it, its label; such a pair is closed
one by one, or both at once by the tag of the outer one.

Keys are kept in lower case.  From the opening of a section that keeps its case
to the next closing line with such a name, keys are kept as they are spelled.
-/

namespace Wcl

/-- The sections whose keys are kept as they are spelled. -/
def caseKeepingKeys : List Text := ["cmdline".toList, "replace".toList]

/-- A section that is open. -/
structure Frame where
  key : Text
  /-- Whether it was opened as the label of the section around it. -/
  isLabel : Bool
  deriving DecidableEq, Repr

/-- A document while it is read: the sections that are open, the innermost
first, and whether keys keep their case. -/
structure Sections where
  root : Document := .empty
  frames : List Frame := []
  keepsCase : Bool := false
  deriving DecidableEq, Repr

namespace Sections

/-- The path of the innermost section. -/
def path (s : Sections) : List Text := s.frames.reverse.map Frame.key

/-- The document with a change to the innermost section, which is made if it is
not there. -/
def modify (s : Sections) (f : Document → Document) : Sections :=
  { s with root := Document.modifyAt f s.path s.root }

/-- Gives a key of the innermost section a value. -/
def assign (s : Sections) (key value : Text) : Sections :=
  s.modify (·.insert (if s.keepsCase then key else Text.lowerCase key) (.scalar value))

/-- Opens one more section. -/
def push (s : Sections) (frame : Frame) : Sections :=
  { s with frames := frame :: s.frames }.modify id

/-- Opens a section, and the section of its label inside. -/
def opened (s : Sections) (tag : Text) (label : Option Text) : Except MarkupFault Sections :=
  let key := Text.lowerCase tag
  if s.frames.head?.any (·.key = key) then .error (.sameNameChild key)
  else
    let s := { s with keepsCase := s.keepsCase || caseKeepingKeys.contains key }.push ⟨key, false⟩
    match label with
    | none => .ok s
    | some l => .ok (s.push ⟨Text.lowerCase l, true⟩)

/-- Closes a section, or a section and the label inside it. -/
def closed (s : Sections) (tag : Text) : Except MarkupFault Sections :=
  let key := Text.lowerCase tag
  let keepsCase := s.keepsCase && !caseKeepingKeys.contains key
  match s.frames with
  | [] => .error (.nothingOpen key)
  | top :: below =>
    if top.key = key then .ok { s with frames := below, keepsCase }
    else match top.isLabel, below with
      | true, outer :: rest =>
        if outer.key = key then .ok { s with frames := rest, keepsCase }
        else .error (.wrongClose key outer.key)
      | _, _ => .error (.wrongClose key top.key)

/-- The document, once no section is open. -/
def finished (s : Sections) : Except MarkupFault Document :=
  if s.frames.isEmpty then .ok s.root else .error (.unclosed s.path)

end Sections

end Wcl
