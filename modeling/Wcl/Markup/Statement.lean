import Wcl.Text.Basic

/-!
# Statements

A logical line is a statement of one of seven forms, or none of them.  What
follows a hash is a comment and is cut off first.  The forms are tried in this
order: the include directives, the closing and the opening of a section, an
assignment with an equals sign, an assignment without one.

Each form is read from left to right, and every part of it is as long as it can
be, so that no form needs to be tried twice.
-/

namespace Wcl

/-- What a line says. -/
inductive Statement
  /-- Nothing but blanks and a comment. -/
  | blank
  /-- The file at a path is merged in here. -/
  | includeFile (path : Text)
  /-- What a function makes of these keys is merged in here. -/
  | includeCall (name : Text) (keys : List Text)
  /-- A directive that cannot be understood. -/
  | badDirective (line : Text)
  /-- A section opens, or a section and one inside it. -/
  | opening (tag : Text) (label : Option Text)
  /-- A section closes. -/
  | closing (tag : Text)
  /-- A key has a value. -/
  | assignment (key value : Text)
  /-- None of these. -/
  | other (line : Text)
  deriving DecidableEq, Repr

namespace Statement

/-- The longest beginning in a class, if it is not empty, and the rest. -/
def run? (inClass : Char → Bool) (t : Text) : Option (Text × Text) :=
  match t.takeWhile inClass with
  | [] => none
  | run => some (run, t.dropWhile inClass)

/-- What follows the blanks that a text begins with, if there are any. -/
def afterBlanks? : Text → Option Text
  | [] => none
  | c :: r => if isBlank c then some (Text.trimStart r) else none

/-- What follows the mark and the word of a directive and the blanks behind it. -/
def directive? (word line : Text) : Option Text := do
  let r ← Text.afterStart? "<<".toList (Text.trim line)
  let r ← Text.afterStart? word (Text.trimStart r)
  afterBlanks? r

/-- The path of a file to include. -/
def includePath? (line : Text) : Option Text := do
  let r ← directive? "include".toList line
  let r ← Text.beforeEnd? ">>".toList r
  let path := Text.trimEnd r
  if path.isEmpty || path.any isBlank then none else some path

/-- The name and the arguments of a call whose result is included. -/
def includeCall? (line : Text) : Option (Text × List Text) := do
  let r ← directive? "inclfunc".toList line
  let (name, r) ← run? (fun c => !isBlank c && c != '(') r
  let r ← Text.afterStart? ['('] r
  let r' ← Text.afterStart? [')'] (r.dropWhile (· != ')'))
  if Text.trim r' = ">>".toList then
    some (name, (Text.commaPieces (r.takeWhile (· != ')'))).filter (!·.isEmpty))
  else none

/-- The tag of a closing line. -/
def closing? (line : Text) : Option Text := do
  let r ← Text.afterStart? "</".toList (Text.trim line)
  let (tag, r) ← run? (fun c => !isBlank c && c != '<' && c != '>') (Text.trimStart r)
  if Text.trim r = ['>'] then some tag else none

/-- The tag of an opening line, and its label. -/
def opening? (line : Text) : Option (Text × Option Text) := do
  let r ← Text.afterStart? ['<'] (Text.trim line)
  let (tag, r) ← run? (fun c => !isBlank c && c != '<' && c != '>' && c != '/') (Text.trimStart r)
  if Text.trim r = ['>'] then some (tag, none)
  else
    let r ← afterBlanks? r
    let (label, r) ← run? (fun c => !isBlank c && c != '<' && c != '>') r
    if Text.trim r = ['>'] then some (tag, some label) else none

/-- A key and its value behind an equals sign.  The value may be blank, but
there must be something behind the sign. -/
def equation? (line : Text) : Option (Text × Text) := do
  let (key, r) ← run? (fun c => !isBlank c && c != '=') (Text.trimStart line)
  let value ← Text.afterStart? ['='] (Text.trimStart r)
  if value.isEmpty then none else some (key, Text.trim value)

/-- A key and its value behind blanks. -/
def pair? (line : Text) : Option (Text × Text) := do
  let (key, r) ← run? (!isBlank ·) (Text.trimStart line)
  let value ← afterBlanks? r
  if value.isEmpty || value.head? == some '=' then none else some (key, Text.trim value)

/-- A key and its value. -/
def assignment? (line : Text) : Option (Text × Text) := (equation? line).or (pair? line)

/-- The statement of a line without a comment. -/
def ofBareLine (line : Text) : Statement :=
  if (Text.trim line).isEmpty then .blank
  else match includePath? line with
    | some path => .includeFile path
    | none => match includeCall? line with
      | some (name, keys) => .includeCall name keys
      | none =>
        if "<<".toList.isPrefixOf (Text.trimStart line) then .badDirective (Text.trim line)
        else match closing? line with
          | some tag => .closing tag
          | none => match opening? line with
            | some (tag, label) => .opening tag label
            | none => match assignment? line with
              | some (key, value) => .assignment key value
              | none => .other (Text.trim line)

/-- The part of a line before its comment. -/
def bareLine (line : Text) : Text := (Text.cutAt '#' line).1

/-- The statement of a line. -/
def ofLine (line : Text) : Statement := ofBareLine (bareLine line)

end Statement

end Wcl
