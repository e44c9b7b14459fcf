import Wcl.Text.Basic

/-!
# Paths and the environment

A path may begin with a tilde, for the home directory, and may refer to
variables of the environment by a dollar sign, with or without braces around
the name.  A variable that is not set is left as it is written, and what has
been put in for one is not looked at again.
-/

namespace Wcl

/-- The variables of the environment. -/
abbrev Environment := Text → Option Text

namespace Environment

/-- Whether a character can begin the name of a variable. -/
def beginsName (c : Char) : Bool := c.isAlpha || c == '_'

/-- The name of a variable at the start of a text, empty if there is none. -/
def nameAt : Text → Text
  | [] => []
  | c :: r => if beginsName c then c :: r.takeWhile (fun d => beginsName d || d.isDigit) else []

/-- The variable that is referred to by a dollar sign before this text, and how
many of its characters belong to the reference. -/
def reference? (t : Text) : Option (Text × Nat) :=
  match t with
  | '{' :: r =>
    let name := nameAt r
    if name.isEmpty then none
    else match r.drop name.length with
      | '}' :: _ => some (name, name.length + 2)
      | _ => none
  | _ =>
    let name := nameAt t
    if name.isEmpty then none else some (name, name.length)

/-- Puts the values of variables in; the first `skip` characters belong to a
reference that has been dealt with. -/
def expandFrom (env : Environment) : Nat → Text → Text
  | _, [] => []
  | skip + 1, _ :: r => expandFrom env skip r
  | 0, c :: r =>
    if c = '$' then
      match reference? r with
      | some (name, size) => (env name).getD (c :: r.take size) ++ expandFrom env size r
      | none => c :: expandFrom env 0 r
    else c :: expandFrom env 0 r

/-- Puts the values of variables in. -/
def expandVariables (env : Environment) (path : Text) : Text := expandFrom env 0 path

/-- The names of the home directory's variables; the first that is set counts. -/
def homeNames : List Text := ["HOME".toList, "USERPROFILE".toList]

/-- Puts the home directory in for a tilde that is the first segment. -/
def expandHome (env : Environment) (path : Text) : Text :=
  match path with
  | '~' :: rest =>
    if rest.isEmpty || rest.head? == some '/' then
      match homeNames.findSome? env with
      | some home => home ++ rest
      | none => path
    else path
  | _ => path

/-- Expands a path. -/
def expandPath (env : Environment) (path : Text) : Text :=
  expandVariables env (expandHome env path)

/-- The names that references in a text ask for; the first `skip` characters
belong to a reference that has been dealt with. -/
def namesFrom : Nat → Text → List Text
  | _, [] => []
  | skip + 1, _ :: r => namesFrom skip r
  | 0, c :: r =>
    if c = '$' then
      match reference? r with
      | some (name, size) => name :: namesFrom size r
      | none => namesFrom 0 r
    else namesFrom 0 r

/-- The variables that expanding a path can ask for. -/
def namesIn (env : Environment) (path : Text) : List Text :=
  homeNames ++ namesFrom 0 (expandHome env path)

end Environment

end Wcl
