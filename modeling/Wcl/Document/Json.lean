import Wcl.Document.Basic
import Wcl.Text.Quoted

/-!
# Documents as JSON

Sections are objects and scalars are strings, in the document's order.  Only
quotes, backslashes and control characters are escaped.
-/

namespace Wcl

/-- How a character stands in a JSON string. -/
def Text.jsonChar (c : Char) : Text :=
  match c with
  | '"' => ['\\', '"']
  | '\\' => ['\\', '\\']
  | '\x08' => ['\\', 'b']
  | '\x0c' => ['\\', 'f']
  | '\n' => ['\\', 'n']
  | '\r' => ['\\', 'r']
  | '\t' => ['\\', 't']
  | _ =>
    if c.toNat < 0x10 then "\\u000".toList ++ Text.hexText c.toNat
    else if c.toNat < 0x20 then "\\u00".toList ++ Text.hexText c.toNat
    else [c]

/-- A JSON string. -/
def Text.json (t : Text) : Text := '"' :: t.flatMap jsonChar ++ ['"']

/-- The members of an object, without spaces. -/
def Entries.jsonMembers : Entries → List Text
  | .nil => []
  | .scalar k t rest => (k.json ++ ':' :: t.json) :: rest.jsonMembers
  | .nested k _ inner rest =>
    (k.json ++ ':' :: '{' :: List.intercalate [','] inner.jsonMembers ++ ['}'])
      :: rest.jsonMembers

/-- An object whose members stand on lines of their own, between the margins of
the members and of the closing brace. -/
def jsonObject (margin : Nat) (members : List Text) : Text :=
  if members.isEmpty then ['{', '}']
  else
    let start : Text := '\n' :: List.replicate (margin + 2) ' '
    '{' :: start ++ List.intercalate (',' :: start) members
      ++ '\n' :: List.replicate margin ' ' ++ ['}']

/-- The members of an object on lines of their own. -/
def Entries.prettyMembers (margin : Nat) : Entries → List Text
  | .nil => []
  | .scalar k t rest => (k.json ++ ':' :: ' ' :: t.json) :: rest.prettyMembers margin
  | .nested k _ inner rest =>
    (k.json ++ ':' :: ' ' :: jsonObject (margin + 2) (inner.prettyMembers (margin + 2)))
      :: rest.prettyMembers margin

namespace Document

/-- The document as JSON without spaces. -/
def json (d : Document) : Text :=
  '{' :: List.intercalate [','] d.entries.jsonMembers ++ ['}']

/-- The document as JSON on several lines. -/
def prettyJson (d : Document) : Text := jsonObject 0 (d.entries.prettyMembers 0)

end Document

end Wcl
