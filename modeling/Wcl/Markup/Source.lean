import Wcl.Text.Basic

/-!
# Lines of a source

A source is a list of lines as they stand in a file; a line that cannot be
decoded is `none`.  A line that ends in a backslash goes on in the next one, so
several of them make one logical line, which has the number of its first.

`logicalLines` joins lines.  After a line is joined, it is the joined line that
is asked again whether it goes on.
-/

namespace Wcl

/-- The lines of a file in order, `none` for one that cannot be decoded. -/
abbrev Source := List (Option Text)

/-- A line with its number, `none` if a part of it cannot be decoded. -/
abbrev LogicalLine := Nat × Option Text

namespace Source

/-- A line without the carriage return at its end. -/
def dropReturn (line : Text) : Text :=
  if line.getLast? = some '\r' then line.dropLast else line

/-- The lines among pieces that line feeds separate: the last piece is a line
only if there is something in it, and it keeps its carriage return. -/
def ofPieces {α : Type} (isEmpty : α → Bool) (line last : α → Option Text) :
    List α → Source
  | [] => []
  | [piece] => if isEmpty piece then [] else [last piece]
  | piece :: pieces => line piece :: ofPieces isEmpty line last pieces

/-- The lines of a text. -/
def ofText (t : Text) : Source :=
  ofPieces List.isEmpty (fun l => some (dropReturn l)) some (t.splitOn '\n')

/-- The text that bytes encode. -/
def decode? (bytes : List UInt8) : Option Text :=
  (String.fromUTF8? (ByteArray.mk bytes.toArray)).map String.toList

/-- The lines of a file of bytes. -/
def ofBytes (bytes : List UInt8) : Source :=
  ofPieces List.isEmpty (fun l => (decode? l).map dropReturn) decode? (bytes.splitOn 10)

/-- What stands before the backslash of a line that goes on in the next one. -/
def continued? (line : Text) : Option Text :=
  match (Text.trimEnd line).reverse with
  | '\\' :: r => some r.reverse
  | _ => none

/-- Joins lines from line `number` on; `begun` is the number of a line that has
been begun, with its text so far. -/
def joinFrom (number : Nat) (begun : Option (Nat × Text)) : Source → List LogicalLine
  | [] => match begun with
    | none => []
    | some (first, text) => [(first, some text)]
  | none :: _ => [((begun.map Prod.fst).getD number, none)]
  | some line :: lines =>
    let first := (begun.map Prod.fst).getD number
    let text := (begun.map Prod.snd).getD [] ++ line
    match continued? text with
    | some text => joinFrom (number + 1) (some (first, text)) lines
    | none => (first, some text) :: joinFrom (number + 1) none lines

/-- The logical lines of a source.  Nothing follows a line that cannot be
decoded. -/
def logicalLines (s : Source) : List LogicalLine := joinFrom 1 none s

end Source

end Wcl
