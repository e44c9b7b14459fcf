import Wcl.Text.Decimal

/-!
# Lists of values

A text can stand for several values: pieces between delimiters, where a piece
`A:B` stands for the numbers from A to B.  Parentheses around the list, or
anywhere in it, do not count.

`splitWithin` makes at most a given number of values and gives up before it
would make more, so that a wide range costs nothing.
-/

namespace Wcl.Text

/-- Whether a text stands for several values. -/
def isMultiValued (t : Text) : Bool := t.head? == some '(' || t.contains ','

/-- The ends of a range, two counts with a colon between them. -/
def range? (piece : Text) : Option (Nat × Nat) :=
  match cutAt ':' piece with
  | (first, some last) =>
    match readDigits? first, readDigits? last with
    | some a, some b => some (a, b)
    | _, _ => none
  | (_, none) => none

/-- How many numbers a range has; no more than a count can hold. -/
def rangeSize (first last : Nat) : Nat :=
  if last < first then 0 else min (last - first + 1) (countLimit - 1)

/-- The numbers of a range in order. -/
def rangeValues (first last : Nat) : List Text :=
  (List.range' first (last + 1 - first)).map natText

/-- The pieces of a list of values. -/
def pieces (delimiter : Char) (t : Text) : List Text :=
  ((t.filter fun c => c != '(' && c != ')').splitOn delimiter).map trim

/-- The values of the pieces, or nothing if they are more than `limit`. -/
def valuesWithin (limit : Nat) : List Text → Option (List Text)
  | [] => some []
  | piece :: rest =>
    match range? piece with
    | some (first, last) =>
      let size := rangeSize first last
      if limit < size then none
      else (valuesWithin (limit - size) rest).map (rangeValues first last ++ ·)
    | none => if limit = 0 then none else (valuesWithin (limit - 1) rest).map (piece :: ·)

/-- The values of a text, or nothing if they are more than `limit`. -/
def splitWithin (limit : Nat) (delimiter : Char) (t : Text) : Option (List Text) :=
  valuesWithin limit (pieces delimiter t)

/-- The values of a text; none if they are more than can be counted. -/
def splitValues (delimiter : Char) (t : Text) : List Text :=
  (splitWithin (countLimit - 1) delimiter t).getD []

end Wcl.Text
