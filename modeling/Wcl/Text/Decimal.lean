import Wcl.Text.Basic

/-!
# Decimal numbers

Numbers are read from ASCII digits and have a machine's range: counts lie below
`2 ^ 64`, integers between `-2 ^ 63` and `2 ^ 63 - 1`.  `natOfDigits_natText`
says that a written number reads back.  `padded` writes an integer in at least
a given number of characters, with zeros behind the sign; that number is a count
below `2 ^ 16`.
-/

namespace Wcl.Text

/-- Whether a text is a non-empty row of digits. -/
def isDigits (t : Text) : Bool := !t.isEmpty && t.all Char.isDigit

/-- The number that a row of digits stands for. -/
def natOfDigits (t : Text) : Nat := Nat.ofDigitChars 10 t 0

/-- The shortest decimal form of a number. -/
def natText (n : Nat) : Text := Nat.toDigits 10 n

@[simp] theorem natOfDigits_natText (n : Nat) : natOfDigits (natText n) = n :=
  Nat.ofDigitChars_ten_toDigits

theorem isDigits_natText (n : Nat) : isDigits (natText n) = true := by
  simp only [isDigits, Bool.and_eq_true, Bool.not_eq_true', List.isEmpty_eq_false_iff,
    List.all_eq_true]
  exact ⟨Nat.toDigits_ne_nil, fun c hc =>
    Nat.isDigit_of_mem_toDigits (by decide) (by decide) hc⟩

/-- Counts are below this number. -/
def countLimit : Nat := Nat.pow 2 64

/-- Reads a row of digits as a count. -/
def readDigits? (t : Text) : Option Nat :=
  if isDigits t ∧ natOfDigits t < countLimit then some (natOfDigits t) else none

/-- The text behind one plus sign, if there is one. -/
def dropPlus : Text → Text
  | '+' :: r => r
  | t => t

/-- Reads a count, with or without a plus sign. -/
def readCount? (t : Text) : Option Nat := readDigits? (dropPlus t)

/-- Integers are below this number, and not below its negative. -/
def integerLimit : Nat := Nat.pow 2 63

/-- Reads an integer, with or without a sign. -/
def readInt? (t : Text) : Option Int :=
  match t with
  | '-' :: r =>
    if isDigits r ∧ natOfDigits r ≤ integerLimit then some (-(natOfDigits r : Int)) else none
  | _ =>
    let r := dropPlus t
    if isDigits r ∧ natOfDigits r < integerLimit then some (natOfDigits r) else none

/-- The sign that is written before a number's digits. -/
def signText (n : Int) : Text := if n < 0 then ['-'] else []

/-- The shortest decimal form of an integer. -/
def intText (n : Int) : Text := signText n ++ natText n.natAbs

/-- The widths that numbers can be written in are below this number. -/
def widthLimit : Nat := Nat.pow 2 16

/-- An integer in at least `width` characters: the sign, zeros, the digits. -/
def padded (width : Fin widthLimit) (n : Int) : Text :=
  signText n ++ List.replicate (width - (intText n).length) '0' ++ natText n.natAbs

/-- Pads the integer that `value` reads as to the width that `width` reads as,
blanks around either left aside. -/
def zeroPad? (value width : Text) : Option Text :=
  match readCount? (trim width), readInt? (trim value) with
  | some w, some n => if h : w < widthLimit then some (padded ⟨w, h⟩ n) else none
  | _, _ => none

end Wcl.Text
