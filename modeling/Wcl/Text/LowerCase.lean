import Wcl.Text.Basic
import Wcl.Text.LowerCase.Table

/-!
# Lower case

`lowerCase` follows Unicode's full mapping without a language: every character
has its own lower-case form, except that a capital sigma at the end of a word
becomes the final small sigma, and that the dotted capital I becomes two
characters.
-/

namespace Wcl.Text

/-- Whether the first character that is not ignorable is cased. -/
def meetsCased (t : Text) : Bool :=
  match t.dropWhile (fun c => caseIgnorableRanges.has c.toNat) with
  | [] => false
  | c :: _ => casedRanges.has c.toNat

/-- The lower-case form of a character that stands alone. -/
def lowerChar (c : Char) : Text :=
  if c = 'İ' then ['i', Char.ofNat 0x307]
  else match lowerRows.image? c.toNat with
    | some n => [Char.ofNat n]
    | none => [c]

/-- The lower-case form of a text that stands behind `before`, given in reverse. -/
def lowerFrom (before : Text) : Text → Text
  | [] => []
  | c :: r =>
    (if c = 'Σ' ∧ meetsCased before ∧ ¬ meetsCased r then ['ς'] else lowerChar c)
      ++ lowerFrom (c :: before) r

/-- The lower-case form of a text. -/
def lowerCase (t : Text) : Text := lowerFrom [] t

end Wcl.Text
