import Wcl.Text.Decimal

/-!
# Plain scalars that are not strings

YAML reads some plain scalars as nothing, as a truth value or as a number.  A
text that looks like one of them has to be quoted to stay a text.
-/

namespace Wcl.Yaml

/-- Plain scalars that stand for nothing or for a truth value. -/
def wordScalars : List Text :=
  ["", "null", "Null", "NULL", "~", "true", "True", "TRUE", "false", "False", "FALSE"].map
    String.toList

/-- Whether a text is a sign at most, then a zero and more digits: such a text
is no number. -/
def hasLeadingZero (t : Text) : Bool :=
  let body := match t with
    | '-' :: r => r
    | '+' :: r => r
    | _ => t
  match body with
  | '0' :: r => Text.isDigits r
  | _ => false

/-- The value of a digit in a base, small and capital letters alike. -/
def digitIn? (base : Nat) (c : Char) : Option Nat :=
  let v := if c.isDigit then some (c.toNat - 48)
    else if 'a' ≤ c ∧ c ≤ 'z' then some (c.toNat - 87)
    else if 'A' ≤ c ∧ c ≤ 'Z' then some (c.toNat - 55)
    else none
  v.bind fun n => if n < base then some n else none

/-- The number that digits of a base stand for. -/
def numberIn? (base : Nat) (t : Text) : Option Nat :=
  if t.isEmpty then none
  else t.foldl (fun acc c => acc.bind fun n => (digitIn? base c).map (n * base + ·)) (some 0)

/-- The base that is marked by a zero and a letter, and the digits behind. -/
def markedBase? : Text → Option (Nat × Text)
  | '0' :: 'x' :: r => some (16, r)
  | '0' :: 'o' :: r => some (8, r)
  | '0' :: 'b' :: r => some (2, r)
  | _ => none

/-- Whether a text is an integer in a marked base: up to `2 ^ 128` with a plus
sign or none, down to `-2 ^ 127` with a minus sign. -/
def isMarkedInteger (t : Text) : Bool :=
  match t with
  | '-' :: r =>
    match markedBase? r with
    | some (base, ds) => (numberIn? base ds).any (· ≤ Nat.pow 2 127)
    | none => false
  | _ =>
    match markedBase? (Text.dropPlus t) with
    | some (base, ds) => (numberIn? base ds).any (· < Nat.pow 2 128)
    | none => false

/-- The parts of a decimal number without its sign: the digits before and
behind the point, and the exponent. -/
structure DecimalParts where
  whole : Text
  fraction : Text
  exponent : Int

/-- Reads an exponent with its mark; no mark is the exponent zero. -/
def readExponent? (t : Text) : Option Int :=
  let signed (r : Text) : Option Int :=
    let ds := match r with
      | '-' :: ds => ds
      | _ => Text.dropPlus r
    if Text.isDigits ds then
      some (if r.head? = some '-' then -(Text.natOfDigits ds : Int) else Text.natOfDigits ds)
    else none
  match t with
  | [] => some 0
  | 'e' :: r => signed r
  | 'E' :: r => signed r
  | _ => none

/-- Reads a decimal number without a sign: digits with at most one point among
them, and perhaps an exponent. -/
def readDecimal? (t : Text) : Option DecimalParts :=
  let whole := t.takeWhile Char.isDigit
  match t.dropWhile Char.isDigit with
  | '.' :: r =>
    let fraction := r.takeWhile Char.isDigit
    if whole.isEmpty && fraction.isEmpty then none
    else (readExponent? (r.dropWhile Char.isDigit)).map fun e => ⟨whole, fraction, e⟩
  | r =>
    if whole.isEmpty then none
    else (readExponent? r).map fun e => ⟨whole, [], e⟩

/-- Whether a decimal number is below the least that a binary number of double
precision rounds to infinity. -/
def DecimalParts.isFinite (p : DecimalParts) : Bool :=
  let m := Text.natOfDigits (p.whole ++ p.fraction)
  let e := p.exponent - p.fraction.length
  let size := (Text.natText m).length + e
  if m = 0 then true
  else if size ≤ 308 then true
  else if 310 < size then false
  else
    let bound := Nat.pow 2 1024 - Nat.pow 2 970
    if 0 ≤ e then decide (m * Nat.pow 10 e.toNat < bound)
    else decide (m < bound * Nat.pow 10 (-e).toNat)

/-- Whether a text is a decimal number that stays finite. -/
def isDecimalNumber (t : Text) : Bool :=
  let body := match t with
    | '-' :: r => r
    | _ => Text.dropPlus t
  (readDecimal? body).any DecimalParts.isFinite

/-- Plain scalars that stand for a number without digits. -/
def numberWords : List Text :=
  [".inf", ".Inf", ".INF", "+.inf", "+.Inf", "+.INF", "-.inf", "-.Inf", "-.INF",
    ".nan", ".NaN", ".NAN"].map String.toList

/-- Whether a plain scalar of this text would not be read as a string, or not
be read as one everywhere. -/
def looksTyped (t : Text) : Bool :=
  wordScalars.contains t || hasLeadingZero t || isMarkedInteger t || numberWords.contains t
    || isDecimalNumber t

end Wcl.Yaml
