import Wcl.Text.Basic
import Wcl.Text.Quoted.Table

/-!
# Quoted texts

A quoted text stands between double quotes.  Quotes and backslashes in it have
a backslash before them, line ends and tabs have a letter, and what cannot be
seen is spelled out by its code point.
-/

namespace Wcl.Text

/-- A number in base sixteen, with small letters. -/
def hexText (n : Nat) : Text := Nat.toDigits 16 n

/-- How a character stands in a quoted text. -/
def quotedChar (c : Char) : Text :=
  match c with
  | '\x00' => ['\\', '0']
  | '\t' => ['\\', 't']
  | '\r' => ['\\', 'r']
  | '\n' => ['\\', 'n']
  | '"' => ['\\', '"']
  | '\\' => ['\\', '\\']
  | _ =>
    if spelledOutRanges.has c.toNat then
      ['\\', 'u', '{'] ++ hexText c.toNat ++ ['}']
    else [c]

/-- A text between double quotes. -/
def quoted (t : Text) : Text := '"' :: t.flatMap quotedChar ++ ['"']

/-- A list of texts between brackets, each quoted. -/
def quotedList (ts : List Text) : Text :=
  '[' :: List.intercalate [',', ' '] (ts.map quoted) ++ [']']

end Wcl.Text
