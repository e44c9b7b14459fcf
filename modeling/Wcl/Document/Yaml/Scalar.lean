import Wcl.Document.Yaml.Typed

/-!
# YAML scalars

A text is written plain where YAML reads it back as the same string, between
single quotes where only its look is in the way, as a literal block where it
has several lines, and between double quotes, with escapes, where nothing else
can hold it.
-/

namespace Wcl.Yaml

/-- The characters that end a line. -/
def isBreak (c : Char) : Bool :=
  let n := c.toNat
  n == 0x0A || n == 0x0D || n == 0x85 || n == 0x2028 || n == 0x2029

/-- The characters that need no escape for being invisible. -/
def isPrintable (c : Char) : Bool :=
  let n := c.toNat
  n == 0x0A || (0x20 ≤ n && n ≤ 0x7E) || (0xA0 ≤ n && n ≤ 0xFFFD && n != 0xFEFF) || 0x10000 ≤ n

/-- Whether what follows is a blank, a line end or the end. -/
def endsWord : Text → Bool
  | [] => true
  | c :: _ => c == ' ' || c == '\t' || c == '\x00' || isBreak c

/-- The characters that a plain scalar cannot begin with. -/
def indicators : Text := "#,[]\x7b\x7d&*!|>'\"%@`".toList

/-- Whether a text begins with something that is not the start of a plain
scalar. -/
def beginsLikeMarkup (t : Text) : Bool :=
  "---".toList.isPrefixOf t || "...".toList.isPrefixOf t ||
  match t with
  | [] => true
  | c :: r => indicators.contains c || ((c == '?' || c == ':' || c == '-') && endsWord r)

/-- Whether a colon at the end of a word, or a hash at the start of one, stands
behind the first character. -/
def hasMarkupInside : Text → Bool
  | c :: d :: r =>
    (d == ':' && endsWord r) || (d == '#' && endsWord [c]) || hasMarkupInside (d :: r)
  | _ => false

/-- Whether a character of the first class stands directly before one of the
second. -/
def hasPair (p q : Char → Bool) : Text → Bool
  | c :: d :: r => (p c && q d) || hasPair p q (d :: r)
  | _ => false

/-- Whether a text ends with a character of a class. -/
def endsWith (p : Char → Bool) (t : Text) : Bool := t.getLast?.any p

/-- Whether a text begins with a character of a class. -/
def beginsWith (p : Char → Bool) (t : Text) : Bool := t.head?.any p

/-- Whether the character is a space. -/
def isSpace (c : Char) : Bool := c == ' '

/-- Whether a text can be written plain. -/
def plainAllowed (t : Text) : Bool :=
  t.all isPrintable && !t.any isBreak && !beginsWith isSpace t && !endsWith isSpace t
    && !beginsLikeMarkup t && !hasMarkupInside t

/-- Whether a text can stand between single quotes. -/
def singleQuotedAllowed (t : Text) : Bool :=
  t.all isPrintable && !hasPair isSpace isBreak t && !hasPair isBreak isSpace t

/-- Whether a text can be a literal block. -/
def literalAllowed (t : Text) : Bool :=
  t.all isPrintable && !hasPair isSpace isBreak t && !endsWith isSpace t && !t.isEmpty

/-- The ways to write a scalar. -/
inductive Style
  | plain
  | singleQuoted
  | doubleQuoted
  | literal
  deriving DecidableEq, Repr

/-- The way in which a text is written. -/
def Style.of (t : Text) : Style :=
  if t.contains '\n' then
    if literalAllowed t then .literal else .doubleQuoted
  else if !looksTyped t && plainAllowed t then .plain
  else if singleQuotedAllowed t then .singleQuoted
  else .doubleQuoted

/-- So many spaces. -/
def margin (n : Nat) : Text := List.replicate n ' '

/-- A number in base sixteen with capital letters, in so many digits. -/
def hexCapitals (width n : Nat) : Text :=
  let ds := (Nat.toDigits 16 n).map Char.toUpper
  List.replicate (width - ds.length) '0' ++ ds

/-- How a character stands between double quotes. -/
def doubleQuotedChar (c : Char) : Text :=
  if isPrintable c && !isBreak c && c != '"' && c != '\\' then [c]
  else
    let n := c.toNat
    '\\' ::
      if n == 0 then ['0'] else if n == 7 then ['a'] else if n == 8 then ['b']
      else if n == 9 then ['t'] else if n == 10 then ['n'] else if n == 11 then ['v']
      else if n == 12 then ['f'] else if n == 13 then ['r'] else if n == 0x1B then ['e']
      else if c == '"' then ['"'] else if c == '\\' then ['\\']
      else if n == 0x85 then ['N'] else if n == 0x2028 then ['L'] else if n == 0x2029 then ['P']
      else if n ≤ 0xFF then 'x' :: hexCapitals 2 n
      else if n ≤ 0xFFFF then 'u' :: hexCapitals 4 n
      else 'U' :: hexCapitals 8 n

/-- A text whose lines each begin at a margin; `fresh` says whether a line has
just begun.  `put` writes a character that ends no line, `stop` is what comes
at the end. -/
def onMargin (put : Char → Text) (stop : Text) (left : Nat) : Bool → Text → Text
  | fresh, [] => (if fresh then margin left else []) ++ stop
  | fresh, c :: r =>
    if isBreak c then c :: onMargin put stop left true r
    else (if fresh then margin left else []) ++ put c ++ onMargin put stop left false r

/-- How a character stands between single quotes. -/
def singleQuotedChar (c : Char) : Text := if c = '\'' then ['\'', '\''] else [c]

/-- The lines of a literal block, each begun at a margin. -/
def literalLines (left : Nat) : Bool → Text → Text
  | _, [] => []
  | fresh, c :: r =>
    if isBreak c then c :: literalLines left true r
    else (if fresh then margin left else []) ++ c :: literalLines left false r

/-- What the head of a literal block says: the margin, if the text begins with
a space or a line end, and how the text ends. -/
def literalHints (t : Text) : Text :=
  (if beginsWith (fun c => isSpace c || isBreak c) t then ['2'] else [])
    ++ match t.reverse with
      | [] => ['-']
      | c :: r =>
        if !isBreak c then ['-']
        else match r with
          | [] => ['+']
          | d :: _ => if isBreak d then ['+'] else []

/-- A text as a scalar whose further lines begin at a margin. -/
def scalar (left : Nat) (t : Text) : Text :=
  match Style.of t with
  | .plain => t
  | .singleQuoted => '\'' :: onMargin singleQuotedChar ['\''] left false t
  | .doubleQuoted => '"' :: t.flatMap doubleQuotedChar ++ ['"']
  | .literal => '|' :: literalHints t ++ '\n' :: literalLines left true t

/-- A scalar and the end of its line, which a literal block may have already. -/
def scalarLine (left : Nat) (t : Text) : Text :=
  scalar left t ++ if Style.of t = .literal ∧ endsWith isBreak t then [] else ['\n']

end Wcl.Yaml
