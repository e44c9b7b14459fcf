import Wcl.Text.Basic

/-!
# Tokens of a template

A token is a dollar sign, perhaps a word in any letter case, and a body between
braces.  `Token.at?` reads a token at the start of a text, `Token.first?` finds
the leftmost one.  The body of a token is never empty; which characters it may
have besides differs: the four forms of substitution allow no dollar sign and
so find the innermost token, a loop token reaches to the next closing brace.
-/

namespace Wcl

/-- A token as it is spelled, and what stands between its braces. -/
structure Token where
  spelling : Text
  body : Text
  deriving DecidableEq, Repr

/-- What a kind of token begins with, and the characters of its body. -/
structure TokenKind where
  opener : Text
  inBody : Char → Bool

namespace Token

/-- What follows `opener` in a text that begins with it, the case of ASCII
letters aside. -/
def afterOpener? : (opener t : Text) → Option Text
  | [], t => some t
  | _ :: _, [] => none
  | o :: os, c :: r => if c.toLower = o.toLower then afterOpener? os r else none

/-- The token at the start of a text. -/
def at? (kind : TokenKind) (t : Text) : Option Token :=
  match afterOpener? kind.opener t with
  | none => none
  | some r =>
    let body := r.takeWhile kind.inBody
    match body, r.dropWhile kind.inBody with
    | _ :: _, '}' :: _ => some ⟨t.take kind.opener.length ++ body ++ ['}'], body⟩
    | _, _ => none

/-- The leftmost token of a text. -/
def first? (kind : TokenKind) : Text → Option Token
  | [] => none
  | c :: r => (at? kind (c :: r)).or (first? kind r)

/-- All tokens of a text from left to right, none inside another; the first
`skip` characters belong to a token that has been found. -/
def allFrom (kind : TokenKind) : Nat → Text → List Token
  | _, [] => []
  | skip + 1, _ :: r => allFrom kind skip r
  | 0, c :: r =>
    match at? kind (c :: r) with
    | some token => token :: allFrom kind (token.spelling.length - 1) r
    | none => allFrom kind 0 r

/-- All tokens of a text from left to right, none inside another. -/
def all (kind : TokenKind) (t : Text) : List Token := allFrom kind 0 t

/-- The name in a body: what comes before the first colon. -/
def nameIn (body : Text) : Text := (Text.cutAt ':' body).1

/-- The width in a body: what comes behind the first colon. -/
def widthIn? (body : Text) : Option Text := (Text.cutAt ':' body).2

end Token

/-- The forms of substitution. -/
inductive Form
  /-- Header values: `$HEAD` with a file and keys. -/
  | header
  /-- A variable that may be missing: `$opt`. -/
  | optional
  /-- A variable that must be there: the dollar sign alone. -/
  | required
  /-- The result of a function: `$FUNC` with a name and arguments. -/
  | function
  deriving DecidableEq, Repr

/-- What the tokens of a form begin with. -/
def Form.opener : Form → Text
  | .header => "$HEAD\x7b".toList
  | .optional => "$opt\x7b".toList
  | .required => "$\x7b".toList
  | .function => "$FUNC\x7b".toList

/-- The tokens of a form. -/
def Form.kind (f : Form) : TokenKind := ⟨f.opener, fun c => c != '$' && c != '}'⟩

/-- What a loop token begins with. -/
def loopOpener : Text := "$LOOP\x7b".toList

/-- The tokens of loops. -/
def loopKind : TokenKind := ⟨loopOpener, (· != '}')⟩

/-- The loop token of a variable. -/
def loopToken (body : Text) : Text := loopOpener ++ body ++ ['}']

/-- Whether a text has a loop token. -/
def hasLoops (t : Text) : Bool := (Token.first? loopKind t).isSome

end Wcl
