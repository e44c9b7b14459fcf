import Wcl.Template.Context
import Wcl.Template.Token
import Wcl.Template.Values

/-!
# Loops

Expanding a text with loop tokens gives one text for each combination of their
values.  The work stands on a stack: the first loop token of the text on top is
given each of its values, texts that have no loop left are finished, and the
others go onto the stack in order, so that the last of them is next.

Every text taken from the stack and every text made costs one unit of a budget;
expanding ends because the budget does.
-/

namespace Wcl

/-- What one loop expansion may cost. -/
def loopBudget : Nat := 1000

namespace Context

/-- The error of a value that cannot be padded to a width.  If both are numbers it
is the width that is out of range. -/
def unpaddable (value width : Text) : Error :=
  match Text.readCount? (Text.trim width), Text.readInt? (Text.trim value) with
  | some w, some _ => .tooWide w
  | _, _ => .badFormat ("%0".toList ++ width ++ ['d']) value

/-- Gives a loop token one of its values. -/
def assign (item : Combination) (token : Token) (value : Text) : Except Error Combination :=
  let name := Token.nameIn token.body
  let put (shown : Text) : Combination :=
    ⟨Text.replaceAll token.spelling shown item.text, item.bindings.insert name value⟩
  match Token.widthIn? token.body with
  | none => .ok (put value)
  | some width =>
    match Text.zeroPad? value width with
    | some shown => .ok (put shown)
    | none => .error (unpaddable value width)

/-- The values of a loop token's variable, no more than `limit`. -/
def loopValues (c : Context) (template : Text) (limit : Nat) (token : Token) :
    Except Error (List Text) :=
  let name := Token.nameIn token.body
  match c.document.find? c.scope name with
  | none => .error (.missingKey (Text.lowerCase name))
  | some (.nested _) => .error (.notScalar name)
  | some (.scalar value) =>
    match Text.splitWithin limit ',' value with
    | none => .error (.endless template)
    | some values => .ok values

/-- Expands the texts on a stack within a budget; the finished texts in order. -/
def expandStack (c : Context) (template : Text) (budget : Nat) (stack : List Combination) :
    Except Error (List Combination) :=
  match stack, budget with
  | [], _ => .ok []
  | _ :: _, 0 => .error (.endless template)
  | item :: stack, budget + 1 =>
    match Token.first? loopKind item.text with
    | none => do
      let others ← c.expandStack template budget stack
      return item :: others
    | some token => do
      let values ← c.loopValues template budget token
      let items ← values.mapM (assign item token)
      let unfinished := items.filter (hasLoops ·.text)
      let others ← c.expandStack template (budget - values.length) (unfinished.reverse ++ stack)
      return items.filter (!hasLoops ·.text) ++ others
termination_by budget

/-- Every combination of the values of the loops in a text. -/
def expandLoops (c : Context) (item : Combination) : Except Error (List Combination) :=
  c.expandStack item.text loopBudget [item]

end Context

end Wcl
