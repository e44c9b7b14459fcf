import Wcl.Template.Loop

/-!
# Resolving templates

Substitution works on the text of a template.  One form at a time, the leftmost
token is looked up and every token of the same spelling is replaced; this goes
on until no token of the form is left.  Headers, optional and required
variables take turns until nothing changes, then functions do.  The loop tokens
that are left are expanded.

A value may hold tokens in turn, so a cycle of variables never ends by itself:
the number of turns and the number of tokens in each are bounded.  A variable
with a width needs its value as a number, so the value is resolved by itself
first.  The variables whose values are being resolved are remembered, and none
is begun twice; `Context.depthBound` is more than there can be.
-/

namespace Wcl

/-- The number of turns, and of tokens of a form in one turn. -/
def turnLimit : Nat := 100

/-- What stands in a token's place, and the name and value that are remembered. -/
structure Replacement where
  text : Text
  binding : Option (Text × Text) := none

namespace Combination

/-- Replaces a token everywhere. -/
def substitute (item : Combination) (token : Token) (new : Replacement) : Combination where
  text := Text.replaceAll token.spelling new.text item.text
  bindings := match new.binding with
    | some (name, value) => item.bindings.insert name value
    | none => item.bindings

end Combination

namespace Context

/-- The header values that a body asks for. -/
def header (c : Context) (body : Text) : Except Error Text :=
  match c.registry with
  | none => .error (.noHeaderReader body)
  | some r =>
    match Text.commaPieces body with
    | [] => .error (.noHeaderReader body)
    | file :: keys => (r.readHeaders file keys).map (List.intercalate [','])

/-- The result of the function that a body calls. -/
def function (c : Context) (body : Text) : Traced Text :=
  match Text.commaPieces body with
  | [] => .fail (.unknownFunction body)
  | name :: args =>
    match c.registry with
    | none => .fail (.unknownFunction name)
    | some r => r.call name args

/-- What a variable is replaced with, if it is found.  `inner` resolves the
value of a variable by itself. -/
def variableValue? (c : Context) (inner : (name value : Text) → Traced Text) (body : Text) :
    Traced (Option Replacement) :=
  let name := Token.nameIn body
  match c.document.find? c.scope name with
  | none => pure none
  | some (.nested _) => .fail (.notScalar name)
  | some (.scalar value) =>
    if Text.isMultiValued value then
      pure (some { text := if c.expand then loopToken body else value })
    else match Token.widthIn? body with
      | none => pure (some { text := value, binding := some (name, value) })
      | some width => do
        let number ← inner name value
        match Text.zeroPad? number width with
        | some padded => pure (some { text := padded, binding := some (name, number) })
        | none => .fail (unpaddable number width)

/-- What a token is replaced with, if its variable is found. -/
def replacement? (c : Context) (inner : (name value : Text) → Traced Text) (form : Form)
    (body : Text) : Traced (Option Replacement) :=
  match form with
  | .header => return some { text := ← .ofExcept (c.header body) }
  | .function => return some { text := ← c.function body }
  | .optional => c.variableValue? inner body
  | .required => c.variableValue? inner body

/-- Replaces the tokens of one form, at most `limit` of them, and says whether
a value was found for one. -/
def substitute (c : Context) (inner : (name value : Text) → Traced Text) (template : Text)
    (form : Form) (limit : Nat) (item : Combination) : Traced (Combination × Bool) :=
  match Token.first? form.kind item.text, limit with
  | none, _ => pure (item, false)
  | some _, 0 => .fail (.endless template)
  | some token, limit + 1 => do
    match ← c.replacement? inner form token.body with
    | some new =>
      let (item, _) ← c.substitute inner template form limit (item.substitute token new)
      return (item, true)
    | none =>
      if form = .required then .fail (.missingKey (Token.nameIn token.body))
      else c.substitute inner template form limit (item.substitute token { text := [] })

/-- One turn of substitution for each form. -/
def turn (c : Context) (inner : (name value : Text) → Traced Text) (template : Text) :
    List Form → Combination → Traced (Combination × Bool)
  | [], item => pure (item, false)
  | form :: forms, item => do
    let (item, changed) ← c.substitute inner template form turnLimit item
    let (item, changedLater) ← c.turn inner template forms item
    return (item, changed || changedLater)

/-- Turns of substitution until nothing changes, at most `limit`. -/
def untilStable (c : Context) (inner : (name value : Text) → Traced Text) (template : Text)
    (forms : List Form) : Nat → Combination → Traced Combination
  | 0, _ => .fail (.endless template)
  | limit + 1, item => do
    let (item, changed) ← c.turn inner template forms item
    if changed then c.untilStable inner template forms limit item else return item

/-- The text that substitution makes of a template. -/
def substituteAll (c : Context) (inner : (name value : Text) → Traced Text) (template : Text) :
    Traced Combination := do
  let item ← c.untilStable inner template [.header, .optional, .required] turnLimit ⟨template, []⟩
  c.untilStable inner template [.function] turnLimit item

/-- Resolves a template, `inner` the values of variables with a width. -/
def resolveWith (c : Context) (inner : (name value : Text) → Traced Text) (template : Text) :
    Traced Resolved := do
  .debug ("Resolving '".toList ++ template ++ "'".toList)
  let item ← c.substituteAll inner template
  if hasLoops item.text then
    let items ← .ofExcept (c.expandLoops item)
    if items.isEmpty then
      .debug ("'".toList ++ template
        ++ "' has a loop variable without values, leaving it unexpanded".toList)
      return .single item
    else
      .debug ("Expanded '".toList ++ template ++ "' into ".toList ++ Text.natText items.length
        ++ " combinations".toList)
      return .expanded items
  else return .single item

/-- Resolves a template while the values of the variables `active` are being
resolved, `depth` of them at most. -/
def resolveIn (c : Context) : (depth : Nat) → (active : List Text) → Text → Traced Resolved
  | 0, _, template => .fail (.endless template)
  | depth + 1, active, template =>
    c.resolveWith
      (fun name value =>
        if name ∈ active then .fail (.endless template)
        else .between (.entered name) (.left name) do
          let resolved ← c.resolveIn depth (name :: active) value
          .ofExcept (resolved.only value))
      template

/-- Resolves a template. -/
def resolve (c : Context) (template : Text) : Traced Resolved :=
  c.resolveIn c.depthBound [] template

/-- Resolves a template that stands for one text. -/
def resolveSingle (c : Context) (template : Text) : Traced Text := do
  let resolved ← c.resolve template
  .ofExcept (resolved.only template)

/-- The resolved value of a key. -/
def getFull (c : Context) (required : Bool) (key : Text) : Traced (Option Text) := do
  match ← .ofExcept (c.document.search c.scope required key) with
  | none => return none
  | some (.nested _) => .fail (.notScalar key)
  | some (.scalar value) => return some (← c.resolveSingle value)

end Context

end Wcl
