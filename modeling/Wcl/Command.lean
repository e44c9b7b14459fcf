import Wcl.Template.Resolve
import Wcl.Text.Digit

/-!
# Command lines

A section `exec_` with a number describes a command: the program, and in its
section `cmdline` the options.  The command line is laid out in units that stay
together: the program, and each option with its value.  Options whose name is
an underscore with a position are positional: after all others are laid out,
they are put in at their positions, the smallest first.
-/

namespace Wcl

/-- How the names of options begin. -/
inductive HyphenStyle
  | single
  | double
  /-- One hyphen before a single letter, two before a longer name. -/
  | mixed
  deriving DecidableEq, Repr

namespace HyphenStyle

/-- The hyphens before the name of an option. -/
def hyphens (style : HyphenStyle) (option : Text) : Text :=
  match style with
  | .single => ['-']
  | .double => ['-', '-']
  | .mixed => if option.length = 1 then ['-'] else ['-', '-']

/-- The style of a name. -/
def named (name : Text) : Except Error HyphenStyle :=
  if name = "allsingle".toList then .ok .single
  else if name = "alldouble".toList then .ok .double
  else if name = "mixed_gnu".toList then .ok .mixed
  else .error (.badFormat "allsingle|alldouble|mixed_gnu".toList name)

end HyphenStyle

/-- The words of a command, and the section that describes it. -/
structure CommandLine where
  exec : Text
  words : List Text
  deriving DecidableEq, Repr

namespace CommandLine

/-- The first word. -/
def program (c : CommandLine) : Text := c.words.headD []

/-- The words behind the first. -/
def arguments (c : CommandLine) : List Text := c.words.tail

/-- The words on one line. -/
def line (c : CommandLine) : Text := List.intercalate [' '] c.words

end CommandLine

/-- The units of options, and the positional values with their positions, each
in the order of the document. -/
structure Layout where
  units : List (List Text) := []
  positionals : List (Nat × Text) := []
  deriving DecidableEq, Repr

/-- Puts a unit of one word in at a position, or at the end if that comes first. -/
def putAt (units : List (List Text)) (positional : Nat × Text) : List (List Text) :=
  units.insertIdx (min positional.1 units.length) [positional.2]

/-- The words of a layout behind a program. -/
def Layout.words (layout : Layout) (program : Text) : List Text :=
  ((layout.positionals.mergeSort fun a b => a.1 ≤ b.1).foldl putAt
    ([program] :: layout.units)).flatten

/-- The value of an option that has none on the command line. -/
def flagValue : Text := "_flag".toList

/-- The position that the name of a positional option gives. -/
def position? (key : Text) : Option Nat :=
  match key with
  | '_' :: digits => Text.readDigits? digits
  | _ => none

/-- Whether a key names the section of a command. -/
def isExecKey (key : Text) : Bool :=
  match Text.afterStart? "exec_".toList key with
  | some digits => !digits.isEmpty && digits.all Text.isDecimalDigit
  | none => false

/-- The sections of commands, in order. -/
def Document.execSections (d : Document) : List (Text × Document) :=
  d.toList.filterMap fun (key, value) =>
    if isExecKey key then value.section?.map (key, ·) else none

namespace Context

/-- The layout of the entries of a `cmdline` section. -/
def layout (c : Context) (exec : Text) (style : HyphenStyle) :
    List (Text × Value) → Traced Layout
  | [] => pure {}
  | (key, .nested _) :: _ => .fail (.notScalar (exec ++ ".cmdline.".toList ++ key))
  | (key, .scalar raw) :: entries => do
    let value ← c.resolveSingle raw
    if key.head? = some '_' then
      match position? key with
      | none => .fail (.badFormat "_<position>".toList key)
      | some position =>
        let rest ← c.layout exec style entries
        return { rest with positionals := (position, value) :: rest.positionals }
    else
      let rest ← c.layout exec style entries
      let option := style.hyphens key ++ key
      return { rest with
        units := (if value = flagValue then [option] else [option, value]) :: rest.units }

/-- The layout that a command's section gives. -/
def execLayout (c : Context) (exec : Text) (command : Document) : Traced Layout :=
  match command.section? "cmdline".toList with
  | none => pure {}
  | some cmdline =>
    match command.text? "cmd_hyphen".toList with
    | none => c.layout exec .single cmdline.toList
    | some name => do c.layout exec (← .ofExcept (HyphenStyle.named name)) cmdline.toList

/-- The command line of a section. -/
def commandLine (c : Context) (exec : Text) : Traced CommandLine :=
  match c.document.section? exec with
  | none => .fail (.missingKey exec)
  | some command =>
    match command.text? "execname".toList with
    | none => .fail (.missingKey (exec ++ ".execname".toList))
    | some name => do
      let program ← c.resolveSingle name
      let layout ← c.execLayout exec command
      let result : CommandLine := ⟨exec, layout.words program⟩
      .debug (exec ++ " command line: ".toList ++ result.line)
      return result

end Context

end Wcl
