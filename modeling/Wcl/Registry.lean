import Wcl.Bindings
import Wcl.Document.Basic
import Wcl.Text.Quoted
import Wcl.Traced

/-!
# The registry

Functions that templates and include directives can call by name, and the
reader of file headers.  Every one of them may fail with a reason of its own.
-/

namespace Wcl

/-- A function from texts to a text. -/
abbrev TextFunction := List Text → Except Text Text

/-- A function from named arguments to a document. -/
abbrev IncludeFunction := Bindings → Except Text Document

/-- Reads a key from the header of a file. -/
abbrev HeaderReader := (file key : Text) → Except Text Text

/-- Named functions, each name once and in order, and a header reader. -/
structure Registry where
  functions : List (Text × TextFunction) := []
  includeFunctions : List (Text × IncludeFunction) := []
  headerReader : Option HeaderReader := none

namespace Registry

/-- Enters an item under a name, in place of one that is there. -/
def enter {α : Type} (name : Text) (item : α) : List (Text × α) → List (Text × α)
  | [] => [(name, item)]
  | (n, i) :: rest =>
    if n = name then (name, item) :: rest
    else if Text.atMost name n then (name, item) :: (n, i) :: rest
    else (n, i) :: enter name item rest

/-- The item under a name. -/
def named? {α : Type} (name : Text) (items : List (Text × α)) : Option α :=
  (items.find? fun p => p.1 = name).map Prod.snd

/-- Registers a function for templates. -/
def addFunction (r : Registry) (name : Text) (f : TextFunction) : Registry :=
  { r with functions := enter name f r.functions }

/-- Registers a function for include directives. -/
def addIncludeFunction (r : Registry) (name : Text) (f : IncludeFunction) : Registry :=
  { r with includeFunctions := enter name f r.includeFunctions }

/-- Sets the header reader. -/
def withHeaderReader (r : Registry) (reader : HeaderReader) : Registry :=
  { r with headerReader := some reader }

/-- Whether a function for templates has this name. -/
def hasFunction (r : Registry) (name : Text) : Bool := (named? name r.functions).isSome

/-- Whether a function for include directives has this name. -/
def hasIncludeFunction (r : Registry) (name : Text) : Bool :=
  (named? name r.includeFunctions).isSome

/-- The answer of a registered collaborator, its failure under its name. -/
def answer {α : Type} (name : Text) (result : Except Text α) : Except Error α :=
  result.mapError (.extension name)

/-- Calls a function for templates. -/
def call (r : Registry) (name : Text) (args : List Text) : Traced Text :=
  match named? name r.functions with
  | none => .fail (.unknownFunction name)
  | some f => do
    .debug ("Calling function ".toList ++ name ++ ['('] ++ Text.quotedList args ++ [')'])
    .ofExcept (answer name (f args))

/-- Calls a function for include directives. -/
def callInclude (r : Registry) (name : Text) (args : Bindings) : Traced Document :=
  match named? name r.includeFunctions with
  | none => .fail (.unknownFunction name)
  | some f => do
    .debug ("Calling include function ".toList ++ name ++ " with ".toList
      ++ Text.natText args.length ++ " arguments".toList)
    .ofExcept (answer name (f args))

/-- Reads keys from the header of a file, up to the first that fails. -/
def readHeaders (r : Registry) (file : Text) (keys : List Text) : Except Error (List Text) :=
  match r.headerReader with
  | none => .error (.noHeaderReader (List.intercalate [','] (file :: keys)))
  | some reader => keys.mapM fun key =>
    answer ("header ".toList ++ file ++ '[' :: key ++ [']']) (reader file key)

/-- The registered names and whether there is a header reader. -/
def describe (r : Registry) : Text :=
  "Registry \x7b functions: ".toList ++ Text.quotedList (r.functions.map Prod.fst)
    ++ ", include_functions: ".toList ++ Text.quotedList (r.includeFunctions.map Prod.fst)
    ++ ", header_reader: ".toList
    ++ (if r.headerReader.isSome then "true".toList else "false".toList) ++ " \x7d".toList

end Registry

end Wcl
