import Wcl.Text.Decimal
import Wcl.Text.LowerCase

/-!
# Options of the program

The arguments are read from left to right.  Help and the version are given as
soon as they are asked for; the first argument that is wrong ends the reading.
-/

namespace Wcl.Cli

/-- The form in which a document is printed. -/
inductive Format
  | wcl
  | json
  | yaml
  deriving DecidableEq, Repr

/-- The name of a form. -/
def Format.name : Format → Text
  | .wcl => "wcl".toList
  | .json => "json".toList
  | .yaml => "yaml".toList

/-- What the arguments ask for. -/
structure Options where
  /-- The file to read; standard input if there is none. -/
  path : Option Text := none
  sorted : Bool := false
  indent : Nat := 4
  format : Format := .wcl
  searchOrder : List Text := []
  /-- Keys whose values are printed. -/
  keys : List Text := []
  /-- The section whose command line is printed. -/
  exec : Option Text := none
  listVariables : Bool := false
  verbose : Bool := false
  deriving DecidableEq, Repr

/-- What the program is to do. -/
inductive Request
  | help
  | version
  | run (options : Options)
  deriving DecidableEq, Repr

/-- The form of a name, in any letter case. -/
def Format.named (name : Text) : Except Text Format :=
  let n := Text.lowerCase name
  if n = "wcl".toList then .ok .wcl
  else if n = "json".toList then .ok .json
  else if n = "yaml".toList ∨ n = "yml".toList then .ok .yaml
  else .error ("Invalid format: ".toList ++ n ++ " (expected wcl, json or yaml)".toList)

/-- The arguments that stand alone. -/
inductive Flag
  | help
  | version
  | sorted
  | variables
  | verbose
  deriving DecidableEq, Repr

/-- The arguments that need a value behind them. -/
inductive Setting
  | indent
  | format
  | searchOrder
  | get
  | command
  deriving DecidableEq, Repr

/-- The flags by their spellings. -/
def Flag.spellings : List (Text × Flag) :=
  [("--help".toList, .help), ("-h".toList, .help), ("--version".toList, .version),
    ("-V".toList, .version), ("--sorted".toList, .sorted), ("--vars".toList, .variables),
    ("--verbose".toList, .verbose), ("-v".toList, .verbose)]

/-- The settings by their spellings. -/
def Setting.spellings : List (Text × Setting) :=
  [("--indent".toList, .indent), ("--format".toList, .format),
    ("--search-order".toList, .searchOrder), ("--get".toList, .get),
    ("--command".toList, .command)]

/-- What the value of a setting is called. -/
def Setting.valueName : Setting → Text
  | .indent => "a number argument".toList
  | .format => "a format argument".toList
  | .searchOrder => "a section list".toList
  | .get => "a key argument".toList
  | .command => "an exec number".toList

namespace Options

/-- The options with a setting. -/
def set (o : Options) (setting : Setting) (value : Text) : Except Text Options :=
  match setting with
  | .indent =>
    match Text.readCount? value with
    | some n => .ok { o with indent := n }
    | none => .error ("Invalid indent value: ".toList ++ value)
  | .format => (Format.named value).map fun format => { o with format }
  | .searchOrder =>
    .ok { o with
      searchOrder := ((Text.commaPieces value).map Text.lowerCase).filter (!·.isEmpty) }
  | .get => .ok { o with keys := o.keys ++ [value] }
  | .command =>
    if Text.isDigits value then .ok { o with exec := some ("exec_".toList ++ value) }
    else .error ("Invalid exec number: ".toList ++ value)

/-- The options with a file to read. -/
def withPath (o : Options) (path : Text) : Except Text Options :=
  match o.path with
  | some _ => .error ("Unexpected argument: ".toList ++ path)
  | none => .ok { o with path := some path }

/-- Reads the arguments into options. -/
def parse (o : Options) : List Text → Except Text Request
  | [] => .ok (.run o)
  | arg :: args =>
    match Flag.spellings.lookup arg with
    | some .help => .ok .help
    | some .version => .ok .version
    | some .sorted => parse { o with sorted := true } args
    | some .variables => parse { o with listVariables := true } args
    | some .verbose => parse { o with verbose := true } args
    | none =>
      match Setting.spellings.lookup arg, args with
      | some setting, [] => .error (arg ++ " requires ".toList ++ setting.valueName)
      | some setting, value :: args =>
        match o.set setting value with
        | .error message => .error message
        | .ok o => parse o args
      | none, args =>
        if arg.head? = some '-' then .error ("Unknown option: ".toList ++ arg)
        else match o.withPath arg with
          | .error message => .error message
          | .ok o => parse o args

end Options

end Wcl.Cli
