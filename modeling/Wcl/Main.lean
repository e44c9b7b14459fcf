import Wcl.Cli.Run

/-!
# The command

The outer layer: it gives the program its arguments, files and environment, and
prints what the program leaves behind.  The program is a function of what it
asks for, so it is run again with each answer until it has asked for nothing
new.
-/

namespace Wcl.Main

/-- The answers that have been fetched. -/
structure Known where
  files : List (Text × Except FileFault Source) := []
  environment : List (Text × Option Text) := []

/-- Something that the program has asked for. -/
inductive Question
  | file (path : Text)
  | variableValue (name : Text)

/-- The host that gives the answers. -/
def Known.host (k : Known) : Host where
  read path := (k.files.lookup path).getD (.error .notFound)
  environment name := (k.environment.lookup name).getD none

/-- The first question of an event that has no answer. -/
def Known.question? (k : Known) : Event → Option Question
  | .opened _ _ path => if (k.files.lookup path).isSome then none else some (.file path)
  | .expanding path =>
    ((k.host.environment.namesIn path).find? fun n => (k.environment.lookup n).isNone).map
      .variableValue
  | _ => none

/-- What the system has to say about a file that cannot be read. -/
def faultOf (e : IO.Error) : FileFault :=
  match e with
  | .noFileOrDirectory .. => .notFound
  | .inappropriateType _ code _ => if code = 21 then .isDirectory else .notDirectory
  | e => .other e.toString.toList

/-- Reads a file. -/
def readFile (path : Text) : IO (Except FileFault Source) := do
  try return .ok (.ofBytes (← IO.FS.readBinFile (String.ofList path)).toList)
  catch e => return .error (faultOf e)

/-- Fetches an answer. -/
def Known.fetch (k : Known) : Question → IO Known
  | .file path => return { k with files := (path, ← readFile path) :: k.files }
  | .variableValue name =>
    return { k with
      environment := (name, (← IO.getEnv (String.ofList name)).map String.toList) :: k.environment }

/-- Runs the program until every question has its answer. -/
partial def settle (args : List Text) (stdin : Source) (k : Known) : IO Cli.Outcome := do
  let outcome := Cli.run k.host stdin args
  match outcome.log.findSome? k.question? with
  | none => return outcome
  | some question => settle args stdin (← k.fetch question)

/-- The lines of standard input, if the program reads them. -/
def standardInput (args : List Text) : IO Source := do
  match Cli.Options.parse {} args with
  | .ok (.run { path := none, .. }) =>
    return .ofBytes (← (← IO.getStdin).readBinToEnd).toList
  | _ => return []

end Wcl.Main

/-- The program. -/
def main (arguments : List String) : IO UInt32 := do
  let args := arguments.map String.toList
  let outcome ← Wcl.Main.settle args (← Wcl.Main.standardInput args) {}
  IO.print (String.ofList outcome.stdout)
  IO.eprint (String.ofList outcome.stderr)
  return outcome.code.toUInt32
