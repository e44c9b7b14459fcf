import Wcl.Document.Update
import Wcl.Host
import Wcl.Markup.Sections
import Wcl.Markup.Statement
import Wcl.Template.Resolve

/-!
# Reading markup

A reader goes through the logical lines of a source and builds a document.  An
included file is read into a document of its own, which is merged into the
whole, not into the section where the include stands; so is what an include
function returns.  Lines that are no statement are passed over with a warning.

Files may include one another up to `maxIncludeDepth` files deep; the recursion
is on the depth that is left, so reading ends whatever the files say.
-/

namespace Wcl

/-- How many includes may lead to a file. -/
def maxIncludeDepth : Nat := 32

/-- What a reader works with. -/
structure Reader where
  host : Host := .bare
  registry : Option Registry := none

namespace Reader

/-- What the templates in directives are resolved with. -/
def context (r : Reader) (root : Document) : Context := { document := root, registry := r.registry }

/-- The values of the keys that a call names. -/
def arguments (r : Reader) (root : Document) : List Text → Bindings → Traced Bindings
  | [], bindings => pure bindings
  | key :: keys, bindings => do
    match ← (r.context root).getFull false key with
    | none => .fail (.missingKey key)
    | some value => r.arguments root keys (bindings.insert key value)

/-- What a call of an include function returns. -/
def callInclude (r : Reader) (root : Document) (name : Text) (keys : List Text) :
    Traced Document :=
  match r.registry with
  | none => .fail (.unknownFunction name)
  | some registry => do
    let result ← registry.callInclude name (← r.arguments root keys [])
    .debug ("inclfunc ".toList ++ name ++ " returned ".toList ++ Text.natText result.size
      ++ " entries".toList)
    return result

/-- Opens a file, `depth` includes deep, whose keys may keep their case from the
start. -/
def openFile (r : Reader) (depth : Nat) (keepsCase : Bool) (path : Text) : Traced Source := do
  .note (.opened depth keepsCase path)
  .ofExcept ((r.host.read path).mapError (.badFile path))

/-- The path of the file that a directive in line `number` of `source` names. -/
def includePath (r : Reader) (source : Text) (number : Nat) (root : Document) (raw : Text) :
    Traced Text := do
  let resolved ← (r.context root).resolveSingle raw
  .note (.expanding resolved)
  let path := r.host.environment.expandPath resolved
  .debug ("Including ".toList ++ path ++ " (line ".toList ++ Text.natText number ++ " of ".toList
    ++ source ++ [')'])
  return path

/-- What one statement does.  `load` gives the document of an included file. -/
def step (r : Reader) (load : (number : Nat) → Sections → (path : Text) → Traced Document)
    (source : Text) (number : Nat) (statement : Statement) (s : Sections) : Traced Sections :=
  let checked {α : Type} (result : Except MarkupFault α) : Traced α :=
    .ofExcept (result.mapError (.markup source number))
  match statement with
  | .blank => pure s
  | .includeFile path => return { s with root := s.root.update (← load number s path) }
  | .includeCall name keys => return { s with root := s.root.update (← r.callInclude s.root name keys) }
  | .badDirective line => checked (.error (.unknownDirective line))
  | .closing tag => checked (s.closed tag)
  | .opening tag label => checked (s.opened tag label)
  | .assignment key value => pure (s.assign key value)
  | .other line => do
    .note (.message .warning ("Ignoring line #".toList ++ Text.natText number ++ " of ".toList
      ++ source ++ " (did not match patterns): ".toList ++ line))
    return s

/-- Goes through logical lines; `last` is the number of the line before. -/
def readLines (r : Reader) (load : (number : Nat) → Sections → (path : Text) → Traced Document)
    (source : Text) : (last : Nat) → List LogicalLine → Sections → Traced Document
  | last, [], s => .ofExcept (s.finished.mapError (.markup source last))
  | _, (_, none) :: _, _ => .fail (.badFile source .undecodable)
  | _, (number, some line) :: lines, s => do
    let s ← r.step load source number (Statement.ofLine line) s
    r.readLines load source number lines s

/-- Reads a source in which includes may go `depth` files deep. -/
def readSource (r : Reader) : (depth : Nat) → (source : Text) → (keepsCase : Bool) → Source →
    Traced Document
  | 0, source, keepsCase, lines =>
    r.readLines
      (fun number _ path => .fail (.markup source number (.tooDeep maxIncludeDepth path)))
      source 0 lines.logicalLines { keepsCase }
  | depth + 1, source, keepsCase, lines =>
    r.readLines
      (fun number s raw => do
        let path ← r.includePath source number s.root raw
        let file ← r.openFile (maxIncludeDepth - depth) s.keepsCase path
        r.readSource depth path s.keepsCase file)
      source 0 lines.logicalLines { keepsCase }

/-- Reads a source under a name. -/
def parse (r : Reader) (source : Text) (lines : Source) : Traced Document :=
  r.readSource maxIncludeDepth source false lines

/-- Reads a text, which goes by the name of standard input. -/
def parseText (r : Reader) (text : Text) : Traced Document :=
  r.parse "stdin".toList (.ofText text)

/-- Reads a file. -/
def parseFile (r : Reader) (path : Text) : Traced Document := do
  let file ← r.openFile 0 false path
  r.parse path file

/-- Reads a file, and says so. -/
def load (r : Reader) (path : Text) : Traced Document := do
  .note (.message .info ("Loading WCL from: ".toList ++ path))
  let d ← r.parseFile path
  .debug ("Parsed ".toList ++ Text.natText d.size ++ " top-level entries".toList)
  return d

end Reader

end Wcl
