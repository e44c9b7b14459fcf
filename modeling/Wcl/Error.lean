import Wcl.Text.Decimal

/-!
# Errors

The ways in which reading, looking up, resolving and writing can fail, and one
message for each.  A malformed section structure is told apart by what is wrong
with it (`MarkupFault`), an unreadable file by what the system found
(`FileFault`).  All of them are reported but one, `Error.tooWide`, where the
program breaks off.
-/

namespace Wcl

/-- Why a file cannot be read or written. -/
inductive FileFault
  | notFound
  | isDirectory
  | notDirectory
  | undecodable
  /-- Anything else, in the system's words. -/
  | other (message : Text)
  deriving DecidableEq, Repr

/-- The system's words for a fault. -/
def FileFault.message : FileFault → Text
  | .notFound => "No such file or directory (os error 2)".toList
  | .isDirectory => "Is a directory (os error 21)".toList
  | .notDirectory => "Not a directory (os error 20)".toList
  | .undecodable => "stream did not contain valid UTF-8".toList
  | .other message => message

/-- What is wrong with the section structure or a directive. -/
inductive MarkupFault
  /-- A line begins like a directive and is none. -/
  | unknownDirective (line : Text)
  /-- A section opens directly inside a section of its name. -/
  | sameNameChild (key : Text)
  /-- A section closes and none is open. -/
  | nothingOpen (key : Text)
  /-- A section closes and another one should have. -/
  | wrongClose (key expected : Text)
  /-- Sections are still open at the end, the outermost first. -/
  | unclosed (keys : List Text)
  /-- An include stands in a file that is as deep as files may be. -/
  | tooDeep (limit : Nat) (path : Text)
  deriving DecidableEq, Repr

/-- The wording of a fault. -/
def MarkupFault.message : MarkupFault → Text
  | .unknownDirective line => "Unparseable directive: ".toList ++ line
  | .sameNameChild key =>
    "found child section with same name (".toList ++ key ++ ")".toList
  | .nothingOpen key =>
    "Invalid or missing section close. Got close for ".toList ++ key
      ++ " with no open section.".toList
  | .wrongClose key expected =>
    "Invalid or missing section close. Got close for ".toList ++ key
      ++ ". Expecting close for ".toList ++ expected ++ ".".toList
  | .unclosed keys =>
    "Error parsing WCL. Check that all sections have closing line. Unclosed: ".toList
      ++ List.intercalate ", ".toList keys
  | .tooDeep limit path =>
    "Includes nested deeper than ".toList ++ Text.natText limit ++ " files at ".toList ++ path

/-- Why an operation fails. -/
inductive Error
  /-- A line of a file is malformed. -/
  | markup (file : Text) (line : Nat) (fault : MarkupFault)
  /-- A key that is needed is not found. -/
  | missingKey (key : Text)
  /-- A dotted path goes through something that is not a section. -/
  | noSection (segment : Text)
  /-- A value does not have the form that is asked for. -/
  | badFormat (pattern value : Text)
  /-- A number is asked for in so many characters that none can be written.  The
  program does not go on, not even to report it. -/
  | tooWide (width : Nat)
  /-- Resolving a text does not come to an end within its bounds. -/
  | endless (text : Text)
  /-- A text that should stand for one value stands for several. -/
  | ambiguous (text : Text) (count : Nat)
  /-- A key that should be a scalar names a section. -/
  | notScalar (key : Text)
  /-- No function has this name. -/
  | unknownFunction (name : Text)
  /-- Headers are asked for and nothing can read them. -/
  | noHeaderReader (spec : Text)
  /-- A registered function or the header reader fails. -/
  | extension (name reason : Text)
  /-- A file cannot be read or written. -/
  | badFile (path : Text) (fault : FileFault)
  deriving DecidableEq, Repr

/-- The wording of an error. -/
def Error.message : Error → Text
  | .markup file line fault =>
    "File ".toList ++ file ++ " Line ".toList ++ Text.natText line ++ " - Error: ".toList
      ++ fault.message
  | .missingKey key => "Could not find value for ".toList ++ key
  | .noSection segment => "Key path segment '".toList ++ segment ++ "' does not exist".toList
  | .badFormat pattern value =>
    "Cannot format '".toList ++ value ++ "' with pattern '".toList ++ pattern ++ "'".toList
  | .tooWide _ => "Formatting argument out of range".toList
  | .endless text =>
    "Variable resolution aborting from infinite loop '".toList ++ text ++ "'".toList
  | .ambiguous text count =>
    "Expected a single value for '".toList ++ text ++ "' but expansion produced ".toList
      ++ Text.natText count
  | .notScalar key => "'".toList ++ key ++ "' is a section, not a scalar value".toList
  | .unknownFunction name => "No function registered under '".toList ++ name ++ "'".toList
  | .noHeaderReader spec =>
    "No header reader available to resolve $HEAD\x7b".toList ++ spec ++ "\x7d".toList
  | .extension name reason =>
    "Extension '".toList ++ name ++ "' failed: ".toList ++ reason
  | .badFile path fault => "I/O error on '".toList ++ path ++ "': ".toList ++ fault.message

end Wcl
