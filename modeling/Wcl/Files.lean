import Wcl.Document.Writer
import Wcl.Host

/-!
# Files

A file system is a list of files, each with its path from the root, and a
working directory.  The directories are the working directory, what is around
it and what is around a file.  A path is walked segment by segment: only a
directory has something inside, and two dots lead back.

A document is saved by writing its markup to a file, which is replaced if it is
there; its directory has to be.
-/

namespace Wcl

/-- Files by their paths from the root, and the working directory. -/
structure FileSystem where
  files : List (List Text × Text) := []
  workingDirectory : List Text := ["work".toList]
  deriving Repr

namespace FileSystem

/-- The segments of a path. -/
def segments (path : Text) : List Text := path.splitOn '/'

/-- Whether a segment stays where it is. -/
def stays (segment : Text) : Bool := segment.isEmpty || segment = ['.']

/-- Where a path leads. -/
inductive Place
  | directory (path : List Text)
  | file (content : Text)
  /-- Nothing is there, but the directory around it is. -/
  | free (path : List Text)
  deriving Repr

/-- The content of the file at a path from the root. -/
def content? (fs : FileSystem) (path : List Text) : Option Text :=
  (fs.files.find? (·.1 = path)).map Prod.snd

/-- Whether there is a directory at a path from the root. -/
def isDirectory (fs : FileSystem) (path : List Text) : Bool :=
  path.isPrefixOf fs.workingDirectory
    || fs.files.any fun f => path.isPrefixOf f.1 && path.length < f.1.length

/-- What is at a path from the root whose directory is there. -/
def placeAt (fs : FileSystem) (path : List Text) : Place :=
  if fs.isDirectory path then .directory path
  else match fs.content? path with
    | some content => .file content
    | none => .free path

/-- Walks segments from a place. -/
def walk (fs : FileSystem) : Place → List Text → Except FileFault Place
  | place, [] => .ok place
  | .directory path, s :: segments =>
    if stays s then fs.walk (.directory path) segments
    else if s = ['.', '.'] then fs.walk (.directory path.dropLast) segments
    else fs.walk (fs.placeAt (path ++ [s])) segments
  | .file _, _ :: _ => .error .notDirectory
  | .free _, _ :: _ => .error .notFound

/-- The directory that a path is walked from. -/
def start (fs : FileSystem) (path : Text) : Place :=
  .directory (if path.head? = some '/' then [] else fs.workingDirectory)

/-- The content of the file at a path. -/
def read (fs : FileSystem) (path : Text) : Except FileFault Text :=
  if path.isEmpty then .error .notFound
  else match fs.walk (fs.start path) (segments path) with
    | .error fault => .error fault
    | .ok (.directory _) => .error .isDirectory
    | .ok (.free _) => .error .notFound
    | .ok (.file content) => .ok content

/-- Puts a file at a path from the root, in place of one that is there. -/
def put (fs : FileSystem) (path : List Text) (content : Text) : FileSystem :=
  { fs with files := (path, content) :: fs.files.filter (·.1 ≠ path) }

/-- Writes a file at a path.  A path that ends like that of a directory is not
one of a file. -/
def write (fs : FileSystem) (path content : Text) : Except FileFault FileSystem :=
  let bare := (path.reverse.dropWhile (· = '/')).reverse
  let parts := segments bare
  if path.isEmpty then .error .notFound
  else match fs.walk (fs.start path) parts.dropLast with
    | .error fault => .error fault
    | .ok (.file _) => .error .notDirectory
    | .ok (.free _) => .error .notFound
    | .ok (.directory around) =>
      let name := parts.getLastD []
      if stays name || name = ['.', '.'] || bare.length < path.length then .error .isDirectory
      else match fs.placeAt (around ++ [name]) with
        | .directory _ => .error .isDirectory
        | _ => .ok (fs.put (around ++ [name]) content)

/-- The file system with files at paths from the working directory. -/
def ofList (files : List (Text × Text)) : FileSystem :=
  files.foldl
    (fun fs f => fs.put (fs.workingDirectory ++ (segments f.1).filter (!stays ·)) f.2) {}

/-- The file system as a host. -/
def host (fs : FileSystem) (environment : Environment) : Host :=
  ⟨fun path => (fs.read path).map Source.ofText, environment⟩

end FileSystem

namespace Document

/-- Saves a document as markup. -/
def save (d : Document) (fs : FileSystem) (path : Text) (sorted : Bool) (indent : Nat) :
    Except Error FileSystem :=
  (fs.write path (d.write sorted indent)).mapError (.badFile path)

end Document

end Wcl
