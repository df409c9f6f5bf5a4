import CheckedThrows.Text.Quoted
import CheckedThrows.Text.Utf8

/-!
# Files

A file tree holds the contents of files under their paths; the directories on
the way to a file are in the tree with it.  Paths are resolved name by name
from the root of the tree; above it there are directories only, and a path that
begins with a slash is resolved in the tree that every system has.  Names and
paths of too many bytes lead nowhere.  Texts are UTF-8, and every kind of line
end is read as a line feed.
-/

namespace CheckedThrows

/-- A path without the names that do not matter, which are empty names and
`.`; a leading slash, or exactly two of them, is kept. -/
structure FilePath where
  root : String
  names : List String
  deriving DecidableEq, Repr

namespace FilePath

def ofString (s : String) : FilePath :=
  let slashes := (s.toList.takeWhile (· = '/')).length
  let root := if slashes = 0 then "" else if slashes = 2 then "//" else "/"
  let parts := (s.toList.splitOn '/').map String.ofList
  ⟨root, parts.filter fun p => p ≠ "" && p ≠ "."⟩

def render (p : FilePath) : String :=
  if p.root = "" && p.names.isEmpty then "."
  else p.root ++ "/".intercalate p.names

def nameLimit : Nat := 255

def pathLimit : Nat := 4095

def isLongName (name : String) : Bool :=
  nameLimit < name.utf8ByteSize

def isLong (p : FilePath) : Bool :=
  pathLimit < p.render.utf8ByteSize

/-- A NUL ends a path for the system, so no path may hold one. -/
def hasNul (p : FilePath) : Bool :=
  p.names.any fun name => name.contains '\x00'

end FilePath

inductive FileFault
  | missing
  | isDirectory
  | notDirectory
  | nameTooLong
  deriving DecidableEq, Repr

/-- The system's number and words for a fault, with the path. -/
def FileFault.message (path : String) (f : FileFault) : Text :=
  let what :=
    match f with
    | .missing => "[Errno 2] No such file or directory"
    | .isDirectory => "[Errno 21] Is a directory"
    | .notDirectory => "[Errno 20] Not a directory"
    | .nameTooLong => "[Errno 36] File name too long"
  (what : Text) ++ (": " : Text) ++ (Text.ofString path).quoted

inductive TextFault
  | nulInPath
  | file (fault : FileFault)
  | encoding (fault : Utf8.Fault)
  deriving DecidableEq, Repr

def nulInPathMessage : String := "embedded null byte"

/-- How the contents of files are got, by path. -/
abbrev FileReader := FilePath → Except FileFault (List UInt8)

/-- Files and directories by the names on the way to them; later ones replace
earlier ones. -/
structure FileTree where
  files : List (List String × List UInt8) := []
  directories : List (List String) := []
  /-- Whether nothing is above the root, so that `..` stays there. -/
  isTop : Bool := false

namespace FileTree

def addFile (t : FileTree) (path : FilePath) (content : List UInt8) : FileTree :=
  { t with files := (path.names, content) :: t.files }

def addDirectory (t : FileTree) (path : FilePath) : FileTree :=
  { t with directories := path.names :: t.directories }

def file? (t : FileTree) (names : List String) : Option (List UInt8) :=
  t.files.lookup names

/-- The root, what was added as a directory, and whatever is on the way to
something added. -/
def isDirectory (t : FileTree) (names : List String) : Bool :=
  names.isEmpty ||
    (t.files.any fun f => names.isPrefixOf f.1 && names ≠ f.1) ||
    t.directories.any fun d => names.isPrefixOf d

/-- The directories of the standard hierarchy and the empty file among the
devices. -/
def system : FileTree where
  files := [(["dev", "null"], [])]
  directories := [["bin"], ["boot"], ["dev"], ["etc"], ["home"], ["lib"], ["media"], ["mnt"],
    ["opt"], ["proc"], ["root"], ["run"], ["sbin"], ["srv"], ["sys"], ["tmp"], ["usr"], ["var"]]
  isTop := true

def above (names : List String) : FileFault :=
  match names.dropWhile (· = "..") with
  | [] => .isDirectory
  | name :: _ => if FilePath.isLongName name then .nameTooLong else .missing

def resolve (t : FileTree) (place : List String) : List String → Except FileFault (List String)
  | [] => .ok place
  | name :: rest =>
    if (t.file? place).isSome then .error .notDirectory
    else if !t.isDirectory place then .error .missing
    else if FilePath.isLongName name then .error .nameTooLong
    else if name = ".." ∧ place.isEmpty ∧ !t.isTop then .error (above rest)
    else t.resolve (if name = ".." then place.dropLast else place ++ [name]) rest

def content (t : FileTree) (names : List String) : Except FileFault (List UInt8) := do
  let place ← t.resolve [] names
  match t.file? place with
  | some content => .ok content
  | none => .error (if t.isDirectory place then .isDirectory else .missing)

def read (t : FileTree) : FileReader := fun path =>
  if path.isLong then .error .nameTooLong
  else if path.root = "" then t.content path.names
  else system.content path.names

end FileTree

def unifyLineEnds : List Char → List Char
  | '\r' :: '\n' :: rest => '\n' :: unifyLineEnds rest
  | '\r' :: rest => '\n' :: unifyLineEnds rest
  | c :: rest => c :: unifyLineEnds rest
  | [] => []

def readText (reader : FileReader) (path : FilePath) : Except TextFault (List Char) :=
  if path.hasNul then .error .nulInPath
  else
    match reader path with
    | .error fault => .error (.file fault)
    | .ok bytes =>
      match Utf8.decode bytes with
      | .error fault => .error (.encoding fault)
      | .ok cs => .ok (unifyLineEnds cs)

end CheckedThrows
