/-!
# Uris of libraries

A directive names a library by its uri.  One that is not absolute is a path
seen from the library with the directive.  Paths are compared in normal form:
no empty names, no `.`, and no `..` that a name before it could take back.
-/

namespace CheckedThrows.Uri

def names (path : String) : List String :=
  (path.toList.splitOn '/').map String.ofList

/-- The slashes that a path starts with in normal form: two if it starts with
exactly two, otherwise at most one. -/
def leadingSlashes (path : String) : String :=
  match (path.toList.takeWhile (· = '/')).length with
  | 0 => ""
  | 2 => "//"
  | _ => "/"

/-- The path up to its last slash, without the slash unless nothing else comes
before it. -/
def directory (path : String) : String :=
  let upTo := (path.toList.reverse.dropWhile (· ≠ '/'))
  match upTo.dropWhile (· = '/') with
  | [] => String.ofList upTo
  | rest => String.ofList rest.reverse

def join (directory path : String) : String :=
  if path.startsWith "/" || directory = "" then path
  else if directory.endsWith "/" then directory ++ path
  else directory ++ "/" ++ path

def addName (isRooted : Bool) (before : List String) (name : String) : List String :=
  if name = "" ∨ name = "." then before
  else if name = ".." then
    match before with
    | [] => if isRooted then [] else [name]
    | last :: rest => if last = ".." then name :: before else rest
  else name :: before

def normalize (path : String) : String :=
  let root := leadingSlashes path
  let kept := ((names path).foldl (addName (root ≠ "")) []).reverse
  match root ++ "/".intercalate kept with
  | "" => "."
  | normal => normal

/-- The uri that a directive of the library `importer` means.  Uris with a
scheme, and uris of libraries as they are, mean themselves. -/
def resolve (known : List String) (importer uri : String) : String :=
  if uri.contains ':' || known.contains uri then uri
  else normalize (join (directory importer) uri)

end CheckedThrows.Uri
