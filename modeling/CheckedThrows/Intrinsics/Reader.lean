import CheckedThrows.Files
import CheckedThrows.Intrinsics.Table
import CheckedThrows.Json.Reader

/-!
# Reading intrinsic tables

A table is an object with an optional text `version` and an object `libraries`
of objects whose members are lists of names.  The first fault in document order
is told, with the source in front.
-/

namespace CheckedThrows

inductive TableFault
  | unreadable (fault : FileFault) (path : String)
  | invalidJson (fault : Json.SyntaxFault) (document : List Char)
  | notObject
  | version
  | libraries
  | library (uri : Text)
  | member (uri name : Text)

def TableFault.message (source : Text) (f : TableFault) : Text :=
  source ++ (": " : Text) ++
    match f with
    | .unreadable fault path =>
      ("cannot read intrinsic table: " : Text) ++ fault.message path
    | .invalidJson fault document =>
      ("invalid JSON: " : Text) ++ Text.ofString (fault.message document)
    | .notObject => "top-level value must be an object"
    | .version => "'version' must be a string"
    | .libraries => "'libraries' must be an object"
    | .library uri =>
      ("entries of library '" : Text) ++ uri ++ ("' must be an object" : Text)
    | .member uri name =>
      ("'" : Text) ++ uri ++ ("' member '" : Text) ++ name ++
        ("' must map to a list of type names" : Text)

/-- Why a file holds no table: a fault of the table, or one of reading that is
no fault of a table. -/
inductive TableFileFault
  | table (fault : TableFault) (source : Text)
  | nulInPath
  | encoding (fault : Utf8.Fault)
  | overlong (fault : OverlongInteger)

namespace IntrinsicTable

def name? : Json → Option Text
  | .string t => some t
  | _ => none

def names? : Json → Option (List Text)
  | .array items => items.mapM name?
  | _ => none

def membersOf (library : Text) : List (Text × Json) → Except TableFault (List (Text × List Text))
  | [] => .ok []
  | (member, value) :: rest =>
    match names? value with
    | some names => do return (member, names) :: (← membersOf library rest)
    | none => .error (.member library member)

def librariesOf : List (Text × Json) → Except TableFault (List (Text × MemberEntries))
  | [] => .ok []
  | (library, .object members) :: rest => do
    let members ← membersOf library members
    return (library, .ofList members) :: (← librariesOf rest)
  | (library, _) :: _ => .error (.library library)

def ofJson : Json → Except TableFault IntrinsicTable
  | .object members => do
    let version ←
      match members.lookup (Text.ofString "version") with
      | none => pure ("1" : Text)
      | some (.string version) => pure version
      | some _ => .error .version
    match members.lookup (Text.ofString "libraries") with
    | some (.object libraries) => return ⟨version, .ofList (← librariesOf libraries)⟩
    | _ => .error .libraries
  | _ => .error .notObject

def ofFile (reader : FileReader) (path : FilePath) :
    Except TableFileFault IntrinsicTable :=
  let source := Text.ofString path.render
  match readText reader path with
  | .error .nulInPath => .error .nulInPath
  | .error (.file fault) => .error (.table (.unreadable fault path.render) source)
  | .error (.encoding fault) => .error (.encoding fault)
  | .ok document =>
    match Json.read document with
    | .error (.malformed fault) => .error (.table (.invalidJson fault document) source)
    | .error (.overlong fault) => .error (.overlong fault)
    | .ok value => (ofJson value).mapError (.table · source)

end IntrinsicTable

end CheckedThrows
