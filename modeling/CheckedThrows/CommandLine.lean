import CheckedThrows.Intrinsics.Reader
import CheckedThrows.Lint
import CheckedThrows.Text.Digit

/-!
# The command line

Arguments are options and the paths of sources.  Long options may be shortened
as long as it is clear which one is meant, and have their value after `=` or in
the next argument; short options may be written together, with or without `=`
after the first.  After `--` every argument is a path.  Paths must stand together:
those after the first group of them are not accepted.

A run ends with 0 if there is nothing to report against the sources, with 1 if
there are errors or findings, and with 2 if the arguments, the intrinsic table
or the sources are not usable.
-/

namespace CheckedThrows

/-- What the arguments ask for. -/
structure Options where
  sources : List FilePath := []
  json : Bool := false
  /-- The codes to disable; `none` where no code was given. -/
  disabled : List (Option String) := []
  /-- The file of the table, if one is asked for; `none` if no file was given. -/
  intrinsics : Option (Option FilePath) := none
  useBundledIntrinsics : Bool := true
  verbose : Bool := false

/-- The arguments ask for help, or make no sense. -/
inductive Refusal
  | help
  | usage
  deriving DecidableEq, Repr

def Refusal.exitCode : Refusal → Nat
  | .help => 0
  | .usage => 2

inductive Flag
  | help
  | json
  | disable
  | intrinsics
  | noSdkIntrinsics
  | verbose
  deriving DecidableEq, Repr

namespace Flag

def spellings : List (String × Flag) := [
  ("-h", .help), ("--help", .help), ("--json", .json), ("--disable", .disable),
  ("--intrinsics", .intrinsics), ("--no-sdk-intrinsics", .noSdkIntrinsics),
  ("-v", .verbose), ("--verbose", .verbose)]

def takesValue : Flag → Bool
  | .disable | .intrinsics => true
  | .help | .json | .noSdkIntrinsics | .verbose => false

end Flag

/-- What an argument is: a path, a known option with the value after its equals
sign, a known option of one letter with what is written together with it, or an
option that is not known. -/
inductive Argument
  | path (text : String)
  | option (flag : Flag) (value : Option String)
  | letters (flag : Flag) (more : List Char)
  | unknown
  deriving DecidableEq, Repr

namespace Argument

def splitValue (s : String) : Option (String × String) :=
  let cs := s.toList
  let name := cs.takeWhile (· ≠ '=')
  match cs.drop name.length with
  | _ :: value => some (String.ofList name, String.ofList value)
  | [] => none

def longMatches (s : String) : List (Flag × Option String) :=
  let (name, value) :=
    match splitValue s with
    | some (name, value) => (name, some value)
    | none => (s, none)
  (Flag.spellings.filter fun spelling => name.toList.isPrefixOf spelling.1.toList).map
    fun spelling => (spelling.2, value)

def withoutLineEnd (cs : List Char) : List Char :=
  if cs.getLast? = some '\n' then cs.dropLast else cs

def isNegativeNumber (s : String) : Bool :=
  match withoutLineEnd s.toList with
  | '-' :: cs =>
    let whole := cs.takeWhile isDecimalDigit
    match cs.drop whole.length with
    | [] => !whole.isEmpty
    | '.' :: fraction => !fraction.isEmpty && fraction.all isDecimalDigit
    | _ => false
  | _ => false

def ofRest (s : String) : Argument :=
  if isNegativeNumber s || s.contains ' ' then .path s else .unknown

def ofLong (s : String) : Except Refusal Argument :=
  match longMatches s with
  | [] => .ok (ofRest s)
  | [(flag, value)] => .ok (.option flag value)
  | _ => .error .usage

def ofShort (s : String) : Argument :=
  match Flag.spellings.lookup (String.ofList (s.toList.take 2)) with
  | some flag => .letters flag (s.toList.drop 2)
  | none => ofRest s

def isLong (s : String) : Bool :=
  s.startsWith "--"

def read (s : String) : Except Refusal Argument :=
  if !s.startsWith "-" || s = "-" then .ok (.path s)
  else
    match Flag.spellings.lookup s with
    | some flag => .ok (.option flag none)
    | none =>
      match (splitValue s).bind fun (name, value) =>
          (Flag.spellings.lookup name).map fun flag => (flag, value) with
      | some (flag, value) =>
        .ok (if isLong s || value = "" then .option flag (some value)
          else .letters flag value.toList)
      | none => if isLong s then ofLong s else .ok (ofShort s)

/-- An item of the command line: an argument, or the `--` that ends options. -/
inductive Item
  | argument (a : Argument)
  | endOfOptions
  deriving DecidableEq, Repr

def readAll : List String → Except Refusal (List Item)
  | [] => .ok []
  | s :: rest =>
    if s = "--" then
      .ok (.endOfOptions :: rest.map fun s => .argument (.path s))
    else do
      let a ← read s
      return .argument a :: (← readAll rest)

end Argument

namespace Options

open Argument (Item)

def givenValue (text : String) : Option String :=
  if text = "--" then none else some text

def apply (o : Options) (flag : Flag) (value : Option String) : Except Refusal Options :=
  match flag with
  | .help => .error .help
  | .json => .ok { o with json := true }
  | .disable =>
    if value.all fun text => LintCode.all.any fun code => code.text = text then
      .ok { o with disabled := o.disabled ++ [value] }
    else .error .usage
  | .intrinsics => .ok { o with intrinsics := some (value.map .ofString) }
  | .noSdkIntrinsics => .ok { o with useBundledIntrinsics := false }
  | .verbose => .ok { o with verbose := true }

/-- The options in letters written together, if all of them are known.  No
option of one letter takes a value. -/
def letters? (letters : List Char) : Option (List Flag) :=
  letters.mapM fun c => Flag.spellings.lookup (String.ofList ['-', c])

def applyAll (o : Options) (flags : List Flag) : Except Refusal Options :=
  flags.foldlM (fun o flag => o.apply flag none) o

def takePaths : List Item → List String × List Item
  | .argument (.path s) :: rest =>
    let (paths, rest) := takePaths rest
    (s :: paths, rest)
  | .endOfOptions :: rest => takePaths rest
  | rest => ([], rest)

theorem length_takePaths_le (items : List Item) : (takePaths items).2.length ≤ items.length := by
  fun_induction takePaths items with
  | case1 s rest paths rest' h ih =>
    rw [h] at ih
    exact Nat.le_succ_of_le ih
  | case2 rest ih => exact Nat.le_succ_of_le ih
  | case3 => exact Nat.le_refl _

/-- Takes a group of paths as the sources, unless there are some already; tells
whether all of it is accepted. -/
def addPaths (o : Options) (paths : List String) : Options × Bool :=
  if o.sources.isEmpty ∧ paths ≠ [] then ({ o with sources := paths.map .ofString }, true)
  else (o, false)

/-- Carries out the items from the left.  What is not accepted counts at the
end only, so that help can be asked for all the same. -/
def readItems (o : Options) (accepted : Bool) : List Item → Except Refusal Options
  | [] => if accepted ∧ o.sources ≠ [] then .ok o else .error .usage
  | .argument .unknown :: rest => readItems o false rest
  | .argument (.letters flag more) :: rest =>
    match letters? more with
    | some flags => do readItems (← o.applyAll (flag :: flags)) accepted rest
    | none => .error .usage
  | .argument (.option flag (some value)) :: rest =>
    if flag.takesValue then do readItems (← o.apply flag (givenValue value)) accepted rest
    else .error .usage
  | .argument (.option flag none) :: rest =>
    if flag.takesValue then
      match rest with
      | .argument (.path value) :: rest => do
        readItems (← o.apply flag (some value)) accepted rest
      | _ => .error .usage
    else do readItems (← o.apply flag none) accepted rest
  | .argument (.path s) :: rest =>
    have := length_takePaths_le rest
    let group := takePaths rest
    let (o, taken) := o.addPaths (s :: group.1)
    readItems o (accepted && taken) group.2
  | .endOfOptions :: rest =>
    have := length_takePaths_le rest
    let group := takePaths rest
    let (o, taken) := o.addPaths group.1
    readItems o (accepted && taken) group.2
termination_by items => items.length

def ofArguments (args : List String) : Except Refusal Options := do
  readItems {} true (← Argument.readAll args)

end Options

/-- What a finished run leaves behind. -/
structure Outcome where
  exitCode : Nat
  stdout : Text := []
  stderr : Text := []

/-- What stops a run without a report. -/
inductive RunFault
  | encoding (fault : Utf8.Fault)
  | overlong (fault : OverlongInteger)
  | nulInPath
  /-- A table was asked for and no file given. -/
  | noTable
  /-- A code was to be disabled and none given. -/
  | noCode

def RunFault.message : RunFault → String
  | .encoding fault => fault.message
  | .overlong fault => fault.message
  | .nulInPath => nulInPathMessage
  | .noTable => "expected str, bytes or os.PathLike object, not list"
  | .noCode => "unhashable type: 'list'"

namespace Diagnostic

def line (d : Diagnostic) : Text :=
  let number (n : Option Int) : String := (n.map toString).getD "?"
  let file := (d.span.file.filter (· ≠ "")).getD "?"
  let place := file ++ ":" ++ number d.span.line ++ ":" ++ number d.span.column
  let code := ((d.code.filter (· ≠ "")).map fun c => " [" ++ c ++ "]").getD ""
  Text.ofString (place ++ ": " ++ d.severity ++ ": ") ++ d.message ++ Text.ofString code

def toJson (d : Diagnostic) : Json :=
  let text (s : Option String) : Json := Json.ofOption Json.ofString s
  let number (n : Option Int) : Json := Json.ofOption Json.ofInt n
  .object [("phase", text d.phase), ("code", text d.code), ("message", .string d.message),
    ("severity", .ofString d.severity), ("file", text d.span.file),
    ("line", number d.span.line), ("column", number d.span.column),
    ("notes", .array (d.notes.map .string))]

end Diagnostic

namespace Outcome

def lines (ls : List Text) : Text :=
  ls.flatMap fun l => l ++ ("\n" : Text)

/-- The end of a run whose table or sources are not usable. -/
def unusable (message : Text) : Outcome where
  exitCode := 2
  stderr := lines [("throwlint: error: " : Text) ++ message]

def ofResult (o : Options) (r : LintResult) : Outcome :=
  let exitCode := if r.hasErrors || r.hasFindings then 1 else 0
  let log := if o.verbose then r.log.map fun e => Text.ofString e.render else []
  if o.json then
    let payload := Json.object [("exit_code", .ofNat exitCode),
      ("diagnostics", .array (r.diagnostics.map Diagnostic.toJson))]
    { exitCode, stdout := lines [Text.ofString payload.render], stderr := lines log }
  else { exitCode, stderr := lines (log ++ r.diagnostics.map Diagnostic.line) }

end Outcome

namespace Options

def config (o : Options) (intrinsics : Option IntrinsicTable) : LintConfig where
  disabled := o.disabled.filterMap id
  intrinsics := intrinsics
  useBundledIntrinsics := o.useBundledIntrinsics

def lintWith (o : Options) (reader : FileReader) (intrinsics : Option IntrinsicTable) :
    Except RunFault Outcome :=
  if o.disabled.any Option.isNone then .error .noCode
  else
    match lintFiles reader o.sources (o.config intrinsics) with
    | .ok r => .ok (.ofResult o r)
    | .error (.file fault path) => .ok (.unusable (fault.message path.render))
    | .error .nulInPath => .error .nulInPath
    | .error (.encoding fault) => .error (.encoding fault)
    | .error (.overlong fault) => .error (.overlong fault)

def run (o : Options) (reader : FileReader) : Except RunFault Outcome :=
  match o.intrinsics with
  | none => o.lintWith reader none
  | some none => .error .noTable
  | some (some path) =>
    match IntrinsicTable.ofFile reader path with
    | .ok table => o.lintWith reader (some table)
    | .error (.table fault source) => .ok (.unusable (fault.message source))
    | .error .nulInPath => .error .nulInPath
    | .error (.encoding fault) => .error (.encoding fault)
    | .error (.overlong fault) => .error (.overlong fault)

end Options

end CheckedThrows
