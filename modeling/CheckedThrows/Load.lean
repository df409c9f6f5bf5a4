import CheckedThrows.Bundled
import CheckedThrows.Resolution.Program

/-!
# Loading programs

The given sources are loaded together with the bundled libraries.  Those that
do not parse take no part in the program.  Where a program must be complete,
loading stops at the first source that does not parse.
-/

namespace CheckedThrows

/-- What became of the given sources and of those around them, and the program
of those that parse. -/
structure Loaded where
  around : List (Source × Except Diagnostic CompilationUnit)
  given : List (Source × Except Diagnostic CompilationUnit)
  program : Program

namespace Loaded

def unitOf? : Source × Except Diagnostic CompilationUnit → Option CompilationUnit
  | (_, .ok u) => some u
  | (_, .error _) => none

def units (l : Loaded) : List CompilationUnit :=
  l.given.filterMap unitOf?

def syntaxErrors (l : Loaded) : List Diagnostic :=
  l.given.filterMap fun
    | (_, .error d) => some d
    | (_, .ok _) => none

def warnings (l : Loaded) : List Diagnostic :=
  l.program.warnings.filter fun d => l.given.any fun s => d.span.file = some s.1.uri

def libraries (l : Loaded) : List Library :=
  let uris := (l.units.map CompilationUnit.uri).foldl
    (fun uris uri => if uris.contains uri then uris else uris ++ [uri]) []
  uris.filterMap l.program.workspace.libraries.find?

end Loaded

def load (around given : List Source) : Except OverlongInteger Loaded := do
  let parsed ← Source.parseAll 1 (around ++ given)
  return {
    around := parsed.take around.length
    given := parsed.drop around.length
    program := .ofUnits (parsed.filterMap Loaded.unitOf?) }

inductive IncompleteProgram
  | syntaxError (uri : String) (diagnostic : Diagnostic)
  | overlong (fault : OverlongInteger)

def parseComplete (next : NodeId) :
    List Source → Except IncompleteProgram (List CompilationUnit)
  | [] => .ok []
  | s :: rest =>
    match s.parseFrom next with
    | .error fault => .error (.overlong fault)
    | .ok (.error d, _) => .error (.syntaxError s.uri d)
    | .ok (.ok u, next) => do return u :: (← parseComplete next rest)

/-- Puts a source in the place of the one with its uri, or else at the end. -/
def putSource (sources : List Source) (s : Source) : List Source :=
  if sources.any fun old => old.uri = s.uri then
    sources.map fun old => if old.uri = s.uri then s else old
  else sources ++ [s]

/-- Sources where the last text of a uri counts, in the place of the first. -/
def distinctSources (given : List Source) : List Source :=
  given.foldl putSource []

/-- A program all of whose sources parse, with the units of the given ones. -/
structure CompleteProgram where
  given : List CompilationUnit
  program : Program

def CompleteProgram.warnings (c : CompleteProgram) : List Diagnostic :=
  c.program.warnings.filter fun d => c.given.any fun u => d.span.file = some u.uri

/-- The complete program of the bundled libraries, each unless a given source
is put in its place, and the given sources. -/
def loadComplete (given : List Source) : Except IncompleteProgram CompleteProgram := do
  let units ← parseComplete 1 (given.foldl putSource Bundled.libraries)
  return {
    given := (distinctSources given).filterMap fun s => units.find? fun u => u.uri = s.uri
    program := .ofUnits units }

end CheckedThrows
