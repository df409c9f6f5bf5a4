import CheckedThrows.Effects.Finding
import CheckedThrows.Files
import CheckedThrows.Ignore
import CheckedThrows.Load

/-!
# Lint runs

A run loads the given sources beside the bundled libraries and reports, in this
order, why sources do not parse, the warnings of meaning source by source, and
the findings source by source.  The comments of a source can suppress its own
warnings and findings.  Nothing is reported about bundled libraries.
-/

namespace CheckedThrows

structure LintConfig where
  /-- Codes that are not to be found. -/
  disabled : List String := []
  /-- Entries put over the table that the run starts from. -/
  intrinsics : Option IntrinsicTable := none
  useBundledIntrinsics : Bool := true

namespace LintConfig

def intrinsicTable (c : LintConfig) : IntrinsicTable :=
  let base := if c.useBundledIntrinsics then .bundled else .empty
  match c.intrinsics with
  | some table => base.merged table
  | none => base

def enabled (c : LintConfig) : List LintCode :=
  LintCode.all.filter fun code => code.text ∉ c.disabled

end LintConfig

/-- What happened in a run, for those who want to follow it. -/
inductive LogEntry
  | parsed (uri : String) (declarations : Nat)
  | resolution (notice : Notice)
  | analyzed (uri : String) (findings : Nat)
  | linted (sources findings diagnostics : Nat)
  deriving DecidableEq, Repr

def LogEntry.render : LogEntry → String
  | .parsed uri declarations =>
    "throwlint.parser: parsed " ++ uri ++ ": " ++ toString declarations ++ " declarations"
  | .resolution notice => "throwlint.resolver.resolve: " ++ notice.message
  | .analyzed uri findings =>
    "throwlint.effects.analysis: " ++ uri ++ ": " ++ toString findings ++ " finding(s)"
  | .linted sources findings diagnostics =>
    "throwlint.driver: linted " ++ toString sources ++ " source(s): " ++ toString findings ++
      " finding(s), " ++ toString diagnostics ++ " diagnostic(s)"

structure LintResult where
  diagnostics : List Diagnostic
  /-- The findings of each source that parses, by uri. -/
  findings : List (String × List Finding)
  log : List LogEntry

namespace LintResult

def hasErrors (r : LintResult) : Bool :=
  CheckedThrows.hasErrors r.diagnostics

def hasFindings (r : LintResult) : Bool :=
  r.findings.any fun f => !f.2.isEmpty

end LintResult

namespace Loaded

def model (l : Loaded) (c : LintConfig) : EffectModel :=
  ⟨l.program, c.intrinsicTable⟩

def allFindings (l : Loaded) (c : LintConfig) (u : CompilationUnit) : List Finding :=
  (l.model c).findings c.enabled u

def isKept (u : CompilationUnit) (f : Finding) : Bool :=
  !(IgnoreInfo.ofComments u.comments).isIgnored f.code.text f.span.line true

/-- The warnings about a unit that its comments do not suppress. -/
def keptWarnings (l : Loaded) (u : CompilationUnit) : List Diagnostic :=
  (l.warnings.filter fun d => d.span.file = some u.uri).filter
    (IgnoreInfo.ofComments u.comments).keeps

def lint (l : Loaded) (c : LintConfig) : LintResult :=
  let found := l.units.map fun u => (u, l.allFindings c u)
  let findings := found.map fun (u, fs) => (u.uri, fs.filter (isKept u))
  let diagnostics :=
    l.syntaxErrors ++ l.units.flatMap l.keptWarnings ++
      findings.flatMap fun (_, fs) => fs.map Finding.toDiagnostic
  let parsed := ((l.around ++ l.given).filterMap unitOf?).map fun u =>
    LogEntry.parsed u.uri u.declarations.length
  let analyzed := found.map fun (u, fs) => LogEntry.analyzed u.uri fs.length
  { diagnostics
    findings
    log := parsed ++ l.program.facts.notices.map LogEntry.resolution ++ analyzed ++
      [.linted l.given.length (total (fun f => f.2.length) findings) diagnostics.length] }

end Loaded

def lint (given : List Source) (c : LintConfig) : Except OverlongInteger LintResult := do
  let given := distinctSources given
  return (← load (Bundled.besides given) given).lint c

inductive LintFault
  | nulInPath
  | file (fault : FileFault) (path : FilePath)
  | encoding (fault : Utf8.Fault)
  | overlong (fault : OverlongInteger)

def readSources (reader : FileReader) : List FilePath → Except LintFault (List Source)
  | [] => .ok []
  | path :: rest =>
    match readText reader path with
    | .error .nulInPath => .error .nulInPath
    | .error (.file fault) => .error (.file fault path)
    | .error (.encoding fault) => .error (.encoding fault)
    | .ok cs => do return ⟨path.render, String.ofList cs⟩ :: (← readSources reader rest)

def lintFiles (reader : FileReader) (paths : List FilePath) (c : LintConfig) :
    Except LintFault LintResult := do
  let given ← readSources reader paths
  (lint given c).mapError LintFault.overlong

end CheckedThrows
