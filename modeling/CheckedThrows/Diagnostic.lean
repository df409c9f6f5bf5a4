import CheckedThrows.Position

/-!
# Diagnostics

A diagnostic is a message with, as far as they are known, a code, the phase
that reports it, a severity, a place and notes.  Reports go to a sink; where
there is none, a report cannot be recorded and its message is the failure.
-/

namespace CheckedThrows

structure Diagnostic where
  message : Text
  code : Option String := none
  phase : Option String := none
  severity : String := "error"
  span : Span := {}
  notes : List Text := []
  deriving DecidableEq, Repr

def Diagnostic.isError (d : Diagnostic) : Bool :=
  d.severity == "error"

def hasErrors (ds : List Diagnostic) : Bool :=
  ds.any Diagnostic.isError

/-- There was no sink to take this message. -/
structure Unreported where
  message : Text

abbrev DiagnosticSink := Option (List Diagnostic)

namespace DiagnosticSink

def report (d : Diagnostic) : DiagnosticSink → Except Unreported DiagnosticSink
  | some ds => .ok (some (ds ++ [d]))
  | none => .error ⟨d.message⟩

def reportAll (sink : DiagnosticSink) (ds : List Diagnostic) :
    Except Unreported DiagnosticSink :=
  ds.foldlM (fun s d => s.report d) sink

end DiagnosticSink

end CheckedThrows
