import CheckedThrows.Effects.Assignment

/-!
# Findings

A finding is one effect at one site that is neither handled nor declared, or
that an assignment hides.  Findings of a unit come in pre-order of their sites;
metadata is no site.
-/

namespace CheckedThrows

inductive LintCode
  | unhandledThrow
  | unhandledCall
  | lostInAssignment
  deriving DecidableEq, Repr

namespace LintCode

def all : List LintCode := [.unhandledThrow, .unhandledCall, .lostInAssignment]

def text : LintCode → String
  | .unhandledThrow => "unhandled_throw_in_body"
  | .unhandledCall => "unhandled_exception_call"
  | .lostInAssignment => "throws_info_lost_in_assignment"

end LintCode

def Origin.code : Origin → LintCode
  | .throw | .rethrow => .unhandledThrow
  | .call _ | .parameterCall _ | .variableCall _ => .unhandledCall

structure Finding where
  code : LintCode
  site : Node
  type : TypeId
  typeName : String
  message : String
  origin : Option Origin
  description : String
  span : Span

namespace Finding

def toDiagnostic (f : Finding) : Diagnostic where
  message := f.message
  code := some f.code.text
  phase := some "lint"
  severity := "warning"
  span := f.span

end Finding

def calleeName? : Node → Option String
  | .expr (.call _ (.name _ name) _ _) => some name
  | .expr (.call _ (.member _ _ name) _ _) => some name
  | _ => none

def Origin.description (site : Node) : Origin → String
  | .call e => (Element.executable e).qualifiedName
  | .parameterCall _ | .variableCall _ => (calleeName? site).getD "<callback>"
  | origin => origin.label

def Origin.message (site : Node) (typeName : String) : Origin → String
  | .throw =>
    "Unhandled throw of '" ++ typeName ++ "'. Catch it or declare it with @Throws."
  | .rethrow => "Unhandled rethrow of '" ++ typeName ++ "'. Declare it with @Throws."
  | origin =>
    "Unhandled '" ++ typeName ++ "' from call to '" ++ origin.description site ++
      "'. Catch it or declare it with @Throws."

namespace EffectModel

def unhandledFinding (m : EffectModel) (uri : String) (site : Node) (c : Candidate) : Finding :=
  let typeName := m.types.displayName c.type
  { code := c.origin.code
    site
    type := c.type
    typeName
    message := c.origin.message site typeName
    origin := some c.origin
    description := c.origin.description site
    span := site.span uri }

def lostFinding (m : EffectModel) (uri : String) (site : Node) (type : TypeId) : Finding :=
  let typeName := m.types.displayName type
  { code := .lostInAssignment
    site
    type
    typeName
    message := "Assignment loses @Throws(" ++ typeName ++
      ") info. Add @Throws annotation to the target variable."
    origin := none
    description := "assignment"
    span := site.span uri }

def findingsAt (m : EffectModel) (enabled : List LintCode) (uri : String) (place : Place) :
    List Finding :=
  let candidates := (m.candidates place).filter fun c => c.origin.code ∈ enabled
  let lost := if .lostInAssignment ∈ enabled then m.lost place.node else []
  (m.escaping place candidates).map (m.unhandledFinding uri place.node) ++
    lost.map (m.lostFinding uri place.node)

def findings (m : EffectModel) (enabled : List LintCode) (u : CompilationUnit) : List Finding :=
  (Place.walkCode (.unit u)).flatMap (m.findingsAt enabled u.uri)

end EffectModel

end CheckedThrows
