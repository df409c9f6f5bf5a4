import CheckedThrows.Ast.Numbering
import CheckedThrows.Ast.Shape
import CheckedThrows.Diagnostic
import CheckedThrows.Grammar.Image
import CheckedThrows.Parser.Basic
import CheckedThrows.Token.Marking
import CheckedThrows.Token.SyntaxError

/-!
# Source texts

A source text either parses or is rejected with one diagnostic.  A character
that fits no lexeme comes before any other problem, and a fault of shape after
every problem of grammar.  One fault cannot be reported as a diagnostic: a
decimal number with too many digits stops the whole run.
-/

namespace CheckedThrows

structure Source where
  uri : String
  text : String
  deriving DecidableEq, Repr

/-- What a fault of shape says and where; an overlong number says nothing. -/
def ShapeFault.report : ShapeFault → Except OverlongInteger (String × Extent)
  | .target place => .ok ("invalid assignment target", place)
  | .stepOperand op place => .ok ("invalid operand for '" ++ op.spelling ++ "'", place)
  | .unguarded place =>
    .ok ("try statement needs at least one catch clause or a finally block", place)
  | .setterParams place => .ok ("setters must declare exactly one parameter", place)
  | .constructorName q name className =>
    .ok ("constructor '" ++ q.name ++ "." ++ name ++
      "' must be named after its class '" ++ className ++ "'", q.extent)
  | .lambdaFieldFormal place =>
    .ok ("field formal parameters are only allowed in constructors", place)
  | .digits count => .error ⟨count⟩

def parserDiagnostic (message : Text) (span : Span) : Diagnostic where
  message := message
  code := some "syntax_error"
  phase := some "parser"
  span := span

namespace Source

def chars (s : Source) : List Char := s.text.toList

def tokens (s : Source) : Except SyntaxError (List Token) :=
  let scan := Scan.of s.chars
  match scan.stuck with
  | some (place, c) => .error (.noLexeme c place)
  | none => .ok (Token.mark scan.tokens)

def comments (s : Source) : List Comment :=
  (Scan.of s.chars).comments s.chars

/-- Why tokens that end or go on like this are no text. -/
def unexpected (tokens : List Token) : Unexpected → SyntaxError
  | some t => .unexpectedToken t
  | none => .unexpectedEnd ((tokens.getLast?.map fun t => t.extent.start).getD .start)

def tree (s : Source) : Except SyntaxError CompilationUnit := do
  let tokens ← s.tokens
  match Grammar.Parser.unit tokens with
  | .ok d => return Grammar.image s.uri s.comments d
  | .error e => throw (unexpected tokens e)

def rejection (s : Source) (e : SyntaxError) : Diagnostic :=
  parserDiagnostic (e.message s.chars) (.ofPosition s.uri e.place)

/-- The tree of a text, not yet numbered, or why it is rejected. -/
def parse (s : Source) : Except OverlongInteger (Except Diagnostic CompilationUnit) :=
  match s.tree with
  | .error e => .ok (.error (s.rejection e))
  | .ok u =>
    match u.fault? with
    | none => .ok (.ok u)
    | some fault => do
      let (message, place) ← fault.report
      return .error (parserDiagnostic message (.ofExtent s.uri place))

/-- Parses a text and numbers its nodes from `next` on; a text that is rejected
uses up no number. -/
def parseFrom (next : NodeId) (s : Source) :
    Except OverlongInteger (Except Diagnostic CompilationUnit × NodeId) := do
  match ← s.parse with
  | .error d => return (.error d, next)
  | .ok u =>
    let (u, next) := u.number next
    return (.ok u, next)

/-- Parses texts in order; no two nodes of the trees have the same number. -/
def parseAll (next : NodeId) :
    List Source → Except OverlongInteger (List (Source × Except Diagnostic CompilationUnit))
  | [] => return []
  | s :: rest => do
    let (outcome, next) ← s.parseFrom next
    return (s, outcome) :: (← parseAll next rest)

end Source

end CheckedThrows
