/-!
# Operators

Operators by meaning, with their spelling in source texts.  The spelling of a
binary operator is also the name of the method that implements it.
-/

namespace CheckedThrows

inductive BinaryOp
  | or | and
  | equal | notEqual
  | less | greater | atMost | atLeast
  | bitOr | bitXor | bitAnd
  | shiftLeft | shiftRight
  | add | subtract
  | multiply | divide | remainder | wholeDivide
  deriving DecidableEq, Repr

def BinaryOp.spelling : BinaryOp → String
  | .or => "||"
  | .and => "&&"
  | .equal => "=="
  | .notEqual => "!="
  | .less => "<"
  | .greater => ">"
  | .atMost => "<="
  | .atLeast => ">="
  | .bitOr => "|"
  | .bitXor => "^"
  | .bitAnd => "&"
  | .shiftLeft => "<<"
  | .shiftRight => ">>"
  | .add => "+"
  | .subtract => "-"
  | .multiply => "*"
  | .divide => "/"
  | .remainder => "%"
  | .wholeDivide => "~/"

def BinaryOp.all : List BinaryOp := [
  .or, .and, .equal, .notEqual, .less, .greater, .atMost, .atLeast, .bitOr, .bitXor,
  .bitAnd, .shiftLeft, .shiftRight, .add, .subtract, .multiply, .divide, .remainder,
  .wholeDivide]

def BinaryOp.ofSpelling? (s : String) : Option BinaryOp :=
  BinaryOp.all.find? fun op => op.spelling = s

inductive UnaryOp
  | negate | not | complement
  deriving DecidableEq, Repr

def UnaryOp.spelling : UnaryOp → String
  | .negate => "-"
  | .not => "!"
  | .complement => "~"

inductive StepOp
  | increment | decrement
  deriving DecidableEq, Repr

def StepOp.spelling : StepOp → String
  | .increment => "++"
  | .decrement => "--"

/-- The operator that a step applies to the old value. -/
def StepOp.operator : StepOp → BinaryOp
  | .increment => .add
  | .decrement => .subtract

inductive StepForm
  | before | after
  deriving DecidableEq, Repr

inductive AssignOp
  | plain
  /-- `??=` -/
  | ifNull
  /-- An operator applied to the old value first, such as `+=`. -/
  | compound (op : BinaryOp)
  deriving DecidableEq, Repr

namespace AssignOp

def spelling : AssignOp → String
  | .plain => "="
  | .ifNull => "??="
  | .compound op => op.spelling ++ "="

def stores : AssignOp → Bool
  | .plain | .ifNull => true
  | .compound _ => false

def reads : AssignOp → Bool
  | .plain => false
  | .ifNull | .compound _ => true

end AssignOp

end CheckedThrows
