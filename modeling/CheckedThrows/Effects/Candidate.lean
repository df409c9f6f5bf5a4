import CheckedThrows.Effects.Surroundings

/-!
# Candidates

The candidates of a site are the types that it may throw by itself: by `throw`
and `rethrow`, by whatever executable its evaluation invokes, and by calling a
parameter or variable that is declared to throw.  A `throw` counts only if what
is thrown is an exception or an error.
-/

namespace CheckedThrows

/-- Where an effect comes from. -/
inductive Origin
  | throw
  | rethrow
  | call (callee : ExecutableElement)
  | parameterCall (callee : ParameterElement)
  | variableCall (callee : VariableElement)

namespace Origin

def label : Origin → String
  | .throw => "throw"
  | .rethrow => "rethrow"
  | .call _ => "call"
  | .parameterCall _ => "parameter invocation"
  | .variableCall _ => "variable invocation"

def source? : Origin → Option Element
  | .throw | .rethrow => none
  | .call e => some (.executable e)
  | .parameterCall p => some (.parameter p)
  | .variableCall v => some (.variable v)

end Origin

structure Candidate where
  type : TypeId
  origin : Origin

def distinctExecutables (es : List ExecutableElement) : List ExecutableElement :=
  es.foldl (fun kept e => if kept.any fun k => k.id = e.id then kept else kept ++ [e]) []

def executables (es : List (Option Element)) : List ExecutableElement :=
  es.filterMap fun e => e.bind Element.toExecutable?

namespace Program

def getter? (p : Program) (node : NodeId) : Option Element :=
  (p.meaning? node).filter fun
    | .executable e => e.kind = .getter
    | _ => false

/-- The executables that an expression invokes by itself, in the order in which
they were found; callees and written targets invoke nothing. -/
def invocations (p : Program) (slot : Slot) : Expr → List (Option Element)
  | .call info .. => [p.meaning? info.id]
  | .name info _ | .member info _ _ =>
    if slot = .callee ∨ slot = .target then [] else [p.getter? info.id]
  | .index info _ _ =>
    if slot = .target then [] else [(p.operator? info.id).map .executable]
  | .binary info _ _ _ | .unary info _ _ => [(p.operator? info.id).map .executable]
  | .step info _ _ _ =>
    [(p.operator? info.id).map .executable, p.read? info.id, p.write? info.id]
  | .assign info op _ _ =>
    if op = .plain then [p.write? info.id]
    else [p.write? info.id, p.read? info.id, (p.operator? info.id).map .executable]
  | _ => []

def invoked (p : Program) (place : Place) : List ExecutableElement :=
  match place.node with
  | .expr e => distinctExecutables (executables (p.invocations place.slot e))
  | _ => []

/-- Only exceptions and errors count as effects of a `throw`. -/
def isThrowable (p : Program) (type : TypeId) : Bool :=
  ["Exception", "Error"].any fun name =>
    (p.types.coreType name).any fun root => p.types.isSubtype type root

/-- The type of what `rethrow` throws again: that of the clause around it, or
any object. -/
def rethrownType? (p : Program) (place : Place) : Option TypeId :=
  place.enclosingClause?.bind fun c => (p.catchType? c.id).or p.types.object

end Program

namespace EffectModel

def calls (m : EffectModel) (place : Place) : List Candidate :=
  (m.program.invoked place).flatMap fun e =>
    (m.effects (.executable e)).map fun type => ⟨type, .call e⟩

def valueCalls (m : EffectModel) (callee : Expr) : List Candidate :=
  match m.program.meaning? callee.id with
  | some (.parameter p) => (m.effects (.parameter p)).map fun type => ⟨type, .parameterCall p⟩
  | some (.variable v) => (m.effects (.variable v)).map fun type => ⟨type, .variableCall v⟩
  | _ => []

def candidates (m : EffectModel) (place : Place) : List Candidate :=
  match place.node with
  | .expr (.throw _ value) =>
    ((m.program.staticType? value.id).filter m.program.isThrowable).toList.map fun type =>
      ⟨type, .throw⟩
  | .expr (.rethrow _) =>
    (m.program.rethrownType? place).toList.map fun type => ⟨type, .rethrow⟩
  | .expr (.call _ callee _ _) => m.calls place ++ m.valueCalls callee
  | _ => m.calls place

/-- The candidates that escape, the first one of each type. -/
def escaping (m : EffectModel) (place : Place) (cs : List Candidate) : List Candidate :=
  cs.foldl (fun kept c =>
    if (kept.any fun k => k.type = c.type) || !m.escapes place c.type then kept
    else kept ++ [c]) []

def unhandled (m : EffectModel) (place : Place) : List TypeId :=
  (m.escaping place (m.candidates place)).map Candidate.type

end EffectModel

end CheckedThrows
