import CheckedThrows.Ast.Node
import CheckedThrows.Effects.Declared

/-!
# What is around a site

An effect at a site is handled if the site stands in the protected part of a
`try` one of whose clauses is for it.  It is declared if the function around
the site declares a supertype of it, or if the site stands in a function
literal that is an argument, and the parameter it is for does.  The search for
a handler ends at functions and function literals, because a literal runs
later; catch clauses and finally blocks are not protected by their own `try`.
-/

namespace CheckedThrows

namespace Node

def isFunction : Node → Bool
  | .stmt (.function _) | .expr (.lambda ..) => true
  | _ => false

def catches : Node → List CatchClause
  | .stmt (.guarded _ _ catches _) => catches
  | _ => []

end Node

namespace Place

/-- The first clause satisfying a test, of the tries that protect a place in
its function. -/
def handler? (isFor : CatchClause → Bool) : Place → Option CatchClause
  | .root _ => none
  | .child parent slot _ =>
    if parent.node.isFunction then none
    else
      match if slot = .guarded then parent.node.catches.find? isFor else none with
      | some c => some c
      | none => parent.handler? isFor

def enclosingClause? : Place → Option CatchClause
  | .root _ => none
  | .child parent _ _ =>
    if parent.node.isFunction then none
    else
      match parent.node with
      | .clause c => some c
      | _ => parent.enclosingClause?

def enclosingFunction? : Place → Option FunctionDecl
  | .root _ => none
  | .child parent _ _ =>
    match parent.node with
    | .stmt (.function d) => some d
    | _ => parent.enclosingFunction?

def enclosingLambda? : Place → Option NodeId
  | .root _ => none
  | .child parent _ _ =>
    match parent.node with
    | .stmt (.function _) => none
    | .expr (.lambda info _ _) => some info.id
    | _ => parent.enclosingLambda?

end Place

namespace Program

/-- Whether a clause is for a type.  One without a type, or with a type that
could not be found, is for every type. -/
def clauseFor (p : Program) (type : TypeId) (c : CatchClause) : Bool :=
  match c.exceptionType, p.catchType? c.id with
  | some _, some clauseType => p.types.isSubtype type clauseType
  | _, _ => true

def handlerOf? (p : Program) (place : Place) (type : TypeId) : Option CatchClause :=
  place.handler? (p.clauseFor type)

def isHandled (p : Program) (place : Place) (type : TypeId) : Bool :=
  (p.handlerOf? place type).isSome

end Program

namespace EffectModel

/-- Whether the parameter that the literal around a place is for declares a
type. -/
def isDeclaredByParameter (m : EffectModel) (place : Place) (type : TypeId) : Bool :=
  match place.enclosingLambda?.bind m.program.parameterFor? with
  | some p => m.covers (m.effects (.parameter p)) type
  | none => false

def isDeclaredByFunction (m : EffectModel) (place : Place) (type : TypeId) : Bool :=
  match place.enclosingFunction? with
  | some d => m.covers (m.effects? (m.program.declared? d.id)) type
  | none => false

def isDeclared (m : EffectModel) (place : Place) (type : TypeId) : Bool :=
  m.isDeclaredByParameter place type || m.isDeclaredByFunction place type

/-- Whether a type thrown at a place is neither handled nor declared. -/
def escapes (m : EffectModel) (place : Place) (type : TypeId) : Bool :=
  !m.program.isHandled place type && !m.isDeclared place type

end EffectModel

end CheckedThrows
