import CheckedThrows.Effects.Candidate

/-!
# Effects lost by assignment

A parameter, a variable or a function that stands as a value carries the
effects it is declared with.  Stored in a variable whose own declaration does
not cover them, they are hidden from whoever calls through that variable.
-/

namespace CheckedThrows

def Element.carriesEffects : Element → Bool
  | .parameter _ | .variable _ => true
  | .executable e => e.kind = .function || e.kind = .local || e.kind = .method
  | .class _ => false

namespace EffectModel

def carried (m : EffectModel) (e : Expr) : List TypeId :=
  if e.isNamed then
    match (m.program.meaning? e.id).filter Element.carriesEffects with
    | some element => addTypes [] (m.effects element)
    | none => []
  else []

/-- The effects that a place carries as a value; a callee is none. -/
def carriedAt (m : EffectModel) (place : Place) : List TypeId :=
  match place.node with
  | .expr e => if place.slot = .callee then [] else m.carried e
  | _ => []

def storedValue? : Node → Option Expr
  | .expr (.assign _ op _ value) => if op.stores then some value else none
  | .stmt (.variable d) => d.init
  | _ => none

/-- What the value is stored in; a setter or an index operator is none. -/
def storedIn? (m : EffectModel) : Node → Option Element
  | .expr (.assign info _ _ _) => (m.program.write? info.id).filter Element.isBinding
  | .stmt (.variable d) => m.program.declared? d.id
  | _ => none

/-- The effects that an assignment or a declaration hides. -/
def lost (m : EffectModel) (n : Node) : List TypeId :=
  match storedValue? n with
  | some value =>
    let declared := m.effects? (m.storedIn? n)
    (m.carried value).filter fun type => !m.covers declared type
  | none => []

end EffectModel

end CheckedThrows
