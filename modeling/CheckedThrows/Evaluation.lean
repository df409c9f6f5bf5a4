import CheckedThrows.Constant

/-!
# Evaluation with a guard

Whoever evaluates one constant after the other keeps the variables whose values
are being found in one place, the guard.  A variable is put into the guard
before its initial value is evaluated and taken out again afterwards, so each
evaluation leaves the guard as it was.  This is also why evaluation ends: what
comes next is evaluated under the same guard as what came before.
-/

namespace CheckedThrows

/-- What an evaluation that was started under a guard gives back. -/
structure Guarded (active : List NodeId) (α : Type) where
  value : α
  guard : List NodeId
  guard_eq : guard = active

namespace Guarded

def done {α : Type} (active : List NodeId) (value : α) : Guarded active α :=
  ⟨value, active, rfl⟩

def leave {α : Type} {n : NodeId} {active : List NodeId} (r : Guarded (n :: active) α) :
    Guarded active α :=
  ⟨r.value, r.guard.erase n, by rw [r.guard_eq, List.erase_cons_head]⟩

-- The guard that the first part leaves is that under which the next one starts.
instance (active : List NodeId) : Monad (Guarded active) where
  pure := done active
  bind r next := next r.value

end Guarded

namespace Program

def evaluateVariable (p : Program) (active : List NodeId) (v : p.MeantVariable) :
    Guarded active (Option Constant) :=
  match v.1.constantInit? with
  | none => .done active none
  | some init =>
    if h : v.1.id.node ∈ active then .done active none
    else
      have := p.inactive_cons_lt v h
      (p.constantWith (p.evaluateVariable (v.1.id.node :: active)) init).leave
termination_by (p.inactive active).length

def evaluate (p : Program) (active : List NodeId) : Expr → Guarded active (Option Constant) :=
  p.constantWith (p.evaluateVariable active)

def evaluateEntry (p : Program) (active : List NodeId) :
    Metadatum → Guarded active (Option Constant) :=
  p.entryWith (p.evaluateVariable active)

end Program

end CheckedThrows
