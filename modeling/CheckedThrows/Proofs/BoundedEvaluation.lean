import CheckedThrows.Proofs.Evaluation

/-!
# How deeply an evaluation goes

An evaluation with its guard as a state, which gives up when more than a given
number of variables have been entered one inside the other.  Each of them is one
that some node means and that is not in the guard.  So an evaluation that may go
as deep as there are such variables ends, with the constant that an expression
stands for, and with the guard as it was.
-/

namespace CheckedThrows

abbrev Evaluating := StateT (List NodeId) Option

namespace Program

def variableWithin (p : Program) (depth : Nat) (v : p.MeantVariable) :
    Evaluating (Option Constant) :=
  match v.1.constantInit? with
  | none => return none
  | some init => do
    if v.1.id.node ∈ (← get) then return none
    else
      match depth with
      | 0 => failure
      | depth + 1 =>
        modify (v.1.id.node :: ·)
        let value ← p.constantWith (p.variableWithin depth) init
        modify (·.erase v.1.id.node)
        return value

def evaluateWithin (p : Program) (depth : Nat) : Expr → Evaluating (Option Constant) :=
  p.constantWith (p.variableWithin depth)

def entryWithin (p : Program) (depth : Nat) : Metadatum → Evaluating (Option Constant) :=
  p.entryWith (p.variableWithin depth)

theorem agreement_run (active : List NodeId) :
    Agreement (m := Evaluating) (n := Guarded active) fun _ run r =>
      run.run active = some (r.value, active) where
  pure _ := rfl
  bind hfirst hnext := by
    rw [StateT.run_bind, hfirst]
    exact hnext _

/-- A variable that is entered was not in the guard; with it in the guard there is
one less that can be entered. -/
theorem run_variableWithin {p : Program} (depth : Nat) {active : List NodeId}
    (hdepth : (p.inactive active).length ≤ depth) (v : p.MeantVariable) :
    (p.variableWithin depth v).run active = some ((p.evaluateVariable active v).value, active) := by
  induction depth generalizing active v with
  | zero =>
    rw [variableWithin, evaluateVariable]
    cases v.1.constantInit? with
    | none => rfl
    | some init =>
      by_cases hactive : v.1.id.node ∈ active
      · simp [hactive, Guarded.done]
      · have hless := p.inactive_cons_lt v hactive
        omega
  | succ depth ih =>
    rw [variableWithin, evaluateVariable]
    cases v.1.constantInit? with
    | none => rfl
    | some init =>
      by_cases hactive : v.1.id.node ∈ active
      · simp [hactive, Guarded.done]
      · have hless := p.inactive_cons_lt v hactive
        have hinit := (agreement_run (v.1.id.node :: active)).constantWith
          (fun v => ih (by omega) v) init
        simp [hactive, hinit, Guarded.leave]

theorem run_evaluateWithin {p : Program} {depth : Nat} {active : List NodeId}
    (hdepth : (p.inactive active).length ≤ depth) (e : Expr) :
    (p.evaluateWithin depth e).run active = some ((p.evaluate active e).value, active) :=
  (agreement_run active).constantWith (run_variableWithin depth hdepth) e

theorem run_entryWithin {p : Program} {depth : Nat} {active : List NodeId}
    (hdepth : (p.inactive active).length ≤ depth) (entry : Metadatum) :
    (p.entryWithin depth entry).run active = some ((p.evaluateEntry active entry).value, active) :=
  (agreement_run active).entryWith (run_variableWithin depth hdepth) entry

end Program

end CheckedThrows
