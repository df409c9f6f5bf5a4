import CheckedThrows.Evaluation

/-!
# What a guarded evaluation finds

Evaluation is one recursion in different monads, so what it finds in two of them
agrees if what they find for variables does.  Under each guard, evaluation finds
the constants that are defined for it, as if the guard were handed down from each
expression to its parts and to nothing else.  A metadata entry that is evaluated
under the empty guard has the constant that it stands for.
-/

namespace CheckedThrows

/-- A relation between computations that return the same values. -/
structure Agreement {m n : Type → Type} [Monad m] [Monad n]
    (R : (α : Type) → m α → n α → Prop) : Prop where
  pure {α : Type} (a : α) : R α (pure a) (pure a)
  bind {α β : Type} {x : m α} {y : n α} {f : α → m β} {g : α → n β} :
    R α x y → (∀ a, R β (f a) (g a)) → R β (x >>= f) (y >>= g)

namespace Agreement

variable {m n : Type → Type} [Monad m] [Monad n] {R : (α : Type) → m α → n α → Prop}
  {p : Program} {enter : p.MeantVariable → m (Option Constant)}
  {enter' : p.MeantVariable → n (Option Constant)}

theorem objectWith (hR : Agreement R) {fields : m (NameTable Constant)}
    {fields' : n (NameTable Constant)} (hfields : R _ fields fields') (e : ExecutableElement) :
    R _ (Program.objectWith e fields) (Program.objectWith e fields') := by
  unfold Program.objectWith
  cases Program.constClass? e with
  | none => exact hR.pure none
  | some c => exact hR.bind hfields fun _ => hR.pure _

theorem variableOr (hR : Agreement R) (henter : ∀ v, R _ (enter v) (enter' v))
    (v : Option p.MeantVariable) (c : Option Constant) :
    R _ (match v with | some v => enter v | none => Pure.pure c)
      (match v with | some v => enter' v | none => Pure.pure c) := by
  cases v with
  | none => exact hR.pure c
  | some v => exact henter v

mutual

theorem constantWith (hR : Agreement R) (henter : ∀ v, R _ (enter v) (enter' v)) :
    (e : Expr) → R _ (p.constantWith enter e) (p.constantWith enter' e)
  | .literal _ _ => hR.pure _
  | .list _ items => hR.bind (itemsWith hR henter items) fun _ => hR.pure _
  | .name _ _ => hR.variableOr henter _ _
  | .call info _ args _ => by
    rw [Program.constantWith, Program.constantWith]
    split
    · exact hR.objectWith (fieldsWith hR henter [] _ args) _
    · exact hR.pure none
  | .self _ | .member .. | .index .. | .binary .. | .unary .. | .step .. | .assign ..
  | .throw .. | .rethrow _ | .lambda .. => hR.pure none

theorem itemsWith (hR : Agreement R) (henter : ∀ v, R _ (enter v) (enter' v)) :
    (es : List Expr) → R _ (p.itemsWith enter es) (p.itemsWith enter' es)
  | [] => hR.pure []
  | e :: rest =>
    hR.bind (constantWith hR henter e) fun _ =>
      hR.bind (itemsWith hR henter rest) fun _ => hR.pure _

theorem fieldsWith (hR : Agreement R) (henter : ∀ v, R _ (enter v) (enter' v))
    (fields : NameTable Constant) : (params : List ParameterElement) → (args : List Expr) →
      R _ (p.fieldsWith enter fields params args) (p.fieldsWith enter' fields params args)
  | param :: params, arg :: args => by
    rw [Program.fieldsWith, Program.fieldsWith]
    split
    · exact hR.bind (constantWith hR henter arg) fun _ => fieldsWith hR henter _ params args
    · exact hR.bind (hR.pure none) fun _ => fieldsWith hR henter _ params args
  | [], [] | [], _ :: _ | _ :: _, [] => hR.pure fields

end

theorem entryWith (hR : Agreement R) (henter : ∀ v, R _ (enter v) (enter' v))
    (entry : Metadatum) : R _ (p.entryWith enter entry) (p.entryWith enter' entry) := by
  unfold Program.entryWith
  split
  · exact hR.objectWith (hR.fieldsWith henter [] _ _) _
  · exact hR.variableOr henter _ none
  · exact hR.pure none

end Agreement

/-! ## The guard -/

theorem Guarded.agreement (active : List NodeId) :
    Agreement (m := Guarded active) (n := Id) fun _ r value => r.value = value.run where
  pure _ := rfl
  bind hfirst hnext := (hnext _).trans (by rw [hfirst]; rfl)

namespace Program

theorem value_evaluateVariable (p : Program) (active : List NodeId) (v : p.MeantVariable) :
    (p.evaluateVariable active v).value = p.constantVariable? active v := by
  rw [evaluateVariable, constantVariable?]
  cases v.1.constantInit? with
  | none => rfl
  | some init =>
    by_cases hactive : v.1.id.node ∈ active
    · simp only [dif_pos hactive]
      rfl
    · have := p.inactive_cons_lt v hactive
      have hinit := (Guarded.agreement (v.1.id.node :: active)).constantWith
        (value_evaluateVariable p _) init
      simp only [dif_neg hactive]
      exact hinit
termination_by (p.inactive active).length

theorem value_evaluate (p : Program) (active : List NodeId) (e : Expr) :
    (p.evaluate active e).value = p.constant? active e :=
  (Guarded.agreement active).constantWith (p.value_evaluateVariable active) e

theorem value_evaluateEntry (p : Program) (entry : Metadatum) :
    (p.evaluateEntry [] entry).value = p.entryConstant? entry :=
  (Guarded.agreement []).entryWith (p.value_evaluateVariable []) entry

end Program

end CheckedThrows
