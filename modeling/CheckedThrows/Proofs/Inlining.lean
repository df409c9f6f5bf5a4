import CheckedThrows.Proofs.BoundedEvaluation
import Mathlib.Logic.Function.Iterate

/-!
# Constants in place of the names that refer to them

A name that refers to a constant variable can be replaced by the initial value
of the variable, and so can the names in there.  If no constant that can be
reached in this way refers back to itself, this comes to an end, and the
constant that an expression stands for is that of the expression without
references.
-/

namespace CheckedThrows

open List

namespace Program

structure MeantConstant (p : Program) where
  meant : p.MeantVariable
  init : Expr
  init_eq : meant.1.constantInit? = some init

def MeantConstant.id {p : Program} (c : p.MeantConstant) : NodeId :=
  c.meant.1.id.node

def reference? (p : Program) (node : NodeId) : Option p.MeantConstant :=
  (p.meantVariable? node).bind fun v =>
    match h : v.1.constantInit? with
    | some init => some ⟨v, init, h⟩
    | none => none

mutual

/-- The constant variables that the names in an expression refer to.  The code in
a function literal is no part of a constant and left aside. -/
def references (p : Program) : Expr → List p.MeantConstant
  | .name info _ => (p.reference? info.id).toList
  | .list _ items => p.referencesIn items
  | .call _ callee args _ => p.references callee ++ p.referencesIn args
  | .member _ e _ | .unary _ _ e | .step _ _ _ e | .throw _ e => p.references e
  | .index _ e e' | .binary _ _ e e' | .assign _ _ e e' => p.references e ++ p.references e'
  | .literal .. | .self _ | .rethrow _ | .lambda .. => []

def referencesIn (p : Program) : List Expr → List p.MeantConstant
  | [] => []
  | e :: rest => p.references e ++ p.referencesIn rest

end

mutual

/-- Replaces the names that refer to constant variables by their initial values. -/
def inlined (p : Program) : Expr → Expr
  | .name info name =>
    match p.reference? info.id with
    | some c => c.init
    | none => .name info name
  | .list info items => .list info (p.inlinedAll items)
  | .call info callee args creation => .call info (p.inlined callee) (p.inlinedAll args) creation
  | .member info e name => .member info (p.inlined e) name
  | .index info e e' => .index info (p.inlined e) (p.inlined e')
  | .binary info op e e' => .binary info op (p.inlined e) (p.inlined e')
  | .unary info op e => .unary info op (p.inlined e)
  | .step info op form e => .step info op form (p.inlined e)
  | .assign info op e e' => .assign info op (p.inlined e) (p.inlined e')
  | .throw info e => .throw info (p.inlined e)
  | .literal info value => .literal info value
  | .self info => .self info
  | .rethrow info => .rethrow info
  | .lambda info params body => .lambda info params body

def inlinedAll (p : Program) : List Expr → List Expr
  | [] => []
  | e :: rest => p.inlined e :: p.inlinedAll rest

end

inductive Reaches (p : Program) : Expr → p.MeantConstant → Prop
  | refers {e : Expr} {c : p.MeantConstant} : c ∈ p.references e → Reaches p e c
  | through {e : Expr} {c c' : p.MeantConstant} :
      c ∈ p.references e → Reaches p c.init c' → Reaches p e c'

/-- No constant that is reached from an expression leads back to itself. -/
def Acyclic (p : Program) (e : Expr) : Prop :=
  ∀ c c', p.Reaches e c → p.Reaches c.init c' → c'.id ≠ c.id

/-- An expression whose evaluation does not come upon the variables in the guard. -/
structure Unguarded (p : Program) (active : List NodeId) (e : Expr) : Prop where
  avoids : ∀ c, p.Reaches e c → c.id ∉ active
  acyclic : p.Acyclic e

section
variable {p : Program} {active guard : List NodeId} {e e' : Expr}

theorem Reaches.trans {c c' : p.MeantConstant} (h : p.Reaches e c) (h' : p.Reaches c.init c') :
    p.Reaches e c' := by
  induction h with
  | refers hc => exact .through hc h'
  | through hc _ ih => exact .through hc (ih h')

theorem Reaches.of_subset (hsub : p.references e' ⊆ p.references e) {c : p.MeantConstant}
    (h : p.Reaches e' c) : p.Reaches e c := by
  cases h with
  | refers hc => exact .refers (hsub hc)
  | through hc hreaches => exact .through (hsub hc) hreaches

theorem Unguarded.of_reaches (h : p.Unguarded active e)
    (hsub : ∀ c, p.Reaches e' c → p.Reaches e c) : p.Unguarded active e' :=
  ⟨fun c hc => h.avoids c (hsub c hc), fun c c' hc => h.acyclic c c' (hsub c hc)⟩

theorem Unguarded.part (h : p.Unguarded active e) (hsub : p.references e' ⊆ p.references e) :
    p.Unguarded active e' :=
  h.of_reaches fun _ => .of_subset hsub

/-- While the value of a constant is found, it is itself not come upon. -/
theorem Unguarded.enter (h : p.Unguarded active e) {c : p.MeantConstant} (hc : c ∈ p.references e) :
    c.id ∉ active ∧ p.Unguarded active c.init ∧ p.Unguarded (c.id :: active) c.init := by
  have hinit : p.Unguarded active c.init := h.of_reaches fun _ hreaches => .through hc hreaches
  refine ⟨h.avoids c (.refers hc), hinit, fun c' hc' hmem => ?_, hinit.acyclic⟩
  rcases mem_cons.mp hmem with hself | hactive
  · exact h.acyclic c c' (.refers hc) hc' hself
  · exact hinit.avoids c' hc' hactive

/-! ## Evaluation under other guards -/

theorem reference?_of_meantVariable? {node : NodeId} {c : p.MeantConstant}
    (hv : p.meantVariable? node = some c.meant) : p.reference? node = some c := by
  obtain ⟨v, init, hinit⟩ := c
  rw [reference?, hv, Option.bind_some]
  split
  next hinit' =>
    obtain rfl := Option.some.inj (hinit.symm.trans hinit')
    rfl
  next hnone => cases hinit.symm.trans hnone

theorem meantVariable?_of_reference? {node : NodeId} {c : p.MeantConstant}
    (hc : p.reference? node = some c) : p.meantVariable? node = some c.meant := by
  obtain ⟨v, hv, hinit⟩ := Option.bind_eq_some_iff.mp hc
  split at hinit
  · exact Option.some.inj hinit ▸ hv
  · cases hinit

variable {m : Type → Type} [Monad m] {enter enter' : p.MeantVariable → m (Option Constant)}

mutual

/-- Of the variables, only those constants matter that an expression refers to. -/
theorem constantWith_congr (hother : ∀ v, v.1.constantInit? = none → enter v = enter' v) :
    (e : Expr) → (∀ c ∈ p.references e, enter c.meant = enter' c.meant) →
      p.constantWith enter e = p.constantWith enter' e
  | .name info _, henter => by
    rw [constantWith, constantWith]
    cases hv : p.meantVariable? info.id with
    | none => rfl
    | some v =>
      cases hinit : v.1.constantInit? with
      | none => exact hother v hinit
      | some init =>
        have hc : p.reference? info.id = some ⟨v, init, hinit⟩ := reference?_of_meantVariable? hv
        exact henter ⟨v, init, hinit⟩ (by simp [references, hc])
  | .list _ items, henter => by
    rw [references] at henter
    rw [constantWith, constantWith, itemsWith_congr hother items henter]
  | .call _ _ args _, henter => by
    rw [references, forall_mem_append] at henter
    simp only [constantWith, fieldsWith_congr hother _ _ args henter.2]
  | .literal .., _ | .self _, _ | .member .., _ | .index .., _ | .binary .., _ | .unary .., _
  | .step .., _ | .assign .., _ | .throw .., _ | .rethrow _, _ | .lambda .., _ => rfl

theorem itemsWith_congr (hother : ∀ v, v.1.constantInit? = none → enter v = enter' v) :
    (es : List Expr) → (∀ c ∈ p.referencesIn es, enter c.meant = enter' c.meant) →
      p.itemsWith enter es = p.itemsWith enter' es
  | [], _ => rfl
  | item :: rest, henter => by
    rw [referencesIn, forall_mem_append] at henter
    rw [itemsWith, itemsWith, constantWith_congr hother item henter.1,
      itemsWith_congr hother rest henter.2]

theorem fieldsWith_congr (hother : ∀ v, v.1.constantInit? = none → enter v = enter' v)
    (fields : NameTable Constant) : (params : List ParameterElement) → (args : List Expr) →
      (∀ c ∈ p.referencesIn args, enter c.meant = enter' c.meant) →
      p.fieldsWith enter fields params args = p.fieldsWith enter' fields params args
  | param :: params, arg :: args, henter => by
    rw [referencesIn, forall_mem_append] at henter
    simp only [fieldsWith, constantWith_congr hother arg henter.1,
      fun fields => fieldsWith_congr hother fields params args henter.2]
  | [], [], _ | [], _ :: _, _ | _ :: _, [], _ => rfl

end

theorem constantVariable?_meant (c : p.MeantConstant) (hfree : c.id ∉ active) :
    p.constantVariable? active c.meant = p.constant? (c.id :: active) c.init := by
  rw [constantVariable?, c.init_eq]
  exact dif_neg hfree

theorem constant?_congr {active guard : List NodeId} (e : Expr) (h : p.Unguarded active e)
    (h' : p.Unguarded guard e) : p.constant? active e = p.constant? guard e := by
  refine congrArg Id.run (constantWith_congr (fun v hnone => ?_) e fun c hc => ?_)
  · rw [constantVariable?, constantVariable?, hnone]
  · obtain ⟨hfree, -, hinit⟩ := h.enter hc
    obtain ⟨hfree', -, hinit'⟩ := h'.enter hc
    have := p.inactive_cons_lt c.meant hfree
    rw [constantVariable?_meant c hfree, constantVariable?_meant c hfree']
    exact constant?_congr c.init hinit hinit'
termination_by (p.inactive active).length

/-! ## One round of replacements -/

mutual

theorem constantWith_inlined : (e : Expr) →
    (∀ c ∈ p.references e, p.constantWith enter c.init = enter c.meant) →
      p.constantWith enter (p.inlined e) = p.constantWith enter e
  | .name info name, henter => by
    rw [inlined]
    cases hc : p.reference? info.id with
    | none => rfl
    | some c =>
      rw [constantWith, meantVariable?_of_reference? hc]
      exact henter c (by simp [references, hc])
  | .list _ items, henter => by
    rw [references] at henter
    rw [inlined, constantWith, constantWith, itemsWith_inlined items henter]
  | .call _ _ args _, henter => by
    rw [references, forall_mem_append] at henter
    simp only [inlined, constantWith, fieldsWith_inlined _ _ args henter.2]
  | .literal .., _ | .self _, _ | .member .., _ | .index .., _ | .binary .., _ | .unary .., _
  | .step .., _ | .assign .., _ | .throw .., _ | .rethrow _, _ | .lambda .., _ => rfl

theorem itemsWith_inlined : (es : List Expr) →
    (∀ c ∈ p.referencesIn es, p.constantWith enter c.init = enter c.meant) →
      p.itemsWith enter (p.inlinedAll es) = p.itemsWith enter es
  | [], _ => rfl
  | item :: rest, henter => by
    rw [referencesIn, forall_mem_append] at henter
    rw [inlinedAll, itemsWith, itemsWith, constantWith_inlined item henter.1,
      itemsWith_inlined rest henter.2]

theorem fieldsWith_inlined (fields : NameTable Constant) : (params : List ParameterElement) →
    (args : List Expr) →
      (∀ c ∈ p.referencesIn args, p.constantWith enter c.init = enter c.meant) →
      p.fieldsWith enter fields params (p.inlinedAll args) = p.fieldsWith enter fields params args
  | param :: params, arg :: args, henter => by
    rw [referencesIn, forall_mem_append] at henter
    simp only [inlinedAll, fieldsWith, constantWith_inlined arg henter.1,
      fun fields => fieldsWith_inlined fields params args henter.2]
  | [], [], _ | [], _ :: _, _ | _ :: _, [], _ => rfl

end

theorem constant?_inlined (e : Expr) (h : p.Unguarded active e) :
    p.constant? active (p.inlined e) = p.constant? active e := by
  refine congrArg Id.run (constantWith_inlined e fun c hc => ?_)
  obtain ⟨hfree, hinit, hentered⟩ := h.enter hc
  rw [constantVariable?_meant c hfree]
  exact constant?_congr c.init hinit hentered

mutual

theorem references_inlined (p : Program) : (e : Expr) →
    p.references (p.inlined e) = (p.references e).flatMap fun c => p.references c.init
  | .name info name => by
    rw [inlined]
    cases hc : p.reference? info.id with
    | none => simp [references, hc]
    | some c => simp [references, hc]
  | .list _ items => by
    rw [inlined, references, references, referencesIn_inlined p items]
  | .call _ callee args _ => by
    rw [inlined, references, references, references_inlined p callee,
      referencesIn_inlined p args, flatMap_append]
  | .member _ e _ | .unary _ _ e | .step _ _ _ e | .throw _ e => by
    rw [inlined, references, references, references_inlined p e]
  | .index _ e e' | .binary _ _ e e' | .assign _ _ e e' => by
    rw [inlined, references, references, references_inlined p e, references_inlined p e',
      flatMap_append]
  | .literal .. | .self _ | .rethrow _ | .lambda .. => by simp [inlined, references]

theorem referencesIn_inlined (p : Program) : (es : List Expr) →
    p.referencesIn (p.inlinedAll es) = (p.referencesIn es).flatMap fun c => p.references c.init
  | [] => by simp [inlinedAll, referencesIn]
  | e :: rest => by
    rw [inlinedAll, referencesIn, referencesIn, references_inlined p e,
      referencesIn_inlined p rest, flatMap_append]

end

theorem Unguarded.inlined (h : p.Unguarded active e) : p.Unguarded active (p.inlined e) := by
  refine h.of_reaches fun c hreaches => ?_
  have hfirst : ∀ c ∈ p.references (p.inlined e), p.Reaches e c := by
    intro c hc
    rw [references_inlined] at hc
    obtain ⟨c₀, hc₀, hc⟩ := mem_flatMap.mp hc
    exact .through hc₀ (.refers hc)
  cases hreaches with
  | refers hc => exact hfirst c hc
  | through hc hreaches => exact (hfirst _ hc).trans hreaches

/-! ## All rounds -/

theorem constant?_iterate (h : p.Unguarded active e) (n : Nat) :
    p.constant? active (p.inlined^[n] e) = p.constant? active e := by
  induction n generalizing e with
  | zero => rfl
  | succ n ih =>
    rw [Function.iterate_succ_apply, ih h.inlined]
    exact constant?_inlined e h

theorem references_iterate_succ (p : Program) (e : Expr) (n : Nat) :
    p.references (p.inlined^[n + 1] e) =
      (p.references e).flatMap fun c => p.references (p.inlined^[n] c.init) := by
  induction n with
  | zero => exact references_inlined p e
  | succ n ih =>
    simp only [Function.iterate_succ_apply', references_inlined] at ih ⊢
    rw [ih, flatMap_assoc]

/-- Each round takes up constants that were not met before, and there are only as
many as variables that are not in the guard. -/
theorem references_iterate (h : p.Unguarded active e) {n : Nat}
    (hn : (p.inactive active).length ≤ n) : p.references (p.inlined^[n] e) = [] := by
  induction n generalizing active e with
  | zero =>
    rw [Function.iterate_zero_apply, eq_nil_iff_forall_not_mem]
    intro c hc
    have hless := p.inactive_cons_lt c.meant (h.enter hc).1
    omega
  | succ n ih =>
    rw [references_iterate_succ, flatMap_eq_nil_iff]
    intro c hc
    obtain ⟨hfree, -, hinit⟩ := h.enter hc
    have hless := p.inactive_cons_lt c.meant hfree
    exact ih hinit (by rw [MeantConstant.id]; omega)

theorem unguarded_of_references_eq_nil (hnone : p.references e = []) (guard : List NodeId) :
    p.Unguarded guard e := by
  have hreaches : ∀ c, ¬p.Reaches e c := by
    intro c hc
    cases hc with
    | refers hc => simp [hnone] at hc
    | through hc _ => simp [hnone] at hc
  exact ⟨fun c hc => (hreaches c hc).elim, fun c _ hc => (hreaches c hc).elim⟩

end

/-! ## Constants in order

Whether the constants that are reached refer to constants of smaller numbers
only can be computed. -/

def descends (p : Program) : Nat → NodeId → Expr → Bool
  | 0, _, e => (p.references e).isEmpty
  | rounds + 1, bound, e =>
    (p.references e).all fun c => c.id < bound && p.descends rounds c.id c.init

theorem Reaches.lt_of_descends {p : Program} {e : Expr} {c : p.MeantConstant}
    (hreaches : p.Reaches e c) {rounds : Nat} {bound : NodeId}
    (hdescends : p.descends rounds bound e = true) :
    c.id < bound ∧ ∃ n, p.descends n c.id c.init = true := by
  induction hreaches generalizing rounds bound with
  | refers hc =>
    cases rounds with
    | zero => simp_all [descends]
    | succ rounds =>
      simp only [descends, all_eq_true, Bool.and_eq_true, decide_eq_true_eq] at hdescends
      exact ⟨(hdescends _ hc).1, rounds, (hdescends _ hc).2⟩
  | through hc _ ih =>
    cases rounds with
    | zero => simp_all [descends]
    | succ rounds =>
      simp only [descends, all_eq_true, Bool.and_eq_true, decide_eq_true_eq] at hdescends
      obtain ⟨hlt, hexists⟩ := ih (hdescends _ hc).2
      exact ⟨Nat.lt_trans hlt (hdescends _ hc).1, hexists⟩

theorem acyclic_of_descends {p : Program} {rounds : Nat} {bound : NodeId} {e : Expr}
    (hdescends : p.descends rounds bound e = true) : p.Acyclic e := by
  intro c c' hc hc'
  obtain ⟨-, n, hinit⟩ := hc.lt_of_descends hdescends
  exact Nat.ne_of_lt (hc'.lt_of_descends hinit).1

/-- Every evaluation ends, at a depth of at most the variables that are not in the
guard, and leaves the guard as it was.  If no constant that is reached from an
expression is in the guard or leads back to itself, then the value is that of the
expression in which all references are replaced. -/
theorem evaluation_ends_and_inlines (p : Program) (active : List NodeId) :
    (∀ depth, (p.inactive active).length ≤ depth →
      (∀ e, (p.evaluateWithin depth e).run active = some ((p.evaluate active e).value, active)) ∧
      ∀ m, (p.entryWithin depth m).run active = some ((p.evaluateEntry active m).value, active)) ∧
    ∀ e, (∀ c, p.Reaches e c → c.id ∉ active) → p.Acyclic e →
      ∃ n, p.references (p.inlined^[n] e) = [] ∧
        ∀ guard, (p.evaluate guard (p.inlined^[n] e)).value = (p.evaluate active e).value := by
  refine ⟨fun depth hdepth => ⟨run_evaluateWithin hdepth, run_entryWithin hdepth⟩,
    fun e havoids hacyclic => ?_⟩
  have hunguarded : p.Unguarded active e := ⟨havoids, hacyclic⟩
  have hnone := references_iterate hunguarded (Nat.le_refl _)
  refine ⟨(p.inactive active).length, hnone, fun guard => ?_⟩
  rw [value_evaluate, value_evaluate, ← constant?_iterate hunguarded]
  exact constant?_congr _ (unguarded_of_references_eq_nil hnone guard)
    (unguarded_of_references_eq_nil hnone active)

/-! A constant that leads back to itself through a list and an object, and one
that is reached on three ways. -/

namespace ConstantsExample

def name (id : NodeId) (text : String) : Expr := .name (.bare id) text

def box (id : NodeId) (item : Expr) : Expr := .call (.bare id) (name (id + 1) "Box") [item] none

def constant (id : NodeId) (name : String) (init : Expr) : Declaration :=
  .variable ⟨.bare id, name, .topLevel, none, some init, { isConst := true }, []⟩

def boxClass : Declaration :=
  .class ⟨.bare 2, "Box",
    [.variable ⟨.bare 3, "item", .field, none, none, { isFinal := true }, []⟩,
      .function ⟨.bare 4, "", .constructor, none, [⟨.bare 5, "item", none, true, []⟩], none, none,
        { isConst := true }, []⟩],
    none, [], false, []⟩

def pair : Expr := .list (.bare 21) [name 22 "leaf", box 23 (name 25 "leaf")]

def tree : Expr := .list (.bare 31) [name 32 "pair", name 33 "leaf"]

def loop : Expr := .list (.bare 41) [name 42 "loop", box 43 (name 45 "back")]

def unit : CompilationUnit where
  id := 1
  extent := none
  uri := "a.dart"
  directives := []
  declarations := [boxClass, constant 10 "leaf" (.literal (.bare 11) (.bool true)),
    constant 20 "pair" pair, constant 30 "tree" tree, constant 40 "loop" loop,
    constant 50 "back" (.list (.bare 51) [name 52 "loop"])]
  comments := []

def program : Program := .ofUnits [unit]

theorem found : (program.references loop).map MeantConstant.id = [40, 50] ∧
    (program.references tree).map MeantConstant.id = [20, 10] ∧
    program.descends 2 30 tree = true ∧ (program.inactive []).length ≤ 8 := by
  decide +kernel

end ConstantsExample

open ConstantsExample in
theorem loop_ends_and_tree_inlines :
    ((program.references loop).map MeantConstant.id = [40, 50] ∧
      (program.evaluateWithin 8 loop).run [] = some ((program.evaluate [] loop).value, [])) ∧
    (program.references tree).map MeantConstant.id = [20, 10] ∧
      ∃ n, program.references (program.inlined^[n] tree) = [] ∧
        ∀ guard, (program.evaluate guard (program.inlined^[n] tree)).value =
          (program.evaluate [] tree).value := by
  obtain ⟨hloop, htree, hdescends, hdepth⟩ := found
  obtain ⟨hends, hinlines⟩ := evaluation_ends_and_inlines program []
  refine ⟨⟨hloop, (hends 8 hdepth).1 loop⟩, htree, ?_⟩
  exact hinlines tree (fun _ _ => not_mem_nil) (acyclic_of_descends hdescends)

end Program

end CheckedThrows
