import CheckedThrows.Ast.Numbering
import CheckedThrows.Proofs.Descent

/-!
# The numbers of a tree

The numbers of a numbered tree, listed in the order of a walk, are consecutive.
So no two places of a tree have the same number.  `FillsAfter` says that a
numbering step adds the next consecutive numbers to those given out before it,
and is closed under sequencing.
-/

namespace CheckedThrows

open List

namespace Node

/-- The numbers of a node and of everything below it, in pre-order. -/
def numbers (n : Node) : List NodeId :=
  n.id :: n.children.attach.flatMap fun c => numbers c.1.2
termination_by n.weight
decreasing_by exact weight_lt_of_mem_children c.2

theorem numbers_eq (n : Node) : n.numbers = n.id :: n.children.flatMap fun c => c.2.numbers := by
  rw [numbers, flatMap_subtype (g := fun c => c.2.numbers) (fun _ _ => rfl),
    unattach_attach]

end Node

namespace Place

theorem walkFrom_numbers (stack : List Place) :
    (walkFrom (fun _ => true) stack).map (fun p => p.node.id) =
      stack.flatMap fun p => p.node.numbers := by
  induction stack using walkFrom.induct (fun _ => true) with
  | case1 => simp [walkFrom]
  | case2 p stack ih =>
    rw [walkFrom, map_cons, ih, flatMap_cons, Node.numbers_eq]
    simp [children, flatMap_map]

theorem walk_numbers (root : Node) : (walk root).map (fun p => p.node.id) = root.numbers := by
  rw [walk, walkFrom_numbers]
  simp [node]

end Place

/-! ## Consecutive numbering -/

/-- A numbering step whose result has the numbers `before`, given out earlier,
and then the consecutive numbers from the next one on. -/
def FillsAfter {α : Type} (before : List NodeId) (step : Numbering α)
    (numbers : α → List NodeId) : Prop :=
  ∀ start, ∃ count, (step.run start).2 = start + count ∧
    numbers (step.run start).1 = before ++ List.range' start count

abbrev Fills {α : Type} (step : Numbering α) (numbers : α → List NodeId) : Prop :=
  FillsAfter [] step numbers

theorem FillsAfter.pure {α : Type} {before : List NodeId} {numbers : α → List NodeId} {a : α}
    (hnumbers : numbers a = before) :
    FillsAfter before (Pure.pure a : Numbering α) numbers := by
  intro start
  refine ⟨0, rfl, ?_⟩
  rw [range'_zero, append_nil]
  exact hnumbers

theorem FillsAfter.bind {α β : Type} {before : List NodeId} {step : Numbering α}
    {next : α → Numbering β} {numbersA : α → List NodeId} {numbersB : β → List NodeId}
    (hstep : Fills step numbersA)
    (hnext : ∀ a, FillsAfter (before ++ numbersA a) (next a) numbersB) :
    FillsAfter before (step >>= next) numbersB := by
  intro start
  obtain ⟨first, hfirst, hnumbers⟩ := hstep start
  obtain ⟨second, hsecond, hall⟩ :=
    hnext (step.run start).1 (step.run start).2
  refine ⟨first + second, ?_, ?_⟩
  · show ((next (step.run start).1).run (step.run start).2).2 = start + (first + second)
    rw [hsecond, hfirst, Nat.add_assoc]
  · show numbersB ((next (step.run start).1).run (step.run start).2).1 = _
    rw [hall, hnumbers, hfirst, nil_append, append_assoc, range'_append_1]

section
variable {α β γ κ : Type} {numbersA : α → List NodeId} {numbersB : β → List NodeId}
  {numbersC : γ → List NodeId} {numbers : κ → List NodeId}

theorem FillsAfter.map {step : Numbering α} {f : α → κ} (hstep : Fills step numbersA)
    (hnumbers : ∀ a, numbers (f a) = numbersA a) :
    Fills (do return f (← step)) numbers := by
  refine hstep.bind fun a => .pure ?_
  exact hnumbers a

theorem FillsAfter.map₂ {first : Numbering α} {second : Numbering β} {f : α → β → κ}
    (hfirst : Fills first numbersA) (hsecond : Fills second numbersB)
    (hnumbers : ∀ a b, numbers (f a b) = numbersA a ++ numbersB b) :
    Fills (do return f (← first) (← second)) numbers := by
  refine hfirst.bind fun a => hsecond.bind fun b => .pure ?_
  exact hnumbers a b

theorem FillsAfter.map₃ {first : Numbering α} {second : Numbering β} {third : Numbering γ}
    {f : α → β → γ → κ} (hfirst : Fills first numbersA) (hsecond : Fills second numbersB)
    (hthird : Fills third numbersC)
    (hnumbers : ∀ a b c, numbers (f a b c) = numbersA a ++ numbersB b ++ numbersC c) :
    Fills (do return f (← first) (← second) (← third)) numbers := by
  refine hfirst.bind fun a => hsecond.bind fun b => hthird.bind fun c => .pure ?_
  exact hnumbers a b c

end

theorem fills_mapM {α : Type} {number : α → Numbering α} {numbers : α → List NodeId}
    (hnumber : ∀ a, Fills (number a) numbers) (l : List α) :
    Fills (l.mapM number) fun l => l.flatMap numbers := by
  induction l with
  | nil =>
    exact .pure rfl
  | cons a l ih =>
    rw [mapM_cons]
    exact (hnumber a).map₂ ih fun _ _ => by simp

theorem fills_mapM_option {α : Type} {number : α → Numbering α} {numbers : α → List NodeId}
    (hnumber : ∀ a, Fills (number a) numbers) (o : Option α) :
    Fills (o.mapM number) fun o => o.toList.flatMap numbers := by
  cases o with
  | none => exact .pure rfl
  | some a => exact (hnumber a).map fun _ => by simp

theorem NodeInfo.fills_number (info : NodeInfo) : Fills info.number fun info => [info.id] := by
  intro start
  exact ⟨1, rfl, rfl⟩

attribute [local simp] Node.id Node.stmtId Expr.id Expr.info TypeRef.info Param.id Metadatum.id
  CatchClause.id VarDecl.id FunctionDecl.id ClassDecl.id Node.children Node.typeChildren
  Node.exprChildren Node.stmtChildren flatMap_map

theorem TypeName.fills_number (t : TypeName) :
    Fills t.number fun t => (Node.type (.named t)).numbers := by
  exact t.info.fills_number.map fun _ => (Node.numbers_eq _).trans (by simp)

mutual

theorem TypeRef.fills_number :
    (t : TypeRef) → Fills t.number fun t => (Node.type t).numbers
  | .named t => t.fills_number.map fun _ => rfl
  | .function info returns params nullable =>
    info.fills_number.map₃ (fills_numberType? returns) (fills_numberTypes params)
      fun _ _ _ => (Node.numbers_eq _).trans (by simp)

theorem fills_numberType? :
    (t : Option TypeRef) →
      Fills (numberType? t) fun t => t.toList.flatMap fun t => (Node.type t).numbers
  | none => .pure rfl
  | some t => t.fills_number.map fun t => by simp

theorem fills_numberTypes :
    (ts : List TypeRef) → Fills (numberTypes ts) fun ts => ts.flatMap fun t => (Node.type t).numbers
  | [] => .pure rfl
  | t :: ts => t.fills_number.map₂ (fills_numberTypes ts) fun _ _ => by simp

end

/-- By induction along the numbering, which goes through the parts of a node one after
the other. -/
theorem fills_bodies :
    (∀ e : Expr, Fills e.number fun e => (Node.expr e).numbers) ∧
    (∀ b : Body, Fills b.number fun b => (Node.ofBody b).numbers) ∧
    (∀ b : Block, Fills b.number fun b => (Node.block b).numbers) ∧
    (∀ ss, Fills (numberStmts ss) fun ss => ss.flatMap fun s => (Node.stmt s).numbers) ∧
    (∀ s : Stmt, Fills s.number fun s => (Node.stmt s).numbers) ∧
    (∀ d : FunctionDecl, Fills d.number fun d => (Node.functionDecl d).numbers) ∧
    (∀ ms, Fills (numberMetadata ms) fun ms => ms.flatMap fun m => (Node.metadatum m).numbers) ∧
    (∀ m : Metadatum, Fills m.number fun m => (Node.metadatum m).numbers) ∧
    (∀ es, Fills (numberExprs es) fun es => es.flatMap fun e => (Node.expr e).numbers) ∧
    (∀ b, Fills (numberBody? b) fun b => b.toList.flatMap fun b => (Node.ofBody b).numbers) ∧
    (∀ ps, Fills (numberParams ps) fun ps => ps.flatMap fun p => (Node.param p).numbers) ∧
    (∀ p : Param, Fills p.number fun p => (Node.param p).numbers) ∧
    (∀ d : VarDecl, Fills d.number fun d => (Node.varDecl d).numbers) ∧
    (∀ e, Fills (numberExpr? e) fun e => e.toList.flatMap fun e => (Node.expr e).numbers) ∧
    (∀ cs, Fills (numberCatches cs) fun cs => cs.flatMap fun c => (Node.clause c).numbers) ∧
    (∀ c : CatchClause, Fills c.number fun c => (Node.clause c).numbers) ∧
    ∀ b, Fills (numberBlock? b) fun b => b.toList.flatMap fun b => (Node.block b).numbers := by
  have hinfo := NodeInfo.fills_number
  have htype := fills_numberType?
  apply Expr.number.mutual_induct
  all_goals
    intros
    simp only [Expr.number, Body.number, Block.number, numberStmts, Stmt.number,
      FunctionDecl.number, numberMetadata, Metadatum.number, numberExprs, numberBody?,
      numberParams, Param.number, VarDecl.number, numberExpr?, numberCatches, CatchClause.number,
      numberBlock?]
    repeat refine FillsAfter.bind (by apply_assumption) fun _ => ?_
    refine .pure ?_
    first
      | rfl
      | simp; done
      | rw [Node.numbers_eq]; simp

theorem FunctionDecl.fills_number (d : FunctionDecl) :
    Fills d.number fun d => (Node.functionDecl d).numbers :=
  fills_bodies.2.2.2.2.2.1 d

theorem fills_numberMetadata (ms : List Metadatum) :
    Fills (numberMetadata ms) fun ms => ms.flatMap fun m => (Node.metadatum m).numbers :=
  fills_bodies.2.2.2.2.2.2.1 ms

theorem VarDecl.fills_number (d : VarDecl) : Fills d.number fun d => (Node.varDecl d).numbers :=
  fills_bodies.2.2.2.2.2.2.2.2.2.2.2.2.1 d

theorem Member.fills_number (m : Member) : Fills m.number fun m => (Node.ofMember m).numbers := by
  cases m with
  | «variable» d => exact d.fills_number.map fun _ => rfl
  | function d => exact d.fills_number.map fun _ => rfl

theorem ClassDecl.fills_number (d : ClassDecl) :
    Fills d.number fun d => (Node.class d).numbers := by
  refine d.info.fills_number.bind fun info => ?_
  refine (fills_mapM Member.fills_number d.members).bind fun members => ?_
  refine (fills_mapM_option TypeName.fills_number d.superclass).bind fun superclass => ?_
  refine (fills_mapM TypeName.fills_number d.interfaces).bind fun interfaces => ?_
  refine (fills_numberMetadata d.metadata).bind fun entries => .pure ?_
  rw [Node.numbers_eq]
  simp

theorem Declaration.fills_number (d : Declaration) :
    Fills d.number fun d => (Node.ofDeclaration d).numbers := by
  cases d with
  | «class» d => exact d.fills_number.map fun _ => rfl
  | function d => exact d.fills_number.map fun _ => rfl
  | «variable» d => exact d.fills_number.map fun _ => rfl

theorem Directive.fills_number (d : Directive) :
    Fills d.number fun d => (Node.directive d).numbers := by
  exact d.info.fills_number.map fun _ => (Node.numbers_eq _).trans (by simp)

/-! ## Places of a numbered tree -/

theorem CompilationUnit.numbers_number (u : CompilationUnit) (start : NodeId) :
    ∃ count, (u.number start).2 = start + count ∧
      (Node.unit (u.number start).1).numbers = List.range' start count := by
  have hfills :
      FillsAfter [start]
        (do
          let directives ← u.directives.mapM Directive.number
          let declarations ← u.declarations.mapM Declaration.number
          return { u with id := start, directives, declarations } : Numbering CompilationUnit)
        (fun u => (Node.unit u).numbers) := by
    refine (fills_mapM Directive.fills_number u.directives).bind fun directives => ?_
    refine (fills_mapM Declaration.fills_number u.declarations).bind fun declarations => .pure ?_
    rw [Node.numbers_eq]
    simp
  obtain ⟨count, hnext, hnumbers⟩ := hfills (start + 1)
  refine ⟨count + 1, ?_, ?_⟩
  · rw [CompilationUnit.number, hnext, Nat.add_assoc, Nat.add_comm 1]
  · rw [range'_succ]
    exact hnumbers

theorem CompilationUnit.nodup_numbers (u : CompilationUnit) (start : NodeId) :
    (Node.unit (u.number start).1).numbers.Nodup := by
  obtain ⟨count, _, hnumbers⟩ := u.numbers_number start
  rw [hnumbers]
  exact nodup_range'

theorem Place.eq_of_id_eq {u : CompilationUnit} {start : NodeId} {p q : Place}
    (hp : p ∈ walk (.unit (u.number start).1)) (hq : q ∈ walk (.unit (u.number start).1))
    (hid : p.node.id = q.node.id) : p = q := by
  have hnodup := u.nodup_numbers start
  rw [← walk_numbers] at hnodup
  exact inj_on_of_nodup_map hnodup hp hq hid

end CheckedThrows
