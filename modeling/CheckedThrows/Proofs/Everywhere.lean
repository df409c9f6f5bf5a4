import CheckedThrows.Proofs.Descent

/-!
# Everywhere in a tree

`n.All ok` says that a node and everything below it is `ok`.  It holds of a node
if the node itself is `ok` and `All` holds of its children, which are listed
here for every kind of node.
-/

namespace CheckedThrows

open List

variable {e target operand value cond : Expr} {body : Block} {d : VarDecl}

namespace Place

theorem exists_reaches_of_node_eq {keep : Node → Bool} {p q r : Place}
    (hreach : Reaches keep p q) (hnode : p.node = r.node) :
    ∃ s, Reaches keep r s ∧ s.node = q.node := by
  induction hreach with
  | self => exact ⟨r, .self, hnode.symm⟩
  | child _ hchild hkept ih =>
    obtain ⟨s, hs, heq⟩ := ih
    obtain ⟨c, hc, rfl⟩ := mem_children_iff.mp hchild
    exact ⟨.child s c.1 c.2, .child hs (mem_children_iff.mpr ⟨c, heq ▸ hc, rfl⟩) hkept, rfl⟩

end Place

namespace Node

def All (ok : Node → Prop) (root : Node) : Prop :=
  ∀ p ∈ Place.walk root, ok p.node

theorem all_iff {ok : Node → Prop} {n : Node} : n.All ok ↔ ok n ∧ ∀ c ∈ n.children, c.2.All ok := by
  simp only [All, Place.mem_walk_iff]
  constructor
  · intro h
    refine ⟨h _ .self, fun c hc p hp => ?_⟩
    obtain ⟨q, hq, heq⟩ := Place.exists_reaches_of_node_eq hp
      (show _ = (Place.child (.root n) c.1 c.2).node from rfl)
    have hchild : Place.child (.root n) c.1 c.2 ∈ (Place.root n).children :=
      Place.mem_children_iff.mpr ⟨c, hc, rfl⟩
    rw [← heq]
    exact h q ((Place.Reaches.child .self hchild rfl).trans hq)
  · rintro ⟨hself, hbelow⟩ p hp
    rcases hp.eq_or_child with rfl | ⟨q, hq, -, hp⟩
    · exact hself
    · obtain ⟨c, hc, rfl⟩ := Place.mem_children_iff.mp hq
      obtain ⟨r, hr, heq⟩ := Place.exists_reaches_of_node_eq hp
        (show _ = (Place.root c.2).node from rfl)
      rw [← heq]
      exact hbelow c hc r hr

def AllBelow (ok : Node → Prop) (n : Node) : Prop :=
  ∀ c ∈ n.children, c.2.All ok

section Kinds

variable {info : NodeInfo}
variable {ok : Node → Prop}

theorem all_expr :
    (Node.expr e).All ok ↔ ok (.expr e) ∧ ∀ c ∈ exprChildren e, c.2.All ok :=
  all_iff

theorem all_stmt {s : Stmt} :
    (Node.stmt s).All ok ↔ ok (.stmt s) ∧ ∀ c ∈ stmtChildren s, c.2.All ok :=
  all_iff

theorem all_type (hok : ∀ t, ok (.type t)) (t : TypeRef) : (Node.type t).All ok := by
  induction hweight : (Node.type t).weight using Nat.strongRecOn generalizing t with
  | ind n ih =>
    refine all_iff.mpr ⟨hok t, fun c hc => ?_⟩
    have hless := weight_lt_of_mem_children hc
    obtain ⟨t', heq⟩ : ∃ t', c.2 = .type t' := by
      cases t <;> simp [children, typeChildren] at hc
      rcases hc with ⟨t', _, rfl⟩ | ⟨t', _, rfl⟩ <;> exact ⟨t', rfl⟩
    rw [heq] at hless ⊢
    exact ih _ (hweight ▸ hless) t' rfl

theorem forall_mem_toList_map {α : Type} {P : Slot × Node → Prop} {f : α → Slot × Node}
    {o : Option α} : (∀ c ∈ o.toList.map f, P c) ↔ ∀ a ∈ o, P (f a) := by
  cases o <;> simp

theorem all_list {items : List Expr} :
    (Node.expr (.list info items)).All ok ↔ ok (.expr (.list info items)) ∧
      ∀ e ∈ items, (Node.expr e).All ok := by
  rw [all_expr, exprChildren, forall_mem_map]

theorem all_member {name : String} :
    (Node.expr (.member info target name)).All ok ↔ ok (.expr (.member info target name)) ∧
      (Node.expr target).All ok := by
  rw [all_expr, exprChildren, forall_mem_singleton]

theorem all_call {callee : Expr} {args : List Expr} {creation : Option CreationWord} :
    (Node.expr (.call info callee args creation)).All ok ↔
      ok (.expr (.call info callee args creation)) ∧ (Node.expr callee).All ok ∧
        ∀ e ∈ args, (Node.expr e).All ok := by
  rw [all_expr, exprChildren, forall_mem_cons, forall_mem_map]

theorem all_index {index : Expr} :
    (Node.expr (.index info target index)).All ok ↔ ok (.expr (.index info target index)) ∧
      (Node.expr target).All ok ∧ (Node.expr index).All ok := by
  rw [all_expr, exprChildren, forall_mem_cons, forall_mem_singleton]

theorem all_binary {op : BinaryOp} {left right : Expr} :
    (Node.expr (.binary info op left right)).All ok ↔ ok (.expr (.binary info op left right)) ∧
      (Node.expr left).All ok ∧ (Node.expr right).All ok := by
  rw [all_expr, exprChildren, forall_mem_cons, forall_mem_singleton]

theorem all_unary {op : UnaryOp} :
    (Node.expr (.unary info op operand)).All ok ↔ ok (.expr (.unary info op operand)) ∧
      (Node.expr operand).All ok := by
  rw [all_expr, exprChildren, forall_mem_singleton]

theorem all_step {op : StepOp} {form : StepForm} :
    (Node.expr (.step info op form operand)).All ok ↔ ok (.expr (.step info op form operand)) ∧
      (Node.expr operand).All ok := by
  rw [all_expr, exprChildren, forall_mem_singleton]

theorem all_assign {op : AssignOp} :
    (Node.expr (.assign info op target value)).All ok ↔
      ok (.expr (.assign info op target value)) ∧ (Node.expr target).All ok ∧
        (Node.expr value).All ok := by
  rw [all_expr, exprChildren, forall_mem_cons, forall_mem_singleton]

theorem all_throw :
    (Node.expr (.throw info value)).All ok ↔ ok (.expr (.throw info value)) ∧
      (Node.expr value).All ok := by
  rw [all_expr, exprChildren, forall_mem_singleton]

theorem all_lambda {params : List Param} {body : Body} :
    (Node.expr (.lambda info params body)).All ok ↔ ok (.expr (.lambda info params body)) ∧
      (∀ p ∈ params, (Node.param p).All ok) ∧ (Node.ofBody body).All ok := by
  rw [all_expr, exprChildren, forall_mem_append, forall_mem_map,
    forall_mem_singleton]

theorem all_param {p : Param} :
    (Node.param p).All ok ↔ ok (.param p) ∧ (∀ t ∈ p.type, (Node.type t).All ok) ∧
      ∀ m ∈ p.metadata, (Node.metadatum m).All ok := by
  rw [all_iff, children, forall_mem_append, forall_mem_toList_map, forall_mem_map]

theorem all_metadatum {m : Metadatum} :
    (Node.metadatum m).All ok ↔ ok (.metadatum m) ∧ ∀ e ∈ m.args.getD [], (Node.expr e).All ok := by
  rw [all_iff, children, forall_mem_map]

theorem all_clause {c : CatchClause} :
    (Node.clause c).All ok ↔ ok (.clause c) ∧ (∀ t ∈ c.exceptionType, (Node.type t).All ok) ∧
      (Node.block c.body).All ok := by
  rw [all_iff, children, forall_mem_append, forall_mem_toList_map, forall_mem_singleton]

theorem all_block {b : Block} :
    (Node.block b).All ok ↔ ok (.block b) ∧ ∀ s ∈ b.statements, (Node.stmt s).All ok := by
  rw [all_stmt, stmtChildren, forall_mem_map]

theorem all_exprStmt :
    (Node.stmt (.expr info e)).All ok ↔ ok (.stmt (.expr info e)) ∧ (Node.expr e).All ok := by
  rw [all_stmt, stmtChildren, forall_mem_singleton]

theorem all_ret {value : Option Expr} :
    (Node.stmt (.ret info value)).All ok ↔ ok (.stmt (.ret info value)) ∧
      ∀ e ∈ value, (Node.expr e).All ok := by
  rw [all_stmt, stmtChildren, forall_mem_toList_map]

theorem all_branch {thenBlock : Block} {elseBlock : Option Block} :
    (Node.stmt (.branch info cond thenBlock elseBlock)).All ok ↔
      ok (.stmt (.branch info cond thenBlock elseBlock)) ∧ (Node.expr cond).All ok ∧
        (Node.block thenBlock).All ok ∧ ∀ b ∈ elseBlock, (Node.block b).All ok := by
  rw [all_stmt, stmtChildren, forall_mem_cons, forall_mem_cons, forall_mem_toList_map]

theorem all_loop :
    (Node.stmt (.loop info cond body)).All ok ↔ ok (.stmt (.loop info cond body)) ∧
      (Node.expr cond).All ok ∧ (Node.block body).All ok := by
  rw [all_stmt, stmtChildren, forall_mem_cons, forall_mem_singleton]

theorem all_guarded {catches : List CatchClause} {finallyBlock : Option Block} :
    (Node.stmt (.guarded info body catches finallyBlock)).All ok ↔
      ok (.stmt (.guarded info body catches finallyBlock)) ∧ (Node.block body).All ok ∧
        (∀ c ∈ catches, (Node.clause c).All ok) ∧
        ∀ b ∈ finallyBlock, (Node.block b).All ok := by
  rw [all_stmt, stmtChildren, cons_append, forall_mem_cons, forall_mem_append,
    forall_mem_map, forall_mem_toList_map]

theorem allBelow_varDecl :
    (Node.varDecl d).AllBelow ok ↔ (∀ t ∈ d.type, (Node.type t).All ok) ∧
      (∀ e ∈ d.init, (Node.expr e).All ok) ∧ ∀ m ∈ d.metadata, (Node.metadatum m).All ok := by
  rw [AllBelow, children, stmtChildren, forall_mem_append, forall_mem_append,
    forall_mem_toList_map, forall_mem_toList_map, forall_mem_map, and_assoc]

theorem all_varDecl :
    (Node.varDecl d).All ok ↔ ok (.varDecl d) ∧ (∀ t ∈ d.type, (Node.type t).All ok) ∧
      (∀ e ∈ d.init, (Node.expr e).All ok) ∧ ∀ m ∈ d.metadata, (Node.metadatum m).All ok :=
  all_iff.trans (and_congr_right fun _ => allBelow_varDecl)

theorem allBelow_functionDecl {d : FunctionDecl} :
    (Node.functionDecl d).AllBelow ok ↔ (∀ p ∈ d.params, (Node.param p).All ok) ∧
      (∀ t ∈ d.returns, (Node.type t).All ok) ∧ (∀ b ∈ d.body, (Node.ofBody b).All ok) ∧
      ∀ m ∈ d.metadata, (Node.metadatum m).All ok := by
  rw [AllBelow, children, stmtChildren, forall_mem_append, forall_mem_append,
    forall_mem_append, forall_mem_map, forall_mem_toList_map, forall_mem_toList_map,
    forall_mem_map, and_assoc, and_assoc]

theorem all_functionDecl {d : FunctionDecl} :
    (Node.functionDecl d).All ok ↔ ok (.functionDecl d) ∧
      (∀ p ∈ d.params, (Node.param p).All ok) ∧ (∀ t ∈ d.returns, (Node.type t).All ok) ∧
      (∀ b ∈ d.body, (Node.ofBody b).All ok) ∧
      ∀ m ∈ d.metadata, (Node.metadatum m).All ok :=
  all_iff.trans (and_congr_right fun _ => allBelow_functionDecl)

theorem all_class {d : ClassDecl} :
    (Node.class d).All ok ↔ ok (.class d) ∧ (∀ m ∈ d.members, (Node.ofMember m).All ok) ∧
      (∀ t ∈ d.superclass, (Node.type (.named t)).All ok) ∧
      (∀ t ∈ d.interfaces, (Node.type (.named t)).All ok) ∧
      ∀ m ∈ d.metadata, (Node.metadatum m).All ok := by
  rw [all_iff, children, forall_mem_append, forall_mem_append,
    forall_mem_append, forall_mem_map, forall_mem_toList_map, forall_mem_map,
    forall_mem_map, and_assoc, and_assoc]

theorem all_directive {d : Directive} : (Node.directive d).All ok ↔ ok (.directive d) := by
  rw [all_iff]
  simp [children]

theorem all_unit {u : CompilationUnit} :
    (Node.unit u).All ok ↔ ok (.unit u) ∧ (∀ d ∈ u.directives, (Node.directive d).All ok) ∧
      ∀ d ∈ u.declarations, (Node.ofDeclaration d).All ok := by
  rw [all_iff, children, forall_mem_append, forall_mem_map, forall_mem_map]

end Kinds

end Node

end CheckedThrows
