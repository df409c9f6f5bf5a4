import CheckedThrows.Ast.Basic
import CheckedThrows.Total

/-!
# Nodes and places

Everything of a tree that has a number is a node.  A node knows its children,
each with the role it has there; a `Place` is a node together with the way down
to it, so that what stands around it can be asked step by step.  Trees are
walked in pre-order with a stack of the places still to visit.
-/

namespace CheckedThrows

inductive Node
  | unit (unit : CompilationUnit)
  | directive (directive : Directive)
  | class (decl : ClassDecl)
  | param (param : Param)
  | metadatum (entry : Metadatum)
  | type (type : TypeRef)
  | clause (clause : CatchClause)
  /-- Blocks and the declarations of functions and variables are statements. -/
  | stmt (stmt : Stmt)
  | expr (expr : Expr)

/-- What a child is to its parent, as far as it matters. -/
inductive Slot
  /-- What a call calls. -/
  | callee
  /-- What an assignment or a step writes to. -/
  | target
  /-- The protected part of a `try`. -/
  | guarded
  | other
  deriving DecidableEq, Repr

namespace Node

@[match_pattern] abbrev block (b : Block) : Node := .stmt (.block b)

@[match_pattern] abbrev functionDecl (d : FunctionDecl) : Node := .stmt (.function d)

@[match_pattern] abbrev varDecl (d : VarDecl) : Node := .stmt (.variable d)

def ofMember : Member → Node
  | .variable d => .varDecl d
  | .function d => .functionDecl d

def ofDeclaration : Declaration → Node
  | .class d => .class d
  | .function d => .functionDecl d
  | .variable d => .varDecl d

def ofBody : Body → Node
  | .block b => .block b
  | .value e => .expr e

def stmtId : Stmt → NodeId
  | .block b => b.info.id
  | .expr info _ | .ret info _ | .branch info _ _ _ | .loop info _ _ | .leave info
  | .next info | .guarded info _ _ _ => info.id
  | .variable d => d.id
  | .function d => d.id

def stmtExtent : Stmt → Extent
  | .block b => b.info.extent
  | .expr info _ | .ret info _ | .branch info _ _ _ | .loop info _ _ | .leave info
  | .next info | .guarded info _ _ _ => info.extent
  | .variable d => d.info.extent
  | .function d => d.info.extent

def id : Node → NodeId
  | .unit u => u.id
  | .directive d => d.info.id
  | .class d => d.id
  | .param p => p.id
  | .metadatum m => m.id
  | .type t => t.info.id
  | .clause c => c.id
  | .stmt s => stmtId s
  | .expr e => e.id

/-- Where a node stands; only a unit without tokens stands nowhere. -/
def extent? : Node → Option Extent
  | .unit u => u.extent
  | .directive d => some d.info.extent
  | .class d => some d.info.extent
  | .param p => some p.info.extent
  | .metadatum m => some m.info.extent
  | .type t => some t.info.extent
  | .clause c => some c.info.extent
  | .stmt s => some (stmtExtent s)
  | .expr e => some e.extent

def span (uri : String) (n : Node) : Span :=
  match n.extent? with
  | some e => .ofExtent uri e
  | none => { file := uri }

def isMetadatum : Node → Bool
  | .metadatum _ => true
  | _ => false

def typeChildren : TypeRef → List Node
  | .named _ => []
  | .function _ returns params _ => returns.toList.map .type ++ params.map .type

def stmtChildren : Stmt → List (Slot × Node)
  | .block b => b.statements.map fun s => (.other, .stmt s)
  | .expr _ e => [(.other, .expr e)]
  | .ret _ value => value.toList.map fun e => (.other, .expr e)
  | .branch _ cond thenBlock elseBlock =>
    (.other, .expr cond) :: (.other, .block thenBlock) ::
      elseBlock.toList.map fun b => (.other, .block b)
  | .loop _ cond body => [(.other, .expr cond), (.other, .block body)]
  | .leave _ | .next _ => []
  | .guarded _ body catches finallyBlock =>
    (.guarded, .block body) :: (catches.map fun c => (.other, .clause c)) ++
      finallyBlock.toList.map fun b => (.other, .block b)
  | .variable d =>
    (d.type.toList.map fun t => (.other, .type t)) ++
      (d.init.toList.map fun e => (.other, .expr e)) ++
      d.metadata.map fun m => (.other, .metadatum m)
  | .function d =>
    (d.params.map fun p => (.other, .param p)) ++
      (d.returns.toList.map fun t => (.other, .type t)) ++
      (d.body.toList.map fun b => (.other, ofBody b)) ++
      d.metadata.map fun m => (.other, .metadatum m)

def exprChildren : Expr → List (Slot × Node)
  | .name .. | .literal .. | .self _ | .rethrow _ => []
  | .list _ items => items.map fun e => (.other, .expr e)
  | .member _ target _ => [(.other, .expr target)]
  | .call _ callee args _ => (.callee, .expr callee) :: args.map fun e => (.other, .expr e)
  | .index _ target index => [(.other, .expr target), (.other, .expr index)]
  | .binary _ _ left right => [(.other, .expr left), (.other, .expr right)]
  | .unary _ _ operand => [(.other, .expr operand)]
  | .step _ _ _ operand => [(.target, .expr operand)]
  | .assign _ _ target value => [(.target, .expr target), (.other, .expr value)]
  | .throw _ value => [(.other, .expr value)]
  | .lambda _ params body =>
    (params.map fun p => (.other, .param p)) ++ [(.other, ofBody body)]

/-- The children of a node, in the order in which they are numbered. -/
def children : Node → List (Slot × Node)
  | .unit u =>
    (u.directives.map fun d => (.other, .directive d)) ++
      u.declarations.map fun d => (.other, ofDeclaration d)
  | .directive _ => []
  | .class d =>
    (d.members.map fun m => (.other, ofMember m)) ++
      (d.superclass.toList.map fun t => (.other, .type (.named t))) ++
      (d.interfaces.map fun t => (.other, .type (.named t))) ++
      d.metadata.map fun m => (.other, .metadatum m)
  | .param p =>
    (p.type.toList.map fun t => (.other, .type t)) ++
      p.metadata.map fun m => (.other, .metadatum m)
  | .metadatum m => (m.args.getD []).map fun e => (.other, .expr e)
  | .type t => (typeChildren t).map fun n => (.other, n)
  | .clause c =>
    (c.exceptionType.toList.map fun t => (.other, .type t)) ++ [(.other, .block c.body)]
  | .stmt s => stmtChildren s
  | .expr e => exprChildren e

noncomputable def weight : Node → Nat
  | .unit u => sizeOf u
  | .directive d => sizeOf d
  | .class d => sizeOf d
  | .param p => sizeOf p
  | .metadatum m => sizeOf m
  | .type t => sizeOf t
  | .clause c => sizeOf c
  | .stmt s => sizeOf s
  | .expr e => sizeOf e

noncomputable def totalWeight (ns : List (Slot × Node)) : Nat :=
  total (fun n => n.2.weight) ns

@[simp]
theorem totalWeight_nil : totalWeight [] = 0 := rfl

@[simp]
theorem totalWeight_cons (n : Slot × Node) (ns : List (Slot × Node)) :
    totalWeight (n :: ns) = n.2.weight + totalWeight ns := rfl

@[simp]
theorem totalWeight_append (ms ns : List (Slot × Node)) :
    totalWeight (ms ++ ns) = totalWeight ms + totalWeight ns :=
  total_append _ ms ns

theorem totalWeight_map_lt {α : Type} [SizeOf α] (f : α → Slot × Node)
    (hf : ∀ a, (f a).2.weight ≤ sizeOf a + 1) (l : List α) :
    totalWeight (l.map f) < sizeOf l := by
  induction l with
  | nil => simp
  | cons a l ih =>
    have := hf a
    simp only [List.map_cons, totalWeight_cons, List.cons.sizeOf_spec]
    omega

theorem totalWeight_toList_map_le {α : Type} [SizeOf α] (f : α → Slot × Node)
    (hf : ∀ a, (f a).2.weight ≤ sizeOf a + 1) (o : Option α) :
    totalWeight (o.toList.map f) ≤ sizeOf o := by
  cases o with
  | none => simp
  | some a =>
    have := hf a
    simp only [Option.toList_some, List.map_cons, List.map_nil, totalWeight_cons,
      totalWeight_nil, Option.some.sizeOf_spec]
    omega

theorem sizeOf_info_pos (info : NodeInfo) : 0 < sizeOf info := by
  obtain ⟨extent, id⟩ := info
  rw [NodeInfo.mk.sizeOf_spec]
  omega

theorem weight_named_le (t : TypeName) : (Node.type (.named t)).weight ≤ sizeOf t + 1 := by
  rw [weight, TypeRef.named.sizeOf_spec]
  omega

theorem weight_ofMember_le (m : Member) : (ofMember m).weight ≤ sizeOf m := by
  cases m <;> simp [ofMember, weight]

theorem weight_ofDeclaration_le (d : Declaration) : (ofDeclaration d).weight ≤ sizeOf d := by
  cases d <;> simp [ofDeclaration, weight]

theorem weight_ofBody_le (b : Body) : (ofBody b).weight ≤ sizeOf b := by
  cases b <;> simp [ofBody, weight]

theorem totalWeight_types (ts : List TypeRef) :
    totalWeight ((ts.map Node.type).map fun n => (Slot.other, n)) < sizeOf ts := by
  rw [List.map_map]
  exact totalWeight_map_lt _ (by simp [weight]) ts

theorem totalWeight_typeChildren (t : TypeRef) :
    totalWeight ((typeChildren t).map fun n => (Slot.other, n)) < sizeOf t := by
  cases t with
  | named t =>
    simp only [typeChildren, List.map_nil, totalWeight_nil, TypeRef.named.sizeOf_spec]
    omega
  | function info returns params nullable =>
    have hp := totalWeight_types params
    cases returns with
    | none =>
      simp only [typeChildren, Option.toList_none, List.map_nil, List.nil_append,
        TypeRef.function.sizeOf_spec]
      omega
    | some r =>
      simp only [typeChildren, Option.toList_some, List.map_cons, List.map_nil,
        List.cons_append, List.nil_append, totalWeight_cons, weight,
        TypeRef.function.sizeOf_spec, Option.some.sizeOf_spec]
      omega

theorem totalWeight_metadata (ms : List Metadatum) :
    totalWeight (ms.map fun m => (Slot.other, Node.metadatum m)) < sizeOf ms :=
  totalWeight_map_lt _ (by simp [weight]) ms

theorem totalWeight_params (ps : List Param) :
    totalWeight (ps.map fun p => (Slot.other, Node.param p)) < sizeOf ps :=
  totalWeight_map_lt _ (by simp [weight]) ps

theorem totalWeight_exprs (es : List Expr) :
    totalWeight (es.map fun e => (Slot.other, Node.expr e)) < sizeOf es :=
  totalWeight_map_lt _ (by simp [weight]) es

theorem totalWeight_expr? (e : Option Expr) :
    totalWeight (e.toList.map fun e => (Slot.other, Node.expr e)) ≤ sizeOf e :=
  totalWeight_toList_map_le _ (by simp [weight]) e

theorem totalWeight_type? (t : Option TypeRef) :
    totalWeight (t.toList.map fun t => (Slot.other, Node.type t)) ≤ sizeOf t :=
  totalWeight_toList_map_le _ (by simp [weight]) t

theorem totalWeight_block? (b : Option Block) :
    totalWeight (b.toList.map fun b => (Slot.other, Node.block b)) ≤ sizeOf b :=
  totalWeight_toList_map_le _ (fun b => by
    rw [weight, Stmt.block.sizeOf_spec]
    omega) b

theorem totalWeight_body? (b : Option Body) :
    totalWeight (b.toList.map fun b => (Slot.other, ofBody b)) ≤ sizeOf b :=
  totalWeight_toList_map_le _ (fun b => Nat.le_succ_of_le (weight_ofBody_le b)) b

theorem totalWeight_stmtChildren (s : Stmt) : totalWeight (stmtChildren s) < sizeOf s := by
  cases s with
  | block b =>
    obtain ⟨info, statements⟩ := b
    have := totalWeight_map_lt (fun s => (Slot.other, Node.stmt s)) (by simp [weight]) statements
    simp only [stmtChildren, Stmt.block.sizeOf_spec, Block.mk.sizeOf_spec]
    omega
  | expr info e =>
    simp only [stmtChildren, totalWeight_cons, totalWeight_nil, weight, Stmt.expr.sizeOf_spec]
    omega
  | ret info value =>
    have := totalWeight_expr? value
    simp only [stmtChildren, Stmt.ret.sizeOf_spec]
    omega
  | branch info cond thenBlock elseBlock =>
    have := sizeOf_info_pos info
    have := totalWeight_block? elseBlock
    simp only [stmtChildren, totalWeight_cons, weight, Stmt.branch.sizeOf_spec,
      Stmt.block.sizeOf_spec]
    omega
  | loop info cond body =>
    have := sizeOf_info_pos info
    simp only [stmtChildren, totalWeight_cons, totalWeight_nil, weight, Stmt.loop.sizeOf_spec,
      Stmt.block.sizeOf_spec]
    omega
  | leave info =>
    simp only [stmtChildren, totalWeight_nil, Stmt.leave.sizeOf_spec]
    omega
  | next info =>
    simp only [stmtChildren, totalWeight_nil, Stmt.next.sizeOf_spec]
    omega
  | guarded info body catches finallyBlock =>
    have := totalWeight_block? finallyBlock
    have := totalWeight_map_lt (fun c => (Slot.other, Node.clause c)) (by simp [weight]) catches
    simp only [stmtChildren, List.cons_append, totalWeight_cons, totalWeight_append, weight,
      Stmt.guarded.sizeOf_spec, Stmt.block.sizeOf_spec]
    omega
  | «variable» d =>
    obtain ⟨info, name, kind, type, init, modifiers, entries⟩ := d
    have := totalWeight_type? type
    have := totalWeight_expr? init
    have := totalWeight_metadata entries
    simp only [stmtChildren, totalWeight_append, Stmt.variable.sizeOf_spec,
      VarDecl.mk.sizeOf_spec]
    omega
  | function d =>
    obtain ⟨info, name, kind, qualifier, params, returns, body, modifiers, entries⟩ := d
    have := totalWeight_params params
    have := totalWeight_type? returns
    have := totalWeight_body? body
    have := totalWeight_metadata entries
    simp only [stmtChildren, totalWeight_append, Stmt.function.sizeOf_spec,
      FunctionDecl.mk.sizeOf_spec]
    omega

theorem totalWeight_exprChildren (e : Expr) : totalWeight (exprChildren e) < sizeOf e := by
  cases e with
  | name info name =>
    simp only [exprChildren, totalWeight_nil, Expr.name.sizeOf_spec]
    omega
  | literal info value =>
    simp only [exprChildren, totalWeight_nil, Expr.literal.sizeOf_spec]
    omega
  | list info items =>
    have := totalWeight_exprs items
    simp only [exprChildren, Expr.list.sizeOf_spec]
    omega
  | self info =>
    simp only [exprChildren, totalWeight_nil, Expr.self.sizeOf_spec]
    omega
  | member info target name =>
    simp only [exprChildren, totalWeight_cons, totalWeight_nil, weight,
      Expr.member.sizeOf_spec]
    omega
  | call info callee args creation =>
    have := totalWeight_exprs args
    simp only [exprChildren, totalWeight_cons, weight, Expr.call.sizeOf_spec]
    omega
  | index info target index =>
    simp only [exprChildren, totalWeight_cons, totalWeight_nil, weight, Expr.index.sizeOf_spec]
    omega
  | binary info op left right =>
    simp only [exprChildren, totalWeight_cons, totalWeight_nil, weight,
      Expr.binary.sizeOf_spec]
    omega
  | unary info op operand =>
    simp only [exprChildren, totalWeight_cons, totalWeight_nil, weight, Expr.unary.sizeOf_spec]
    omega
  | step info op form operand =>
    simp only [exprChildren, totalWeight_cons, totalWeight_nil, weight, Expr.step.sizeOf_spec]
    omega
  | assign info op target value =>
    simp only [exprChildren, totalWeight_cons, totalWeight_nil, weight,
      Expr.assign.sizeOf_spec]
    omega
  | throw info value =>
    simp only [exprChildren, totalWeight_cons, totalWeight_nil, weight, Expr.throw.sizeOf_spec]
    omega
  | rethrow info =>
    simp only [exprChildren, totalWeight_nil, Expr.rethrow.sizeOf_spec]
    omega
  | lambda info params body =>
    have := totalWeight_params params
    have := weight_ofBody_le body
    simp only [exprChildren, totalWeight_append, totalWeight_cons, totalWeight_nil,
      Expr.lambda.sizeOf_spec]
    omega

theorem totalWeight_children_lt (n : Node) : totalWeight n.children < n.weight := by
  cases n with
  | unit u =>
    obtain ⟨id, extent, uri, directives, declarations, comments⟩ := u
    have := totalWeight_map_lt (fun d => (Slot.other, Node.directive d)) (by simp [weight])
      directives
    have := totalWeight_map_lt (fun d => (Slot.other, ofDeclaration d))
      (fun d => Nat.le_succ_of_le (weight_ofDeclaration_le d)) declarations
    simp only [children, totalWeight_append, weight, CompilationUnit.mk.sizeOf_spec]
    omega
  | directive d =>
    obtain ⟨info, kind, uri⟩ := d
    simp only [children, totalWeight_nil, weight, Directive.mk.sizeOf_spec]
    omega
  | «class» d =>
    obtain ⟨info, name, members, superclass, interfaces, isAbstract, entries⟩ := d
    have := totalWeight_map_lt (fun m => (Slot.other, ofMember m))
      (fun m => Nat.le_succ_of_le (weight_ofMember_le m)) members
    have := totalWeight_toList_map_le (fun t => (Slot.other, Node.type (.named t)))
      weight_named_le superclass
    have := totalWeight_map_lt (fun t => (Slot.other, Node.type (.named t)))
      weight_named_le interfaces
    have := totalWeight_metadata entries
    simp only [children, totalWeight_append, weight, ClassDecl.mk.sizeOf_spec]
    omega
  | param p =>
    obtain ⟨info, name, type, isFieldFormal, entries⟩ := p
    have := totalWeight_type? type
    have := totalWeight_metadata entries
    simp only [children, totalWeight_append, weight, Param.mk.sizeOf_spec]
    omega
  | metadatum m =>
    obtain ⟨info, name, args⟩ := m
    cases args with
    | none =>
      simp only [children, Option.getD_none, List.map_nil, totalWeight_nil, weight,
        Metadatum.mk.sizeOf_spec]
      omega
    | some args =>
      have := totalWeight_exprs args
      simp only [children, Option.getD_some, weight, Metadatum.mk.sizeOf_spec,
        Option.some.sizeOf_spec]
      omega
  | type t => exact totalWeight_typeChildren t
  | clause c =>
    obtain ⟨info, type, binder, stackBinder, body⟩ := c
    have := sizeOf_info_pos info
    have := totalWeight_type? type
    simp only [children, totalWeight_append, totalWeight_cons, totalWeight_nil, weight,
      Stmt.block.sizeOf_spec, CatchClause.mk.sizeOf_spec]
    omega
  | stmt s => exact totalWeight_stmtChildren s
  | expr e => exact totalWeight_exprChildren e

end Node

/-- A node and the way down to it. -/
inductive Place
  | root (node : Node)
  | child (parent : Place) (slot : Slot) (node : Node)

namespace Place

def node : Place → Node
  | .root n => n
  | .child _ _ n => n

def slot : Place → Slot
  | .root _ => .other
  | .child _ slot _ => slot

def parent? : Place → Option Place
  | .root _ => none
  | .child parent _ _ => some parent

def ancestors : Place → List Node
  | .root _ => []
  | .child parent _ _ => parent.node :: parent.ancestors

def children (p : Place) : List Place :=
  p.node.children.map fun c => .child p c.1 c.2

noncomputable def pendingWeight (stack : List Place) : Nat :=
  total (fun p => p.node.weight) stack

theorem pendingWeight_children (p : Place) (keep : Node → Bool) :
    pendingWeight (p.children.filter fun c => keep c.node) < p.node.weight := by
  refine Nat.lt_of_le_of_lt ?_ (Node.totalWeight_children_lt p.node)
  unfold children pendingWeight Node.totalWeight
  induction p.node.children with
  | nil => exact Nat.le_refl _
  | cons c cs ih =>
    simp only [List.map_cons, List.filter_cons, total]
    split
    · exact Nat.add_le_add_left ih _
    · exact Nat.le_add_left_of_le ih

/-- Visits the places on a stack and what is below them, in pre-order; below a
place, only children that are to be kept are visited. -/
def walkFrom (keep : Node → Bool) : List Place → List Place
  | [] => []
  | p :: stack =>
    p :: walkFrom keep ((p.children.filter fun c => keep c.node) ++ stack)
termination_by stack => pendingWeight stack
decreasing_by
  have := pendingWeight_children p keep
  simp only [pendingWeight, total_append, total] at *
  omega

def walk (root : Node) : List Place :=
  walkFrom (fun _ => true) [.root root]

/-- Every place from a root down, without metadata and what is below it. -/
def walkCode (root : Node) : List Place :=
  walkFrom (fun n => !n.isMetadatum) [.root root]

end Place

end CheckedThrows
