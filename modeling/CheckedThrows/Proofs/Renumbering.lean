import CheckedThrows.Proofs.Leaves
import CheckedThrows.Proofs.Numbers

/-!
# Trees with other labels

The labels of a tree are its numbers and extents, and the comments of a unit.
Numbering a tree changes nothing but its numbers, and a tree that is numbered
from a later start on has the same numbers, all shifted.
-/

namespace CheckedThrows

open List

variable {start : NodeId}

structure Relabeling where
  node : NodeId → NodeId
  extent : Extent → Extent
  comments : List Comment → List Comment

namespace Relabeling

def numbers (ρ : NodeId → NodeId) : Relabeling := ⟨ρ, id, id⟩

def same : Relabeling := ⟨id, id, id⟩

def still (ρ : Relabeling) : Relabeling := { ρ with node := id }

end Relabeling

section Relabel
variable (ρ : Relabeling)

def NodeInfo.relabel (info : NodeInfo) : NodeInfo :=
  ⟨ρ.extent info.extent, ρ.node info.id⟩

def Qualifier.relabel (q : Qualifier) : Qualifier :=
  { q with extent := ρ.extent q.extent }

@[simp]
theorem Qualifier.relabel_still : Qualifier.relabel ρ.still = Qualifier.relabel ρ := rfl

def TypeName.relabel (t : TypeName) : TypeName :=
  { t with info := t.info.relabel ρ }

mutual

def TypeRef.relabel : TypeRef → TypeRef
  | .named type => .named (type.relabel ρ)
  | .function info returns params nullable =>
    .function (info.relabel ρ) (relabelType? returns) (relabelTypes params) nullable

def relabelType? : Option TypeRef → Option TypeRef
  | none => none
  | some type => some type.relabel

def relabelTypes : List TypeRef → List TypeRef
  | [] => []
  | type :: types => type.relabel :: relabelTypes types

end

mutual

def Expr.relabel : Expr → Expr
  | .name info name => .name (info.relabel ρ) name
  | .literal info value => .literal (info.relabel ρ) value
  | .list info items => .list (info.relabel ρ) (relabelExprs items)
  | .self info => .self (info.relabel ρ)
  | .member info target name => .member (info.relabel ρ) target.relabel name
  | .call info callee args creation =>
    .call (info.relabel ρ) callee.relabel (relabelExprs args) creation
  | .index info target index => .index (info.relabel ρ) target.relabel index.relabel
  | .binary info op left right => .binary (info.relabel ρ) op left.relabel right.relabel
  | .unary info op operand => .unary (info.relabel ρ) op operand.relabel
  | .step info op form operand => .step (info.relabel ρ) op form operand.relabel
  | .assign info op target value => .assign (info.relabel ρ) op target.relabel value.relabel
  | .throw info value => .throw (info.relabel ρ) value.relabel
  | .rethrow info => .rethrow (info.relabel ρ)
  | .lambda info params body => .lambda (info.relabel ρ) (relabelParams params) body.relabel

def relabelExprs : List Expr → List Expr
  | [] => []
  | e :: es => e.relabel :: relabelExprs es

def relabelExpr? : Option Expr → Option Expr
  | none => none
  | some e => some e.relabel

def Body.relabel : Body → Body
  | .block b => .block b.relabel
  | .value e => .value e.relabel

def relabelBody? : Option Body → Option Body
  | none => none
  | some b => some b.relabel

def Param.relabel : Param → Param
  | ⟨info, name, type, isFieldFormal, entries⟩ =>
    ⟨info.relabel ρ, name, relabelType? ρ type, isFieldFormal, relabelMetadata entries⟩

def relabelParams : List Param → List Param
  | [] => []
  | p :: ps => p.relabel :: relabelParams ps

def Metadatum.relabel : Metadatum → Metadatum
  | ⟨info, name, none⟩ => ⟨info.relabel ρ, name, none⟩
  | ⟨info, name, some args⟩ => ⟨info.relabel ρ, name, some (relabelExprs args)⟩

def relabelMetadata : List Metadatum → List Metadatum
  | [] => []
  | m :: ms => m.relabel :: relabelMetadata ms

def Block.relabel : Block → Block
  | ⟨info, statements⟩ => ⟨info.relabel ρ, relabelStmts statements⟩

def relabelBlock? : Option Block → Option Block
  | none => none
  | some b => some b.relabel

def relabelStmts : List Stmt → List Stmt
  | [] => []
  | s :: ss => s.relabel :: relabelStmts ss

def Stmt.relabel : Stmt → Stmt
  | .block b => .block b.relabel
  | .expr info e => .expr (info.relabel ρ) e.relabel
  | .ret info value => .ret (info.relabel ρ) (relabelExpr? value)
  | .branch info cond thenBlock elseBlock =>
    .branch (info.relabel ρ) cond.relabel thenBlock.relabel (relabelBlock? elseBlock)
  | .loop info cond body => .loop (info.relabel ρ) cond.relabel body.relabel
  | .leave info => .leave (info.relabel ρ)
  | .next info => .next (info.relabel ρ)
  | .guarded info body catches finallyBlock =>
    .guarded (info.relabel ρ) body.relabel (relabelCatches catches) (relabelBlock? finallyBlock)
  | .variable d => .variable d.relabel
  | .function d => .function d.relabel

def CatchClause.relabel : CatchClause → CatchClause
  | ⟨info, type, binder, stackBinder, body⟩ =>
    ⟨info.relabel ρ, relabelType? ρ type, binder, stackBinder, body.relabel⟩

def relabelCatches : List CatchClause → List CatchClause
  | [] => []
  | c :: cs => c.relabel :: relabelCatches cs

def VarDecl.relabel : VarDecl → VarDecl
  | ⟨info, name, kind, type, init, modifiers, entries⟩ =>
    ⟨info.relabel ρ, name, kind, relabelType? ρ type, relabelExpr? init, modifiers,
      relabelMetadata entries⟩

def FunctionDecl.relabel : FunctionDecl → FunctionDecl
  | ⟨info, name, kind, qualifier, params, returns, body, modifiers, entries⟩ =>
    ⟨info.relabel ρ, name, kind, qualifier.map (Qualifier.relabel ρ), relabelParams params,
      relabelType? ρ returns, relabelBody? body, modifiers, relabelMetadata entries⟩

end

def Member.relabel : Member → Member
  | .variable d => .variable (d.relabel ρ)
  | .function d => .function (d.relabel ρ)

def ClassDecl.relabel (d : ClassDecl) : ClassDecl :=
  { d with
    info := d.info.relabel ρ
    members := d.members.map (Member.relabel ρ)
    superclass := d.superclass.map (TypeName.relabel ρ)
    interfaces := d.interfaces.map (TypeName.relabel ρ)
    metadata := d.metadata.map (Metadatum.relabel ρ) }

def Declaration.relabel : Declaration → Declaration
  | .class d => .class (d.relabel ρ)
  | .function d => .function (d.relabel ρ)
  | .variable d => .variable (d.relabel ρ)

def Directive.relabel (d : Directive) : Directive :=
  { d with info := d.info.relabel ρ }

def CompilationUnit.relabel (u : CompilationUnit) : CompilationUnit :=
  { u with
    id := ρ.node u.id
    extent := u.extent.map ρ.extent
    directives := u.directives.map (Directive.relabel ρ)
    declarations := u.declarations.map (Declaration.relabel ρ)
    comments := ρ.comments u.comments }

def Node.relabel : Node → Node
  | .unit u => .unit (u.relabel ρ)
  | .directive d => .directive (d.relabel ρ)
  | .class d => .class (d.relabel ρ)
  | .param p => .param (p.relabel ρ)
  | .metadatum m => .metadatum (m.relabel ρ)
  | .type t => .type (t.relabel ρ)
  | .clause c => .clause (c.relabel ρ)
  | .stmt s => .stmt (s.relabel ρ)
  | .expr e => .expr (e.relabel ρ)

end Relabel

/-! ## Parts of relabeled nodes -/

section
variable (ρ : Relabeling)
variable (p : Param) (e : Expr) (n : Node)

attribute [local simp] TypeRef.relabel Expr.relabel Body.relabel Param.relabel Metadatum.relabel
  Block.relabel Stmt.relabel CatchClause.relabel VarDecl.relabel FunctionDecl.relabel

@[simp]
theorem relabelType?_eq_map (t : Option TypeRef) :
    relabelType? ρ t = t.map (TypeRef.relabel ρ) := by
  cases t <;> rfl

@[simp]
theorem relabelTypes_eq_map (ts : List TypeRef) :
    relabelTypes ρ ts = ts.map (TypeRef.relabel ρ) := by
  induction ts with
  | nil => rfl
  | cons t ts ih => exact congrArg (List.cons _) ih

@[simp]
theorem relabelExprs_eq_map (es : List Expr) : relabelExprs ρ es = es.map (Expr.relabel ρ) := by
  induction es with
  | nil => rfl
  | cons e es ih => exact congrArg (List.cons _) ih

@[simp]
theorem relabelExpr?_eq_map (e : Option Expr) : relabelExpr? ρ e = e.map (Expr.relabel ρ) := by
  cases e <;> rfl

@[simp]
theorem relabelBody?_eq_map (b : Option Body) : relabelBody? ρ b = b.map (Body.relabel ρ) := by
  cases b <;> rfl

@[simp]
theorem relabelParams_eq_map (ps : List Param) : relabelParams ρ ps = ps.map (Param.relabel ρ) := by
  induction ps with
  | nil => rfl
  | cons p ps ih => exact congrArg (List.cons _) ih

@[simp]
theorem relabelMetadata_eq_map (ms : List Metadatum) :
    relabelMetadata ρ ms = ms.map (Metadatum.relabel ρ) := by
  induction ms with
  | nil => rfl
  | cons m ms ih => exact congrArg (List.cons _) ih

@[simp]
theorem relabelBlock?_eq_map (b : Option Block) : relabelBlock? ρ b = b.map (Block.relabel ρ) := by
  cases b <;> rfl

@[simp]
theorem relabelStmts_eq_map (ss : List Stmt) : relabelStmts ρ ss = ss.map (Stmt.relabel ρ) := by
  induction ss with
  | nil => rfl
  | cons s ss ih => exact congrArg (List.cons _) ih

@[simp]
theorem relabelCatches_eq_map (cs : List CatchClause) :
    relabelCatches ρ cs = cs.map (CatchClause.relabel ρ) := by
  induction cs with
  | nil => rfl
  | cons c cs ih => exact congrArg (List.cons _) ih

theorem Param.relabel_eq :
    p.relabel ρ = ⟨p.info.relabel ρ, p.name, p.type.map (TypeRef.relabel ρ), p.isFieldFormal,
      p.metadata.map (Metadatum.relabel ρ)⟩ := by
  obtain ⟨info, name, type, isFieldFormal, entries⟩ := p
  simp

theorem Metadatum.relabel_eq (m : Metadatum) :
    m.relabel ρ = ⟨m.info.relabel ρ, m.name, m.args.map (List.map (Expr.relabel ρ))⟩ := by
  obtain ⟨info, name, args⟩ := m
  cases args <;> simp

theorem Block.relabel_eq (b : Block) :
    b.relabel ρ = ⟨b.info.relabel ρ, b.statements.map (Stmt.relabel ρ)⟩ := by
  obtain ⟨info, statements⟩ := b
  simp

theorem CatchClause.relabel_eq (c : CatchClause) :
    c.relabel ρ = ⟨c.info.relabel ρ, c.exceptionType.map (TypeRef.relabel ρ), c.binder,
      c.stackBinder, c.body.relabel ρ⟩ := by
  obtain ⟨info, type, binder, stackBinder, body⟩ := c
  simp

theorem VarDecl.relabel_eq (d : VarDecl) :
    d.relabel ρ = ⟨d.info.relabel ρ, d.name, d.kind, d.type.map (TypeRef.relabel ρ),
      d.init.map (Expr.relabel ρ), d.modifiers, d.metadata.map (Metadatum.relabel ρ)⟩ := by
  obtain ⟨info, name, kind, type, init, modifiers, entries⟩ := d
  simp

theorem FunctionDecl.relabel_eq (d : FunctionDecl) :
    d.relabel ρ = ⟨d.info.relabel ρ, d.name, d.kind, d.qualifier.map (Qualifier.relabel ρ),
      d.params.map (Param.relabel ρ), d.returns.map (TypeRef.relabel ρ),
      d.body.map (Body.relabel ρ), d.modifiers, d.metadata.map (Metadatum.relabel ρ)⟩ := by
  obtain ⟨info, name, kind, qualifier, params, returns, body, modifiers, entries⟩ := d
  simp

namespace Node

@[simp]
theorem relabel_expr : (Node.expr e).relabel ρ = .expr (e.relabel ρ) := rfl

@[simp]
theorem relabel_stmt (s : Stmt) : (Node.stmt s).relabel ρ = .stmt (s.relabel ρ) := rfl

@[simp]
theorem relabel_param : (Node.param p).relabel ρ = .param (p.relabel ρ) := rfl

@[simp]
theorem relabel_metadatum (m : Metadatum) :
    (Node.metadatum m).relabel ρ = .metadatum (m.relabel ρ) := rfl

@[simp]
theorem relabel_type (t : TypeRef) : (Node.type t).relabel ρ = .type (t.relabel ρ) := rfl

@[simp]
theorem relabel_clause (c : CatchClause) : (Node.clause c).relabel ρ = .clause (c.relabel ρ) := rfl

@[simp]
theorem relabel_class (d : ClassDecl) : (Node.class d).relabel ρ = .class (d.relabel ρ) := rfl

@[simp]
theorem relabel_directive (d : Directive) :
    (Node.directive d).relabel ρ = .directive (d.relabel ρ) := rfl

@[simp]
theorem relabel_unit (u : CompilationUnit) : (Node.unit u).relabel ρ = .unit (u.relabel ρ) := rfl

theorem relabel_ofBody (b : Body) : (ofBody b).relabel ρ = ofBody (b.relabel ρ) := by
  cases b <;> simp [ofBody]

theorem relabel_ofMember (m : Member) : (ofMember m).relabel ρ = ofMember (m.relabel ρ) := by
  cases m <;> simp [ofMember, Member.relabel]

theorem relabel_ofDeclaration (d : Declaration) :
    (ofDeclaration d).relabel ρ = ofDeclaration (d.relabel ρ) := by
  cases d <;> simp [ofDeclaration, Declaration.relabel]

theorem children_relabel_expr :
    exprChildren (e.relabel ρ) = (exprChildren e).map fun c => (c.1, c.2.relabel ρ) := by
  cases e <;> simp [exprChildren, relabel_ofBody, Function.comp_def]

theorem children_relabel_stmt (s : Stmt) :
    stmtChildren (s.relabel ρ) = (stmtChildren s).map fun c => (c.1, c.2.relabel ρ) := by
  cases s <;>
    simp [Block.relabel_eq, VarDecl.relabel_eq, FunctionDecl.relabel_eq, stmtChildren,
      relabel_ofBody, Option.toList_map, Function.comp_def]

theorem children_relabel :
    (n.relabel ρ).children = n.children.map fun c => (c.1, c.2.relabel ρ) := by
  cases n with
  | unit u =>
    simp [children, CompilationUnit.relabel, relabel_ofDeclaration, Function.comp_def]
  | directive d => rfl
  | «class» d =>
    simp [children, ClassDecl.relabel, relabel_ofMember, Option.toList_map, Function.comp_def]
  | param p => simp [children, Param.relabel_eq, Option.toList_map, Function.comp_def]
  | metadatum m =>
    obtain ⟨info, name, args⟩ := m
    cases args <;> simp [children, Function.comp_def]
  | type t =>
    cases t <;> simp [children, typeChildren, Option.toList_map, Function.comp_def]
  | clause c =>
    simp [children, CatchClause.relabel_eq, Option.toList_map, Function.comp_def]
  | stmt s => exact children_relabel_stmt ρ s
  | expr e => exact children_relabel_expr ρ e

theorem nodes_relabel : (n.relabel ρ).nodes = n.nodes.map (relabel ρ) := by
  induction hweight : n.weight using Nat.strongRecOn generalizing n with
  | ind k ih =>
    rw [nodes_eq, nodes_eq, map_cons, nodesBelow, nodesBelow, children_relabel,
      flatMap_map, map_flatMap]
    congr 1
    refine flatMap_congr fun c hc => ?_
    exact ih _ (hweight ▸ weight_lt_of_mem_children hc) c.2 rfl

theorem leaf?_relabel (ρ : NodeId → NodeId) (n : Node) :
    (n.relabel (.numbers ρ)).leaf? = n.leaf? := by
  cases n with
  | expr e =>
    cases e with
    | literal info value =>
      cases value <;> simp [leaf?, NodeInfo.relabel, Relabeling.numbers]
    | _ => simp [leaf?, NodeInfo.relabel, Relabeling.numbers]
  | _ => rfl

theorem leaves_relabel (ρ : NodeId → NodeId) (n : Node) :
    (n.relabel (.numbers ρ)).nodes.filterMap leaf? = n.nodes.filterMap leaf? := by
  rw [nodes_relabel, filterMap_map]
  exact filterMap_congr fun m _ => leaf?_relabel ρ m

theorem extent?_relabel : (n.relabel ρ).extent? = n.extent?.map ρ.extent := by
  cases n with
  | type t => cases t <;> simp [extent?, TypeRef.info, TypeName.relabel] <;> rfl
  | expr e => cases e <;> simp [extent?, Expr.extent, Expr.info] <;> rfl
  | stmt s =>
    cases s <;> simp [extent?, stmtExtent, Block.relabel_eq, VarDecl.relabel_eq,
      FunctionDecl.relabel_eq] <;> rfl
  | param p => rw [relabel_param, Param.relabel_eq]; rfl
  | metadatum m => rw [relabel_metadatum, Metadatum.relabel_eq]; rfl
  | clause c => rw [relabel_clause, CatchClause.relabel_eq]; rfl
  | _ => rfl

theorem id_relabel : (n.relabel ρ).id = ρ.node n.id := by
  cases n with
  | type t => cases t <;> simp [id, TypeRef.info, TypeName.relabel] <;> rfl
  | expr e => cases e <;> simp [id, Expr.id, Expr.info] <;> rfl
  | stmt s =>
    cases s <;> simp [id, stmtId, Block.relabel_eq, VarDecl.relabel_eq,
      FunctionDecl.relabel_eq] <;> rfl
  | param p => rw [relabel_param, Param.relabel_eq]; rfl
  | metadatum m => rw [relabel_metadatum, Metadatum.relabel_eq]; rfl
  | clause c => rw [relabel_clause, CatchClause.relabel_eq]; rfl
  | _ => rfl

end Node

theorem Expr.id_relabel : (e.relabel ρ).id = ρ.node e.id :=
  Node.id_relabel ρ (.expr e)

@[simp]
theorem Expr.isNamed_relabel : (e.relabel ρ).isNamed = e.isNamed := by
  cases e <;> rfl

theorem Param.id_relabel : (p.relabel ρ).id = ρ.node p.id :=
  Node.id_relabel ρ (.param p)

theorem VarDecl.id_relabel (d : VarDecl) : (d.relabel ρ).id = ρ.node d.id :=
  Node.id_relabel ρ (.varDecl d)

theorem FunctionDecl.id_relabel (d : FunctionDecl) : (d.relabel ρ).id = ρ.node d.id :=
  Node.id_relabel ρ (.functionDecl d)

end

/-! ## Numbering again -/

/-- Numbering steps, one of which starts `δ` later than the other: where `ρ`
shifts the numbers that the first gives out, the second gives the same value
with its numbers changed by `ρ`.  But for its numbers the value is `x`. -/
structure Relabels {α : Type} (ρ : Relabeling) (δ : Nat)
    (change : Relabeling → α → α) (step step' : Numbering α) (x : α) : Prop where
  grows : ∀ start, start ≤ (step.run start).2
  shape : ∀ start, change (.numbers fun _ => 0) (step.run start).1 = change (.numbers fun _ => 0) x
  shift : ∀ start, (∀ n, start ≤ n → n < (step.run start).2 → ρ.node n = n + δ) →
    step'.run (start + δ) = (change ρ (step.run start).1, (step.run start).2 + δ)

namespace Relabels

variable {α β γ κ : Type} {ρ : Relabeling} {δ : Nat} {change : Relabeling → α → α}
  {change' : Relabeling → β → β} {change'' : Relabeling → γ → γ} {whole : Relabeling → κ → κ}
  {x : α} {y : β}

theorem pure {a a' : α} (hshape : change (.numbers fun _ => 0) a = change (.numbers fun _ => 0) x)
    (hchange : change ρ a = a') : Relabels ρ δ change (Pure.pure a) (Pure.pure a') x :=
  ⟨fun _ => Nat.le_refl _, fun _ => hshape, fun _ _ => Prod.ext hchange.symm rfl⟩

theorem bind {step step' : Numbering α} {next next' : α → Numbering β}
    (hstep : Relabels ρ δ change step step' x)
    (hnext : ∀ a, change (.numbers fun _ => 0) a = change (.numbers fun _ => 0) x →
      Relabels ρ δ change' (next a) (next' (change ρ a)) y) :
    Relabels ρ δ change' (step >>= next) (step' >>= next') y := by
  have hafter := fun start => hnext (step.run start).1 (hstep.shape start)
  refine ⟨fun start => ?_, fun start => (hafter start).shape _, fun start hρ => ?_⟩
  · exact Nat.le_trans (hstep.grows start) ((hafter start).grows _)
  · have hfirst := hstep.shift start fun n hle hlt =>
      hρ n hle (Nat.lt_of_lt_of_le hlt ((hafter start).grows _))
    have hsecond := (hafter start).shift (step.run start).2 fun n hle hlt =>
      hρ n (Nat.le_trans (hstep.grows start) hle) hlt
    show (next' (step'.run (start + δ)).1).run (step'.run (start + δ)).2 = _
    rw [hfirst]
    exact hsecond

theorem map {step step' : Numbering α} {f : α → κ} (hstep : Relabels ρ δ change step step' x)
    (hwhole : ∀ ρ a, whole ρ (f a) = f (change ρ a)) :
    Relabels ρ δ whole (do return f (← step)) (do return f (← step')) (f x) := by
  refine hstep.bind fun a ha => .pure ?_ (hwhole ρ a)
  rw [hwhole, hwhole, ha]

theorem map₂ {first first' : Numbering α} {second second' : Numbering β} {f : α → β → κ}
    (hfirst : Relabels ρ δ change first first' x)
    (hsecond : Relabels ρ δ change' second second' y)
    (hwhole : ∀ ρ a b, whole ρ (f a b) = f (change ρ a) (change' ρ b)) :
    Relabels ρ δ whole (do return f (← first) (← second)) (do return f (← first') (← second'))
      (f x y) := by
  refine hfirst.bind fun a ha => hsecond.bind fun b hb => .pure ?_ (hwhole ρ a b)
  rw [hwhole, hwhole, ha, hb]

theorem map₃ {first first' : Numbering α} {second second' : Numbering β}
    {third third' : Numbering γ} {f : α → β → γ → κ} {z : γ}
    (hfirst : Relabels ρ δ change first first' x)
    (hsecond : Relabels ρ δ change' second second' y)
    (hthird : Relabels ρ δ change'' third third' z)
    (hwhole : ∀ ρ a b c, whole ρ (f a b c) = f (change ρ a) (change' ρ b) (change'' ρ c)) :
    Relabels ρ δ whole (do return f (← first) (← second) (← third))
      (do return f (← first') (← second') (← third')) (f x y z) := by
  refine hfirst.bind fun a ha => hsecond.bind fun b hb => hthird.bind fun c hc =>
    .pure ?_ (hwhole ρ a b c)
  rw [hwhole, hwhole, ha, hb, hc]

theorem mapM {number : α → Numbering α}
    (hnumber : ∀ a, Relabels ρ δ change (number a) (number (change ρ.still a)) a) (l : List α) :
    Relabels ρ δ (fun ρ => List.map (change ρ)) (l.mapM number)
      ((l.map (change ρ.still)).mapM number) l := by
  induction l with
  | nil =>
    exact .pure rfl rfl
  | cons a l ih =>
    rw [map_cons, mapM_cons, mapM_cons]
    exact (hnumber a).map₂ ih fun _ _ _ => rfl

theorem mapM_option {number : α → Numbering α}
    (hnumber : ∀ a, Relabels ρ δ change (number a) (number (change ρ.still a)) a) (o : Option α) :
    Relabels ρ δ (fun ρ => Option.map (change ρ)) (o.mapM number)
      ((o.map (change ρ.still)).mapM number) o := by
  cases o with
  | none => exact .pure rfl rfl
  | some a => exact (hnumber a).map fun _ _ => rfl

end Relabels

section
variable (ρ : Relabeling) (δ : Nat)

attribute [local simp] TypeName.relabel TypeRef.relabel Expr.relabel Body.relabel Param.relabel
  Metadatum.relabel Block.relabel Stmt.relabel CatchClause.relabel VarDecl.relabel
  FunctionDecl.relabel

theorem NodeInfo.relabels_number (info : NodeInfo) :
    Relabels ρ δ NodeInfo.relabel info.number (info.relabel ρ.still).number info := by
  refine ⟨fun start => Nat.le_succ start, fun _ => rfl, fun start hρ => ?_⟩
  have hstart := hρ start (Nat.le_refl _) (Nat.lt_succ_self _)
  show ((⟨ρ.extent info.extent, start + δ⟩ : NodeInfo), start + δ + 1) =
    (⟨ρ.extent info.extent, ρ.node start⟩, start + 1 + δ)
  rw [hstart, Nat.add_right_comm]

theorem TypeName.relabels_number (t : TypeName) :
    Relabels ρ δ TypeName.relabel t.number (t.relabel ρ.still).number t := by
  exact (t.info.relabels_number ρ δ).map fun _ _ => rfl

mutual

theorem TypeRef.relabels_number :
    (t : TypeRef) → Relabels ρ δ TypeRef.relabel t.number (t.relabel ρ.still).number t
  | .named type => (type.relabels_number ρ δ).map fun _ _ => by simp
  | .function info returns params nullable => by
    rw [TypeRef.relabel, relabelType?_eq_map, relabelTypes_eq_map, TypeRef.number, TypeRef.number]
    exact (info.relabels_number ρ δ).map₃ (relabels_numberType? returns)
      (relabels_numberTypes params) fun _ _ _ _ => by simp

theorem relabels_numberType? :
    (t : Option TypeRef) → Relabels ρ δ (fun ρ => Option.map (TypeRef.relabel ρ))
      (numberType? t) (numberType? (t.map (TypeRef.relabel ρ.still))) t
  | none => .pure rfl rfl
  | some t => t.relabels_number.map fun _ _ => rfl

theorem relabels_numberTypes :
    (ts : List TypeRef) → Relabels ρ δ (fun ρ => List.map (TypeRef.relabel ρ))
      (numberTypes ts) (numberTypes (ts.map (TypeRef.relabel ρ.still))) ts
  | [] => .pure rfl rfl
  | t :: ts => t.relabels_number.map₂ (relabels_numberTypes ts) fun _ _ _ => rfl

end

/-- By induction along the numbering, which goes through the parts of a node one after
the other. -/
theorem relabels_bodies :
    (∀ e : Expr, Relabels ρ δ Expr.relabel e.number (e.relabel ρ.still).number e) ∧
    (∀ b : Body, Relabels ρ δ Body.relabel b.number (b.relabel ρ.still).number b) ∧
    (∀ b : Block, Relabels ρ δ Block.relabel b.number (b.relabel ρ.still).number b) ∧
    (∀ ss, Relabels ρ δ (fun ρ => List.map (Stmt.relabel ρ)) (numberStmts ss)
      (numberStmts (ss.map (Stmt.relabel ρ.still))) ss) ∧
    (∀ s : Stmt, Relabels ρ δ Stmt.relabel s.number (s.relabel ρ.still).number s) ∧
    (∀ d : FunctionDecl, Relabels ρ δ FunctionDecl.relabel d.number (d.relabel ρ.still).number d) ∧
    (∀ ms, Relabels ρ δ (fun ρ => List.map (Metadatum.relabel ρ)) (numberMetadata ms)
      (numberMetadata (ms.map (Metadatum.relabel ρ.still))) ms) ∧
    (∀ m : Metadatum, Relabels ρ δ Metadatum.relabel m.number (m.relabel ρ.still).number m) ∧
    (∀ es, Relabels ρ δ (fun ρ => List.map (Expr.relabel ρ)) (numberExprs es)
      (numberExprs (es.map (Expr.relabel ρ.still))) es) ∧
    (∀ b, Relabels ρ δ (fun ρ => Option.map (Body.relabel ρ)) (numberBody? b)
      (numberBody? (b.map (Body.relabel ρ.still))) b) ∧
    (∀ ps, Relabels ρ δ (fun ρ => List.map (Param.relabel ρ)) (numberParams ps)
      (numberParams (ps.map (Param.relabel ρ.still))) ps) ∧
    (∀ p : Param, Relabels ρ δ Param.relabel p.number (p.relabel ρ.still).number p) ∧
    (∀ d : VarDecl, Relabels ρ δ VarDecl.relabel d.number (d.relabel ρ.still).number d) ∧
    (∀ e, Relabels ρ δ (fun ρ => Option.map (Expr.relabel ρ)) (numberExpr? e)
      (numberExpr? (e.map (Expr.relabel ρ.still))) e) ∧
    (∀ cs, Relabels ρ δ (fun ρ => List.map (CatchClause.relabel ρ)) (numberCatches cs)
      (numberCatches (cs.map (CatchClause.relabel ρ.still))) cs) ∧
    (∀ c : CatchClause, Relabels ρ δ CatchClause.relabel c.number (c.relabel ρ.still).number c) ∧
    ∀ b, Relabels ρ δ (fun ρ => Option.map (Block.relabel ρ)) (numberBlock? b)
      (numberBlock? (b.map (Block.relabel ρ.still))) b := by
  have hinfo := NodeInfo.relabels_number ρ δ
  have htype := relabels_numberType? ρ δ
  apply Expr.number.mutual_induct
  all_goals
    intros
    simp only [Expr.relabel, Body.relabel, Block.relabel, Stmt.relabel, FunctionDecl.relabel,
      Metadatum.relabel, Param.relabel, VarDecl.relabel, CatchClause.relabel, relabelStmts_eq_map,
      relabelMetadata_eq_map, relabelExprs_eq_map, relabelBody?_eq_map, relabelParams_eq_map,
      relabelType?_eq_map, relabelExpr?_eq_map, relabelCatches_eq_map, relabelBlock?_eq_map,
      map_nil, map_cons, Option.map_none, Option.map_some,
      Expr.number, Body.number, Block.number, numberStmts, Stmt.number, FunctionDecl.number,
      numberMetadata, Metadatum.number, numberExprs, numberBody?, numberParams, Param.number,
      VarDecl.number, numberExpr?, numberCatches, CatchClause.number, numberBlock?]
    repeat refine Relabels.bind (by apply_assumption) fun _ _ => ?_
    refine .pure ?_ ?_ <;> simp [*]

theorem FunctionDecl.relabels_number (d : FunctionDecl) :
    Relabels ρ δ FunctionDecl.relabel d.number (d.relabel ρ.still).number d :=
  (relabels_bodies ρ δ).2.2.2.2.2.1 d

theorem relabels_numberMetadata (ms : List Metadatum) :
    Relabels ρ δ (fun ρ => List.map (Metadatum.relabel ρ)) (numberMetadata ms)
      (numberMetadata (ms.map (Metadatum.relabel ρ.still))) ms :=
  (relabels_bodies ρ δ).2.2.2.2.2.2.1 ms

theorem VarDecl.relabels_number (d : VarDecl) :
    Relabels ρ δ VarDecl.relabel d.number (d.relabel ρ.still).number d :=
  (relabels_bodies ρ δ).2.2.2.2.2.2.2.2.2.2.2.2.1 d

theorem Member.relabels_number (m : Member) :
    Relabels ρ δ Member.relabel m.number (m.relabel ρ.still).number m := by
  cases m with
  | «variable» d => exact (d.relabels_number ρ δ).map fun _ _ => rfl
  | function d => exact (d.relabels_number ρ δ).map fun _ _ => rfl

theorem ClassDecl.relabels_number (d : ClassDecl) :
    Relabels ρ δ ClassDecl.relabel d.number (d.relabel ρ.still).number d := by
  refine (d.info.relabels_number ρ δ).bind fun info hinfo => ?_
  refine (Relabels.mapM (Member.relabels_number ρ δ) d.members).bind fun members hmembers => ?_
  refine (Relabels.mapM_option (TypeName.relabels_number ρ δ) d.superclass).bind
    fun superclass hsuperclass => ?_
  refine (Relabels.mapM (TypeName.relabels_number ρ δ) d.interfaces).bind
    fun interfaces hinterfaces => ?_
  refine (relabels_numberMetadata ρ δ d.metadata).bind fun entries hentries => .pure ?_ ?_
  · simp [ClassDecl.relabel, hinfo, hmembers, hsuperclass, hinterfaces, hentries]
  · simp [ClassDecl.relabel]

theorem Declaration.relabels_number (d : Declaration) :
    Relabels ρ δ Declaration.relabel d.number (d.relabel ρ.still).number d := by
  cases d with
  | «class» d => exact (d.relabels_number ρ δ).map fun _ _ => rfl
  | function d => exact (d.relabels_number ρ δ).map fun _ _ => rfl
  | «variable» d => exact (d.relabels_number ρ δ).map fun _ _ => rfl

theorem Directive.relabels_number (d : Directive) :
    Relabels ρ δ Directive.relabel d.number (d.relabel ρ.still).number d := by
  exact (d.info.relabels_number ρ δ).map fun _ _ => rfl

namespace CompilationUnit

variable (u : CompilationUnit)

theorem relabels_number (hstart : ρ.node start = start + δ) :
    Relabels ρ δ CompilationUnit.relabel
      (do
        let directives ← u.directives.mapM Directive.number
        let declarations ← u.declarations.mapM Declaration.number
        return { u with id := start, directives, declarations })
      (do
        let directives ← (u.relabel ρ.still).directives.mapM Directive.number
        let declarations ← (u.relabel ρ.still).declarations.mapM Declaration.number
        return { u.relabel ρ.still with id := start + δ, directives, declarations }) u := by
  refine (Relabels.mapM (Directive.relabels_number ρ δ) u.directives).bind
    fun directives hdirectives => ?_
  refine (Relabels.mapM (Declaration.relabels_number ρ δ) u.declarations).bind
    fun declarations hdeclarations => .pure ?_ ?_
  · simp only [CompilationUnit.relabel, hdirectives, hdeclarations]
    rfl
  · simp [CompilationUnit.relabel, hstart, Relabeling.still]

theorem relabel_zero_number (start : NodeId) :
    (u.number start).1.relabel (.numbers fun _ => 0) = u.relabel (.numbers fun _ => 0) :=
  (u.relabels_number .same 0 rfl).shape (start + 1)

theorem start_lt_number (start : NodeId) : start < (u.number start).2 :=
  (u.relabels_number .same 0 rfl).grows (start + 1)

variable {ρ δ}

theorem number_relabel (hρ : ∀ n, start ≤ n → n < (u.number start).2 → ρ.node n = n + δ) :
    (u.relabel ρ.still).number (start + δ) =
      ((u.number start).1.relabel ρ, (u.number start).2 + δ) := by
  have hstart := hρ start (Nat.le_refl start) (u.start_lt_number start)
  have hshift := (u.relabels_number ρ δ hstart).shift (start + 1) fun n hle hlt =>
    hρ n (Nat.le_trans (Nat.le_succ start) hle) hlt
  rw [Nat.add_right_comm] at hshift
  exact hshift

end CompilationUnit

end

/-! ## Changes one after the other -/

namespace Relabeling

def after (τ σ : Relabeling) : Relabeling :=
  ⟨τ.node ∘ σ.node, τ.extent ∘ σ.extent, τ.comments ∘ σ.comments⟩

/-- On `a`, to change no label is to change nothing, and two changes are one. -/
def Composes {α : Type} (change : Relabeling → α → α) (σ τ : Relabeling) (a : α) : Prop :=
  change .same a = a ∧ change τ (change σ a) = change (τ.after σ) a

end Relabeling

theorem NodeInfo.relabel_id (info : NodeInfo) : info.relabel .same = info := rfl

theorem TypeName.relabel_id (t : TypeName) : t.relabel .same = t := rfl

theorem Qualifier.relabel_id (q : Qualifier) : q.relabel .same = q := rfl

section
variable {α β : Type} {f : α → α} {g g' : α → β} {o : Option α}

theorem map_eq_self {l : List α} : l.map f = l ↔ ∀ a ∈ l, f a = a := by
  conv_lhs => rhs; rw [← map_id l]
  exact map_inj_left

theorem optionMap_inj_left : o.map g = o.map g' ↔ ∀ a, o = some a → g a = g' a := by
  cases o <;> simp

theorem optionMap_eq_self : o.map f = o ↔ ∀ a, o = some a → f a = a := by
  cases o <;> simp

end

section
variable {σ τ : Relabeling}

theorem NodeInfo.relabel_relabel (info : NodeInfo) :
    (info.relabel σ).relabel τ = info.relabel (τ.after σ) := rfl

theorem TypeName.relabel_relabel (t : TypeName) :
    (t.relabel σ).relabel τ = t.relabel (τ.after σ) := rfl

theorem Qualifier.relabel_relabel (q : Qualifier) :
    (q.relabel σ).relabel τ = q.relabel (τ.after σ) := rfl

namespace Node

theorem ofBody_inj {b b' : Body} : ofBody b = ofBody b' ↔ b = b' := by
  cases b <;> cases b' <;> simp [ofBody]

theorem ofMember_inj {m m' : Member} : ofMember m = ofMember m' ↔ m = m' := by
  cases m <;> cases m' <;> simp [ofMember]

theorem ofDeclaration_inj {d d' : Declaration} : ofDeclaration d = ofDeclaration d' ↔ d = d' := by
  cases d <;> cases d' <;> simp [ofDeclaration]

section
attribute [local simp] Relabeling.Composes NodeInfo.relabel_id TypeName.relabel_id
  Qualifier.relabel_id NodeInfo.relabel_relabel TypeName.relabel_relabel Qualifier.relabel_relabel
  TypeRef.relabel Expr.relabel Param.relabel Metadatum.relabel Block.relabel Stmt.relabel
  CatchClause.relabel VarDecl.relabel FunctionDecl.relabel ClassDecl.relabel
  relabel_ofBody relabel_ofMember relabel_ofDeclaration ofBody_inj ofMember_inj ofDeclaration_inj
  map_eq_self optionMap_inj_left optionMap_eq_self or_imp forall_and children typeChildren
  exprChildren

theorem composes_stmt {s : Stmt}
    (hchildren : ∀ c ∈ stmtChildren s, Relabeling.Composes relabel σ τ c.2) :
    Relabeling.Composes Stmt.relabel σ τ s := by
  cases s with
  | block b =>
    obtain ⟨info, statements⟩ := b
    simp_all [stmtChildren]
  | «variable» d =>
    obtain ⟨info, name, kind, type, init, modifiers, entries⟩ := d
    simp_all [stmtChildren]
  | function d =>
    obtain ⟨info, name, kind, qualifier, params, returns, body, modifiers, entries⟩ := d
    simp_all [stmtChildren]
  | _ => simp_all [stmtChildren]

theorem composes (n : Node) : Relabeling.Composes relabel σ τ n := by
  induction hweight : n.weight using Nat.strongRecOn generalizing n with
  | ind k ih =>
    have hchildren : ∀ c ∈ n.children, Relabeling.Composes relabel σ τ c.2 := fun c hc =>
      ih _ (hweight ▸ weight_lt_of_mem_children hc) c.2 rfl
    clear ih hweight
    cases n with
    | unit u =>
      obtain ⟨id, extent, uri, directives, declarations, comments⟩ := u
      simp_all [CompilationUnit.relabel, Relabeling.same, Relabeling.after]
    | directive d => exact ⟨rfl, rfl⟩
    | «class» d =>
      obtain ⟨info, name, members, superclass, interfaces, isAbstract, entries⟩ := d
      simp_all
    | param p =>
      obtain ⟨info, name, type, isFieldFormal, entries⟩ := p
      simp_all
    | metadatum m =>
      obtain ⟨info, name, args⟩ := m
      cases args <;> simp_all
    | type t => cases t <;> simp_all
    | clause c =>
      obtain ⟨info, type, binder, stackBinder, body⟩ := c
      simp_all
    | stmt s =>
      have hs := composes_stmt hchildren
      exact ⟨congrArg Node.stmt hs.1, congrArg Node.stmt hs.2⟩
    | expr e => cases e <;> simp_all

end

theorem relabel_id (n : Node) : n.relabel .same = n := (composes (σ := .same) (τ := .same) n).1

theorem relabel_relabel (n : Node) : (n.relabel σ).relabel τ = n.relabel (τ.after σ) :=
  n.composes.2

end Node

end

theorem CompilationUnit.relabel_id (u : CompilationUnit) : u.relabel .same = u :=
  Node.unit.inj (Node.unit u).relabel_id

theorem CompilationUnit.number_add (u : CompilationUnit) {ρ : NodeId → NodeId} {δ : Nat}
    (hρ : ∀ n, start ≤ n → n < (u.number start).2 → ρ n = n + δ) :
    u.number (start + δ) = ((u.number start).1.relabel (.numbers ρ), (u.number start).2 + δ) := by
  have hrelabel := u.number_relabel (ρ := .numbers ρ) hρ
  rwa [show (Relabeling.numbers ρ).still = Relabeling.same from rfl, u.relabel_id] at hrelabel

end CheckedThrows
