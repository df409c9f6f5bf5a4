import CheckedThrows.Proofs.Shapes
import CheckedThrows.Proofs.SoundBodies
import CheckedThrows.Proofs.Visits
import Mathlib.Algebra.BigOperators.Group.List.Lemmas

/-!
# What a body goes through

The resolution of a well-shaped body goes through exactly the marks of its
tree: every expression below a node is given a type, and every name is looked
up once.  A target that cannot be assigned to would be given a type without
what stands below it, so the shape matters.
-/

namespace CheckedThrows

open List Resolving
variable {α : Type} (p : Param) (params : List Param)

/-! ## Marks of the parts of a tree -/

theorem mem_sum_map {mark : Mark} {marks : α → Multiset Mark} {l : List α} :
    mark ∈ (l.map marks).sum ↔ ∃ a ∈ l, mark ∈ marks a := by
  induction l with
  | nil => simp
  | cons a l ih => simp [ih]

namespace Node

theorem mem_marks {mark : Mark} {n : Node} : mark ∈ n.marks ↔ ∃ m ∈ n.nodes, mark ∈ m.ownMarks :=
  mem_sum_map

theorem write_id_mem_ownMarks (n : Node) : Mark.write n.id ∈ n.ownMarks := by
  unfold ownMarks
  split <;> simp [id, Expr.id, Expr.info]

theorem write_id_mem_marks (n : Node) : Mark.write n.id ∈ n.marks :=
  mem_marks.mpr ⟨n, by simp [nodes_eq], n.write_id_mem_ownMarks⟩

theorem type_notMem_marks_type (t : TypeRef) (k : NodeId) : Mark.type k ∉ (Node.type t).marks := by
  intro hmem
  obtain ⟨m, hm, hmark⟩ := mem_marks.mp hmem
  have hall : (Node.type t).All fun m => Mark.type k ∉ m.ownMarks :=
    all_type (fun _ => by simp [ownMarks]) t
  exact all_iff_forall_mem_nodes.mp hall m hm hmark

end Node

def exprsMarks (es : List Expr) : Multiset Mark :=
  (es.map fun e => (Node.expr e).marks).sum

def metadataMarks (entries : List Metadatum) : Multiset Mark :=
  (entries.map fun m => (Node.metadatum m).marks).sum

def typeMarks (t : Option TypeRef) : Multiset Mark :=
  (t.toList.map fun t => (Node.type t).marks).sum

theorem type_notMem_typeMarks (t : Option TypeRef) (k : NodeId) : Mark.type k ∉ typeMarks t := by
  cases t with
  | none => simp [typeMarks]
  | some t => simpa [typeMarks] using Node.type_notMem_marks_type t k

def Param.plainMarks (p : Param) : Multiset Mark :=
  {.write p.id} + typeMarks p.type

theorem Param.type_notMem_plainMarks (k : NodeId) : Mark.type k ∉ p.plainMarks := by
  simp [plainMarks, type_notMem_typeMarks]

theorem type_notMem_sum_plainMarks (k : NodeId) :
    Mark.type k ∉ (params.map Param.plainMarks).sum := by
  induction params with
  | nil => simp
  | cons p rest ih => simp [p.type_notMem_plainMarks k, ih]

theorem write_mem_sum_plainMarks {params : List Param} {p : Param} (hp : p ∈ params) :
    Mark.write p.id ∈ (params.map Param.plainMarks).sum := by
  induction params with
  | nil => simp at hp
  | cons q rest ih =>
    rw [map_cons, sum_cons, Multiset.mem_add]
    rcases mem_cons.mp hp with rfl | hrest
    · exact .inl (by simp [Param.plainMarks])
    · exact .inr (ih hrest)

namespace Node

theorem marks_param : (Node.param p).marks = metadataMarks p.metadata + p.plainMarks := by
  rw [marks_eq, metadataMarks, Param.plainMarks, typeMarks]
  simp only [ownMarks, id, children, map_append, map_map, sum_append,
    Function.comp_def]
  abel

theorem marks_params :
    (params.map fun p => (Node.param p).marks).sum =
      (params.map fun p => metadataMarks p.metadata).sum + (params.map Param.plainMarks).sum := by
  rw [← sum_map_add]
  simp only [marks_param]

theorem marks_metadatum (m : Metadatum) :
    (Node.metadatum m).marks = {.write m.id} + exprsMarks (m.args.getD []) := by
  rw [marks_eq, exprsMarks]
  simp [ownMarks, id, children, Function.comp_def]

theorem marks_clause (c : CatchClause) :
    (Node.clause c).marks =
      (Node.block c.body).marks + ({.write c.id} + typeMarks c.exceptionType) := by
  rw [marks_eq, typeMarks]
  simp only [ownMarks, id, children, map_append, map_map, sum_append,
    Function.comp_def, map_cons, map_nil, sum_cons, sum_nil]
  abel

theorem marks_block (b : Block) :
    (Node.block b).marks = (b.statements.map fun s => (Node.stmt s).marks).sum +
      {.write b.info.id} := by
  rw [marks_stmt, add_comm]
  simp [stmtId, stmtChildren, Function.comp_def]

theorem marks_name (info : NodeInfo) (name : String) :
    (Node.expr (.name info name)).marks =
      {.write info.id, .type info.id} + {.name info.extent} := by
  rw [marks_expr]
  simp [ownMarks, exprChildren]

theorem marks_member (info : NodeInfo) (target : Expr) (name : String) :
    (Node.expr (.member info target name)).marks =
      (Node.expr target).marks + {.write info.id, .type info.id} := by
  rw [marks_expr, add_comm]
  simp [ownMarks, exprChildren, Expr.id, Expr.info]

def bodyMarks (b : Option Body) : Multiset Mark :=
  (b.toList.map fun b => (ofBody b).marks).sum

/-- What a variable or a function goes through when its body is resolved; the
rest has been seen to before. -/
def varMarks (d : VarDecl) : Multiset Mark :=
  metadataMarks d.metadata + (d.init.toList.map fun e => (Node.expr e).marks).sum

def functionMarks (d : FunctionDecl) : Multiset Mark :=
  metadataMarks d.metadata +
    ((d.params.map fun p => metadataMarks p.metadata).sum + bodyMarks d.body)

theorem marks_varDecl (d : VarDecl) :
    (Node.varDecl d).marks = varMarks d + ({.write d.id} + typeMarks d.type) := by
  rw [marks_stmt, varMarks, metadataMarks, typeMarks]
  simp only [stmtId, stmtChildren, map_append, map_map, sum_append,
    Function.comp_def]
  abel

theorem marks_functionDecl (d : FunctionDecl) :
    (Node.functionDecl d).marks =
      functionMarks d + ({.write d.id} + ((d.params.map Param.plainMarks).sum +
        typeMarks d.returns)) := by
  have hparams := marks_params d.params
  rw [marks_stmt, functionMarks, metadataMarks, typeMarks, bodyMarks]
  simp only [stmtId, stmtChildren, map_append, map_map, sum_append,
    Function.comp_def, hparams]
  abel

end Node

/-! ## Types, parameters and signatures -/

section
variable {own : List NodeId} (w : Workspace) (uri : String)
variable (owner : Option ClassElement)

theorem visits_resolveTypeName (t : TypeName) : Visits uri own 0 (resolveTypeName w uri t) := by
  unfold resolveTypeName
  split
  · exact .pure own _
  · exact .pure own _
  · exact .pure own _
  · split
    · exact .pure own _
    · exact (visits_warn (by decide) _ _).done _

mutual

theorem visits_resolveType : (t : TypeRef) → Visits uri own 0 (resolveType w uri t)
  | .named t => visits_resolveTypeName w uri t
  | .function _ returns params _ => by
    refine (visits_resolveType? returns).first fun ty => ?_
    exact (visits_resolveTypes params).first fun tys => visits_newFunction tys ty

theorem visits_resolveType? : (t : Option TypeRef) → Visits uri own 0 (resolveType? w uri t)
  | none => .pure own _
  | some t => visits_resolveType t

theorem visits_resolveTypes : (ts : List TypeRef) → Visits uri own 0 (resolveTypes w uri ts)
  | [] => .pure own _
  | t :: rest => by
    refine (visits_resolveType t).first fun ty => ?_
    exact (visits_resolveTypes rest).first fun tys => .pure own _

end

theorem visits_resolveParamType (p : Param) :
    Visits uri own 0 (resolveParamType w uri owner p) := by
  unfold resolveParamType
  split
  · split
    · exact visits_read _
    · exact (visits_warn (by decide) _ _).done _
  · exact visits_resolveType? w uri p.type

theorem visits_declareParam {p : Param} (hp : p.id ∈ own) (index : Nat) (ty : TypeId) :
    Visits uri own 0 (declareParam uri p index ty) :=
  (visits_setDeclared hp rfl rfl).done _

theorem visits_declareParams (params : List Param) (index : Nat)
    (hparams : ∀ p ∈ params, p.id ∈ own) :
    Visits uri own 0 (declareParams w uri owner index params) := by
  induction params generalizing index with
  | nil => exact .pure own _
  | cons p rest ih =>
    obtain ⟨hp, hrest⟩ := forall_mem_cons.mp hparams
    refine (visits_resolveParamType w uri owner p).first fun ty => ?_
    refine (visits_declareParam uri hp index ty).first fun element => ?_
    exact (ih (index + 1) hrest).done _

theorem visits_resolveSignature {d : FunctionDecl} (hd : d.id ∈ own)
    (hparams : ∀ p ∈ d.params, p.id ∈ own) : Visits uri own 0 (resolveSignature w uri owner d) := by
  refine (visits_declareParams w uri owner d.params 0 hparams).first fun params => ?_
  have hreturns : ∀ returns, Visits uri own 0 (do
      let type ← newFunction (params.map ParameterElement.type) returns
      setSignature d.id ⟨params, returns, type⟩
      return (⟨params, returns, type⟩ : Signature)) := by
    intro returns
    refine (visits_newFunction _ _).first fun type => ?_
    exact (visits_note hd (.signature _)).done _
  split
  · exact (Visits.pure own _).first hreturns
  · exact (Visits.pure own _).first hreturns
  · exact (visits_resolveType? w uri d.returns).first hreturns

theorem visits_isDeclared (node : NodeId) : Visits uri own 0 (isDeclared node) :=
  visits_read _

end

/-! ## Names, members and calls -/

section

variable {node : NodeId} {info : NodeInfo}
variable {ctx : BodyContext} {scope : Names} {own : List NodeId}

theorem visits_resolveName (hinfo : info.id ∈ own) (name : String) :
    Visits ctx.library own {.name info.extent} (resolveName ctx scope info name) := by
  unfold resolveName
  split
  next e _ =>
    have hfound : Visits ctx.library own 0 (do
        setMeaning info.id e
        return (← get).typeOf e) :=
      (visits_note hinfo (.meaning e)).first fun _ => visits_read _
    exact (hfound.add {.name info.extent} (by simp)).of_eq (zero_add _)
  next => exact (visits_undefinedName ctx info name).done _

/-- A class that is named is given a type like any other expression. -/
theorem visits_resolveReceiver {target : Expr} {value : Resolving TypeId}
    (hvalue : Visits ctx.library own (Node.expr target).marks value) :
    Visits ctx.library own (Node.expr target).marks (resolveReceiver ctx scope target value) := by
  unfold resolveReceiver
  split
  next c hnamed =>
    obtain ⟨info, name, rfl⟩ := BodyContext.exists_name_of_classNamed? hnamed
    have htyped : Visits ctx.library (info.id :: own) {.write info.id, .type info.id} (do
        setMeaning info.id (.class c)
        setType info.id ((← get).coreType "Type")
        return (⟨some c, true⟩ : Receiver)) := by
      refine (visits_note mem_cons_self (.meaning _)).first fun _ => ?_
      refine visits_get.first fun f => ?_
      exact (visits_setType info.id _).done _
    have hnamedMarks := (htyped.add {.name info.extent} (by simp)).of_eq
      (Node.marks_name info name).symm
    exact hnamedMarks.absorb_cons (by simp [Node.marks_name])
  next => exact hvalue.done _

theorem visits_resolveMember (hinfo : info.id ∈ own) (r : Receiver)
    (name : String) : Visits ctx.library own 0 (resolveMember ctx info r name) := by
  unfold resolveMember
  split
  · exact (visits_note hinfo (.meaning _)).first fun _ => visits_read _
  · exact (visits_notice _).done _

theorem visits_setCallee (node : NodeId) (callee : Option Element) :
    Visits ctx.library own {.write node, .type node} (setCallee node callee) := by
  cases callee with
  | none => exact (visits_setType node _).done _
  | some e =>
    have hboth : Visits ctx.library (node :: own) {.write node, .type node}
        (setCallee node (some e)) := by
      refine (visits_note mem_cons_self (.meaning e)).first fun _ => ?_
      refine visits_get.first fun f => ?_
      exact (visits_setType node _).done _
    exact hboth.absorb_cons (by simp)

theorem visits_unless_undefined {s : Multiset Mark} {next : Resolving α} (missing : Prop)
    [Decidable missing] (info : NodeInfo) (name : String) (hnext : Visits ctx.library own s next) :
    Visits ctx.library own ({.name info.extent} + s) (do
      if missing then undefinedName ctx info name
      next) := by
  by_cases hmissing : missing
  · simp only [hmissing, if_true]
    exact (visits_undefinedName ctx info name).bind fun _ => hnext
  · simp only [hmissing, if_false]
    rw [add_comm]
    exact hnext.add _ (by simp)

theorem visits_resolveCalleeName (info : NodeInfo) (name : String) :
    Visits ctx.library own (Node.expr (.name info name)).marks
      (resolveCalleeName ctx scope info name) := by
  rw [Node.marks_name, add_comm]
  exact visits_unless_undefined ((ctx.lookupRead scope name).isNone = true) info name
    (visits_setCallee info.id (ctx.lookupRead scope name))

theorem visits_resolveCalleeMember (info : NodeInfo) (r : Receiver) (name : String) :
    Visits ctx.library own {.write info.id, .type info.id}
      (resolveCalleeMember ctx info r name) := by
  unfold resolveCalleeMember
  dsimp only
  split
  · exact (visits_notice _).first fun _ => visits_setCallee info.id _
  · exact visits_setCallee info.id _

theorem visits_invoke (w : Workspace) (uri : String) (e : Element) :
    Visits uri own 0 (invoke w e) := by
  cases e with
  | «class» c => exact visits_read _
  | executable e =>
    refine visits_get.first fun f => ?_
    split
    · exact .pure own _
    · exact (visits_callResult _).done _
    · exact .pure own _
  | «variable» v =>
    exact visits_get.first fun _ => (visits_callResult _).done _
  | parameter p =>
    exact visits_get.first fun _ => (visits_callResult _).done _

theorem visits_noteInvocation (hnode : node ∈ own) (i : Invocation) :
    Visits ctx.library own 0 (noteInvocation node i) := by
  unfold noteInvocation
  split
  · exact visits_note hnode (.meaning _)
  · exact .pure own _

theorem visits_applyOperator (hnode : node ∈ own) (receiver : TypeId)
    (name : String) : Visits ctx.library own 0 (applyOperator ctx node receiver name) := by
  unfold applyOperator
  dsimp only
  split
  · exact (visits_note hnode (.operator _)).first fun _ => visits_read _
  · exact .pure own _

theorem visits_applyBinary (hnode : node ∈ own) (op : BinaryOp) (left : TypeId) :
    Visits ctx.library own 0 (applyBinary ctx node op left) := by
  unfold applyBinary
  split
  · exact visits_read _
  · exact visits_read _
  · exact (visits_applyOperator hnode left _).first fun _ => visits_read _
  · exact (visits_applyOperator hnode left _).first fun _ => visits_read _
  · exact visits_applyOperator hnode left _

theorem visits_applyUnary (hnode : node ∈ own) (op : UnaryOp) (operand : TypeId) :
    Visits ctx.library own 0 (applyUnary ctx node op operand) := by
  cases op with
  | not => exact visits_read _
  | negate => exact visits_applyOperator hnode operand _
  | complement => exact visits_applyOperator hnode operand _

theorem visits_noteTarget {owner : NodeId} (howner : owner ∈ own) (target : NodeId)
    (write read : Option Element) (readType : Facts → Element → TypeId) :
    Visits ctx.library own {.write target, .type target}
      (noteTarget owner target write read readType) := by
  have htype : ∀ type : Facts → TypeId, Visits ctx.library own {.write target, .type target} (do
      let f ← get
      setType target (type f)
      return type f) :=
    fun _ => visits_get.first fun _ => (visits_setType target _).done _
  cases write with
  | none =>
    cases read with
    | none => exact htype _
    | some r => exact (visits_note howner (.read r)).first fun _ => htype _
  | some e =>
    refine (visits_note howner (.write e)).first fun _ => ?_
    cases read with
    | none => exact htype _
    | some r => exact (visits_note howner (.read r)).first fun _ => htype _

theorem visits_resolveTargetName {owner : NodeId} (howner : owner ∈ own) (reads : Bool)
    (info : NodeInfo) (name : String) :
    Visits ctx.library own (Node.expr (.name info name)).marks
      (resolveTargetName ctx scope owner reads info name) := by
  rw [Node.marks_name, add_comm]
  exact visits_unless_undefined ((ctx.lookupWrite scope name).isNone = true ∧
      (if reads then ctx.lookupRead scope name else none).isNone = true) info name
    (visits_noteTarget howner info.id (ctx.lookupWrite scope name)
      (if reads then ctx.lookupRead scope name else none) Facts.typeOf)

theorem visits_resolveEntryName (hinfo : info.id ∈ own) (name : String) :
    Visits ctx.library own 0 (resolveEntryName ctx scope info name) := by
  unfold resolveEntryName
  split
  · split
    · exact visits_note hinfo (.meaning _)
    · exact .pure own _
  · exact visits_note hinfo (.meaning _)
  · exact visits_warn (by decide) _ _

theorem visits_inferVariable (hnode : node ∈ own) (written : Option TypeRef)
    (ty : TypeId) : Visits ctx.library own 0 (inferVariable node written ty) := by
  refine (visits_isDeclared ctx.library node).first fun declared => ?_
  split
  · exact visits_note hnode (.variableType ty)
  · exact .pure own _

theorem visits_resolveClauseType (hnode : node ∈ own) (written : Option TypeRef) :
    Visits ctx.library own 0 (resolveClauseType ctx node written) := by
  unfold resolveClauseType
  split
  · exact visits_read _
  · refine (visits_resolveType ctx.workspace ctx.library _).first fun ty => ?_
    split
    · exact visits_read _
    · exact (visits_note hnode (.catchType ty)).done _

end

/-! ## Bodies -/

section
variable {uri : String} {own : List NodeId}

theorem visits_typed_expr {find : Resolving TypeId} (e : Expr)
    (hname : (Node.expr e).ownMarks = {.write e.id, .type e.id})
    (hfind : Visits uri (e.id :: own) ((Node.exprChildren e).map fun c => c.2.marks).sum find) :
    Visits uri own (Node.expr e).marks (typed e.id find) := by
  rw [Node.marks_expr, hname]
  exact visits_typed e.id hfind

theorem visits_stmt {step : Resolving α} (s : Stmt)
    (hstep : Visits uri own ((Node.stmtChildren s).map fun c => c.2.marks).sum step) :
    Visits uri own (Node.stmt s).marks step := by
  rw [Node.marks_stmt, add_comm]
  exact hstep.add _ (by simp)

end

section
variable {ctx : BodyContext}

mutual

theorem visits_resolveExpr {own : List NodeId} {scope : Names} :
    (e : Expr) → (Node.expr e).Shaped →
      Visits ctx.library own (Node.expr e).marks (resolveExpr ctx scope e)
  | .name info name, _ => by
    rw [resolveExpr, Node.marks_name]
    exact visits_typed info.id (visits_resolveName mem_cons_self name)
  | .literal info value, _ =>
    visits_typed_expr (.literal info value) rfl (visits_read _)
  | .list info items, h => by
    refine visits_typed_expr (.list info items) rfl (Visits.of_eq (s := exprsMarks items) ?_
      (by simp [exprsMarks, Node.exprChildren, Function.comp_def]))
    exact (visits_resolveExprs items (Node.all_list.mp h).2).last fun _ =>
      visits_read _
  | .self info, _ => visits_typed_expr (.self info) rfl (.pure _ _)
  | .member info target name, h => by
    refine visits_typed_expr (.member info target name) rfl ?_
    apply (visits_resolveReceiver (visits_resolveExpr target (Node.all_member.mp h).2)).bind
    exact fun r => visits_resolveMember mem_cons_self r name
  | .call info callee args creation, h => by
    obtain ⟨-, hcallee, hargs⟩ := Node.all_call.mp h
    refine visits_typed_expr (.call info callee args creation) rfl
      (Visits.of_eq (s := (Node.expr callee).marks + exprsMarks args) ?_
        (by simp [exprsMarks, Node.exprChildren, Function.comp_def]))
    have hrest : ∀ i : Invocation, Visits ctx.library (info.id :: own) (exprsMarks args) (do
        noteInvocation info.id i
        resolveArgs ctx scope i.params args
        return i.result) := by
      intro i
      refine (visits_noteInvocation mem_cons_self i).first fun _ => ?_
      exact (visits_resolveArgs args hargs i.params).done _
    by_cases hnamed : callee.isNamed = true
    · simp only [hnamed, if_true]
      refine (visits_resolveCallee callee hnamed hcallee).bind fun found => ?_
      cases found with
      | none => exact (Visits.pure _ _).first hrest
      | some e => exact (visits_invoke ctx.workspace ctx.library e).first hrest
    · simp only [hnamed]
      refine (visits_resolveExpr callee hcallee).bind fun ty => ?_
      exact (visits_callResult ty).first fun _ => (Visits.pure _ _).first hrest
  | .index info target index, h => by
    obtain ⟨-, htarget, hindex⟩ := Node.all_index.mp h
    refine visits_typed_expr (.index info target index) rfl ?_
    refine (visits_resolveExpr target htarget).bind fun ty => ?_
    exact (visits_resolveExpr index hindex).bind fun _ =>
      visits_applyOperator mem_cons_self ty _
  | .binary info op left right, h => by
    obtain ⟨-, hleft, hright⟩ := Node.all_binary.mp h
    refine visits_typed_expr (.binary info op left right) rfl ?_
    refine (visits_resolveExpr left hleft).bind fun ty => ?_
    exact (visits_resolveExpr right hright).bind fun _ =>
      visits_applyBinary mem_cons_self op ty
  | .unary info op operand, h => by
    refine visits_typed_expr (.unary info op operand) rfl ?_
    exact (visits_resolveExpr operand (Node.all_unary.mp h).2).bind fun ty =>
      visits_applyUnary mem_cons_self op ty
  | .step info op form operand, h => by
    obtain ⟨hassignable, hoperand⟩ := Node.all_step.mp h
    refine visits_typed_expr (.step info op form operand) rfl ?_
    apply (visits_resolveTarget true operand hassignable hoperand mem_cons_self).bind
    intro ty
    exact (visits_applyOperator mem_cons_self ty _).done _
  | .assign info op target value, h => by
    obtain ⟨hassignable, htarget, hvalue⟩ := Node.all_assign.mp h
    refine visits_typed_expr (.assign info op target value) rfl ?_
    apply (visits_resolveTarget op.reads target hassignable htarget mem_cons_self).bind
    intro old
    refine (visits_resolveExpr value hvalue).bind fun ty => ?_
    cases op with
    | plain => exact .pure _ _
    | ifNull => exact .pure _ _
    | compound op => exact visits_applyOperator mem_cons_self old _
  | .throw info value, h => by
    refine visits_typed_expr (.throw info value) rfl ?_
    exact (visits_resolveExpr value (Node.all_throw.mp h).2).bind fun _ => .pure _ _
  | .rethrow info, _ => visits_typed_expr (.rethrow info) rfl (.pure _ _)
  | .lambda info params body, h => by
    obtain ⟨-, hparams, hbody⟩ := Node.all_lambda.mp h
    refine visits_typed_expr (.lambda info params body) rfl (Visits.of_eq
      (s := (params.map fun p => (Node.param p).marks).sum + (Node.ofBody body).marks) ?_
      (by simp [Node.exprChildren, Function.comp_def]))
    refine (visits_resolveLambdaParams params 0 hparams).bind fun elements => ?_
    exact (visits_resolveBody body hbody).last fun _ => visits_newFunction _ _

theorem visits_resolveExprs {own : List NodeId} {scope : Names} :
    (es : List Expr) → (∀ e ∈ es, (Node.expr e).Shaped) →
      Visits ctx.library own (exprsMarks es) (resolveExprs ctx scope es)
  | [], _ => .pure _ _
  | e :: rest, h => by
    obtain ⟨he, hrest⟩ := forall_mem_cons.mp h
    exact (visits_resolveExpr e he).bind fun _ => visits_resolveExprs rest hrest

/-- The parameter of an argument is noted at the argument, which has a mark of
its own for it. -/
theorem visits_resolveArgs {own : List NodeId} {scope : Names} :
    (args : List Expr) → (∀ e ∈ args, (Node.expr e).Shaped) →
      (params : List ParameterElement) →
      Visits ctx.library own (exprsMarks args) (resolveArgs ctx scope params args)
  | [], _, _ => .pure _ _
  | e :: rest, h, params => by
    obtain ⟨he, hargs⟩ := forall_mem_cons.mp h
    have hrest : ∀ own, Visits ctx.library own (exprsMarks (e :: rest)) (do
        let _ ← resolveExpr ctx scope e
        resolveArgs ctx scope params.tail rest) := fun own =>
      (visits_resolveExpr e he).bind fun _ =>
        visits_resolveArgs rest hargs params.tail
    rw [resolveArgs]
    cases hhead : params.head? with
    | none => exact hrest own
    | some p =>
      have hnoted := (visits_note mem_cons_self (.argument p)).first fun _ =>
        hrest (e.id :: own)
      exact hnoted.absorb_cons (Multiset.mem_add.mpr (.inl (Node.expr e).write_id_mem_marks))

theorem visits_resolveCallee {own : List NodeId} {scope : Names} :
    (e : Expr) → e.isNamed = true → (Node.expr e).Shaped →
      Visits ctx.library own (Node.expr e).marks (resolveCallee ctx scope e)
  | .name info name, _, _ => visits_resolveCalleeName info name
  | .member info target name, _, h => by
    rw [resolveCallee, Node.marks_member]
    apply (visits_resolveReceiver (visits_resolveExpr target (Node.all_member.mp h).2)).bind
    exact fun r => visits_resolveCalleeMember info r name

theorem visits_resolveTarget {own : List NodeId} {scope : Names} {owner : NodeId} (reads : Bool) :
    (e : Expr) → e.isAssignable = true → (Node.expr e).Shaped →
      owner ∈ own →
      Visits ctx.library own (Node.expr e).marks (resolveTarget ctx scope owner reads e)
  | .name info name, _, _, howner => visits_resolveTargetName howner reads info name
  | .member info target name, _, h, howner => by
    rw [resolveTarget, Node.marks_member]
    apply (visits_resolveReceiver (visits_resolveExpr target (Node.all_member.mp h).2)).bind
    exact fun r => visits_noteTarget howner info.id _ _ _
  | .index info target index, _, h, howner => by
    obtain ⟨-, htarget, hindex⟩ := Node.all_index.mp h
    have hmarks : (Node.expr (.index info target index)).marks =
        (Node.expr target).marks + ((Node.expr index).marks + {.write info.id, .type info.id}) := by
      rw [Node.marks_expr, add_comm, ← add_assoc]
      simp [Node.ownMarks, Node.exprChildren, Expr.id, Expr.info]
    rw [resolveTarget, hmarks]
    refine (visits_resolveExpr target htarget).bind fun ty => ?_
    exact (visits_resolveExpr index hindex).bind fun _ =>
      visits_noteTarget howner info.id _ _ _

theorem visits_resolveBody {own : List NodeId} {scope : Names} :
    (b : Body) → (Node.ofBody b).Shaped →
      Visits ctx.library own (Node.ofBody b).marks (resolveBody ctx scope b)
  | .block b, h => (visits_resolveBlock b h).done _
  | .value e, h => visits_resolveExpr e h

theorem visits_resolveBody? {own : List NodeId} {scope : Names} :
    (b : Option Body) → (∀ b' ∈ b, (Node.ofBody b').Shaped) →
      Visits ctx.library own (Node.bodyMarks b) (resolveBody? ctx scope b)
  | none, _ => .pure _ _
  | some b, h => by
    refine Visits.of_eq ?_ (show (Node.ofBody b).marks = Node.bodyMarks (some b) by
      simp [Node.bodyMarks])
    exact (visits_resolveBody b (h b rfl)).done _

theorem visits_resolveLambdaParams {own : List NodeId} {scope : Names} :
    (params : List Param) → (index : Nat) →
      (∀ p ∈ params, (Node.param p).Shaped) →
      Visits ctx.library own (params.map fun p => (Node.param p).marks).sum
        (resolveLambdaParams ctx scope index params)
  | [], _, _ => .pure _ _
  | p :: rest, index, h => by
    obtain ⟨hp, hrest⟩ := forall_mem_cons.mp h
    have hparam : Visits ctx.library own (Node.param p).marks (do
        resolveParamMetadata ctx scope p
        let type ← resolveType? ctx.workspace ctx.library p.type
        declareParam ctx.library p index type) := by
      have hdeclared : Visits ctx.library (p.id :: own) (metadataMarks p.metadata) (do
          resolveParamMetadata ctx scope p
          let type ← resolveType? ctx.workspace ctx.library p.type
          declareParam ctx.library p index type) := by
        refine (visits_resolveParamMetadata p hp).last fun _ => ?_
        exact (visits_resolveType? ctx.workspace ctx.library p.type).first fun ty =>
          visits_declareParam ctx.library mem_cons_self index ty
      rw [Node.marks_param]
      exact (hdeclared.add p.plainMarks p.type_notMem_plainMarks).absorb_cons
        (by simp [Param.plainMarks])
    rw [resolveLambdaParams, map_cons, sum_cons]
    have hlater : Visits ctx.library own _ (resolveLambdaParams ctx scope (index + 1) rest) :=
      visits_resolveLambdaParams rest (index + 1) hrest
    have hall := hparam.bind fun element =>
      hlater.last fun elements => .pure own (element :: elements)
    simpa only [bind_assoc] using hall

theorem visits_resolveParamMetadata {own : List NodeId} {scope : Names} :
    (p : Param) → (Node.param p).Shaped →
      Visits ctx.library own (metadataMarks p.metadata) (resolveParamMetadata ctx scope p)
  | ⟨_, _, _, _, entries⟩, h => visits_resolveMetadata entries (Node.all_param.mp h).2.2

theorem visits_resolveParamsMetadata {own : List NodeId} {scope : Names} :
    (params : List Param) → (∀ p ∈ params, (Node.param p).Shaped) →
      Visits ctx.library own (params.map fun p => metadataMarks p.metadata).sum
        (resolveParamsMetadata ctx scope params)
  | [], _ => .pure _ _
  | p :: rest, h => by
    obtain ⟨hp, hrest⟩ := forall_mem_cons.mp h
    exact (visits_resolveParamMetadata p hp).bind fun _ =>
      visits_resolveParamsMetadata rest hrest

theorem visits_resolveMetadata {own : List NodeId} {scope : Names} :
    (entries : List Metadatum) → (∀ m ∈ entries, (Node.metadatum m).Shaped) →
      Visits ctx.library own (metadataMarks entries) (resolveMetadata ctx scope entries)
  | [], _ => .pure _ _
  | m :: rest, h => by
    obtain ⟨hm, hrest⟩ := forall_mem_cons.mp h
    exact (visits_resolveEntry m hm).bind fun _ => visits_resolveMetadata rest hrest

theorem visits_resolveEntry {own : List NodeId} {scope : Names} :
    (m : Metadatum) → (Node.metadatum m).Shaped →
      Visits ctx.library own (Node.metadatum m).marks (resolveEntry ctx scope m)
  | ⟨info, name, none⟩, _ => by
    rw [resolveEntry, Node.marks_metadatum]
    have hname : Visits ctx.library (info.id :: own) 0 (resolveEntryName ctx scope info name) :=
      visits_resolveEntryName mem_cons_self name
    exact ((hname.add {.write info.id} (by simp)).absorb_cons (by simp)).of_eq
      (by simp [exprsMarks, Metadatum.id])
  | ⟨info, name, some args⟩, h => by
    rw [resolveEntry, Node.marks_metadatum]
    have hboth : Visits ctx.library (info.id :: own) (exprsMarks args) (do
        resolveEntryName ctx scope info name
        resolveExprs ctx scope args) :=
      (visits_resolveEntryName mem_cons_self name).first fun _ =>
        visits_resolveExprs args (Node.all_metadatum.mp h).2
    exact ((hboth.add {.write info.id} (by simp)).of_eq (add_comm _ _)).absorb_cons (by simp)

theorem visits_resolveBlock {own : List NodeId} {scope : Names} :
    (b : Block) → (Node.block b).Shaped →
      Visits ctx.library own (Node.block b).marks (resolveBlock ctx scope b)
  | ⟨info, statements⟩, h => by
    rw [resolveBlock, Node.marks_block]
    exact (visits_resolveStmts statements (Node.all_block.mp h).2).add _ (by simp)

theorem visits_resolveBlock? {own : List NodeId} {scope : Names} :
    (b : Option Block) → (∀ b' ∈ b, (Node.block b').Shaped) →
      Visits ctx.library own (b.toList.map fun b => (Node.block b).marks).sum
        (resolveBlock? ctx scope b)
  | none, _ => .pure _ _
  | some b, h => (visits_resolveBlock b (h b rfl)).of_eq (by simp)

theorem visits_resolveStmts {own : List NodeId} {scope : Names} :
    (statements : List Stmt) → (∀ s ∈ statements, (Node.stmt s).Shaped) →
      Visits ctx.library own (statements.map fun s => (Node.stmt s).marks).sum
        (resolveStmts ctx scope statements)
  | [], _ => .pure _ _
  | s :: rest, h => by
    obtain ⟨hs, hrest⟩ := forall_mem_cons.mp h
    exact (visits_resolveStmt s hs).bind fun inner => visits_resolveStmts rest hrest

theorem visits_resolveStmt {own : List NodeId} {scope : Names} :
    (s : Stmt) → (Node.stmt s).Shaped →
      Visits ctx.library own (Node.stmt s).marks (resolveStmt ctx scope s)
  | .block b, h => (visits_resolveBlock b h).done _
  | .expr info e, h => by
    refine visits_stmt (.expr info e) ?_
    exact (visits_resolveExpr e (Node.all_exprStmt.mp h).2).bind fun _ => .pure _ _
  | .ret info value, h => by
    refine visits_stmt (.ret info value) (Visits.of_eq
      (s := (value.toList.map fun e => (Node.expr e).marks).sum) ?_
      (by simp [Node.stmtChildren, Function.comp_def]))
    exact (visits_resolveExpr? value (Node.all_ret.mp h).2).done _
  | .branch info cond thenBlock elseBlock, h => by
    obtain ⟨-, hcond, hthen, helse⟩ := Node.all_branch.mp h
    refine visits_stmt (.branch info cond thenBlock elseBlock) (Visits.of_eq
      (s := (Node.expr cond).marks + ((Node.block thenBlock).marks +
        (elseBlock.toList.map fun b => (Node.block b).marks).sum)) ?_
      (by simp [Node.stmtChildren, Function.comp_def]))
    refine (visits_resolveExpr cond hcond).bind fun _ => ?_
    refine (visits_resolveBlock thenBlock hthen).bind fun _ => ?_
    exact (visits_resolveBlock? elseBlock helse).done _
  | .loop info cond body, h => by
    obtain ⟨-, hcond, hbody⟩ := Node.all_loop.mp h
    refine visits_stmt (.loop info cond body) ?_
    refine (visits_resolveExpr cond hcond).bind fun _ => ?_
    exact (visits_resolveBlock body hbody).bind fun _ => .pure _ _
  | .leave info, _ => visits_stmt (.leave info) (.pure own scope)
  | .next info, _ => visits_stmt (.next info) (.pure own scope)
  | .guarded info body catches finallyBlock, h => by
    obtain ⟨-, hbody, hcatches, hfinally⟩ := Node.all_guarded.mp h
    refine visits_stmt (.guarded info body catches finallyBlock) (Visits.of_eq
      (s := (Node.block body).marks + ((catches.map fun c => (Node.clause c).marks).sum +
        (finallyBlock.toList.map fun b => (Node.block b).marks).sum)) ?_
      (by simp [Node.stmtChildren, Function.comp_def]))
    refine (visits_resolveBlock body hbody).bind fun _ => ?_
    refine (visits_resolveClauses catches hcatches).bind fun _ => ?_
    exact (visits_resolveBlock? finallyBlock hfinally).done _
  | .variable d, h => by
    rw [resolveStmt, Node.marks_varDecl]
    have hall : Visits ctx.library (d.id :: own) (Node.varMarks d) (do
        setVariableType d.id (← resolveType? ctx.workspace ctx.library d.type)
        setDeclared d.id (.variable ⟨.declared d, ctx.library, none⟩)
        resolveVariable ctx scope d
        return (d.name, Element.variable ⟨.declared d, ctx.library, none⟩) :: scope) := by
      refine (visits_resolveType? ctx.workspace ctx.library d.type).first fun ty => ?_
      refine (visits_note mem_cons_self (.variableType ty)).first fun _ => ?_
      refine (visits_setDeclared mem_cons_self rfl rfl).first fun _ => ?_
      exact (visits_resolveVariable d (Node.all_iff.mp h).2 mem_cons_self).done _
    exact (hall.add _ (by simp [type_notMem_typeMarks])).absorb_cons (by simp)
  | .function d, h => by
    rw [resolveStmt, Node.marks_functionDecl]
    have hall : Visits ctx.library (d.id :: (d.params.map Param.id ++ own))
        (Node.functionMarks d) (do
          let signature ← resolveSignature ctx.workspace ctx.library none d
          setDeclared d.id (.executable ⟨.declared d, ctx.library, none⟩)
          resolveFunction ctx
            ((d.name, Element.executable ⟨.declared d, ctx.library, none⟩) :: scope)
            signature.params d
          return (d.name, Element.executable ⟨.declared d, ctx.library, none⟩) :: scope) := by
      apply (visits_resolveSignature ctx.workspace ctx.library none mem_cons_self ?_).first
      · intro signature
        refine (visits_setDeclared mem_cons_self rfl rfl).first fun _ => ?_
        exact (visits_resolveFunction d signature.params (Node.all_iff.mp h).2).done _
      · intro p hp
        exact mem_cons_of_mem _ (mem_append_left _ (mem_map_of_mem hp))
    refine (hall.add _ (by simp [type_notMem_typeMarks, type_notMem_sum_plainMarks])).absorb ?_
    intro n hn
    rcases mem_cons.mp hn with rfl | hmem
    · exact .inr (by simp)
    · rcases mem_append.mp hmem with hparam | hown
      · obtain ⟨p, hp, rfl⟩ := mem_map.mp hparam
        exact .inr (by simp [write_mem_sum_plainMarks hp])
      · exact .inl hown

theorem visits_resolveExpr? {own : List NodeId} {scope : Names} :
    (e : Option Expr) → (∀ e' ∈ e, (Node.expr e').Shaped) →
      Visits ctx.library own (e.toList.map fun e => (Node.expr e).marks).sum
        (resolveExpr? ctx scope e)
  | none, _ => .pure _ _
  | some e, h => by
    refine Visits.of_eq ?_ (show (Node.expr e).marks = _ by simp)
    exact (visits_resolveExpr e (h e rfl)).done _

theorem visits_resolveClauses {own : List NodeId} {scope : Names} :
    (clauses : List CatchClause) → (∀ c ∈ clauses, (Node.clause c).Shaped) →
      Visits ctx.library own (clauses.map fun c => (Node.clause c).marks).sum
        (resolveClauses ctx scope clauses)
  | [], _ => .pure _ _
  | c :: rest, h => by
    obtain ⟨hc, hrest⟩ := forall_mem_cons.mp h
    exact (visits_resolveClause c hc).bind fun _ => visits_resolveClauses rest hrest

theorem visits_resolveClause {own : List NodeId} {scope : Names} :
    (c : CatchClause) → (Node.clause c).Shaped →
      Visits ctx.library own (Node.clause c).marks (resolveClause ctx scope c)
  | ⟨info, written, binder, stackBinder, body⟩, h => by
    rw [resolveClause, Node.marks_clause]
    have hall : Visits ctx.library (info.id :: own) (Node.block body).marks (do
        let type ← resolveClauseType ctx info.id written
        let names := clauseNames ctx (← get) ⟨info, written, binder, stackBinder, body⟩ type
        resolveBlock ctx (names ++ scope) body) := by
      refine (visits_resolveClauseType mem_cons_self written).first fun ty => ?_
      refine visits_get.first fun f => ?_
      exact visits_resolveBlock body (Node.all_clause.mp h).2.2
    exact (hall.add _ (by simp [type_notMem_typeMarks])).absorb_cons (by simp [CatchClause.id])

theorem visits_resolveVariable {own : List NodeId} {scope : Names} :
    (d : VarDecl) → (Node.varDecl d).AllBelow Node.WellShaped → d.id ∈ own →
      Visits ctx.library own (Node.varMarks d) (resolveVariable ctx scope d)
  | ⟨_, _, _, written, init, _, entries⟩, h, hown => by
    obtain ⟨-, hinit, hentries⟩ := Node.allBelow_varDecl.mp h
    exact (visits_resolveMetadata entries hentries).bind fun _ =>
      visits_resolveInit written init hinit hown

theorem visits_resolveInit {own : List NodeId} {scope : Names} {node : NodeId}
    (written : Option TypeRef) :
    (init : Option Expr) → (∀ e ∈ init, (Node.expr e).Shaped) →
      node ∈ own →
      Visits ctx.library own (init.toList.map fun e => (Node.expr e).marks).sum
        (resolveInit ctx scope node written init)
  | none, _, _ => .pure _ _
  | some e, h, hown => by
    refine Visits.of_eq ?_ (show (Node.expr e).marks = _ by simp)
    exact (visits_resolveExpr e (h e rfl)).last fun ty =>
      visits_inferVariable hown written ty

theorem visits_resolveFunction {own : List NodeId} {scope : Names} :
    (d : FunctionDecl) → (elements : List ParameterElement) →
      (Node.functionDecl d).AllBelow Node.WellShaped →
      Visits ctx.library own (Node.functionMarks d) (resolveFunction ctx scope elements d)
  | ⟨_, _, _, _, params, _, body, _, entries⟩, elements, h => by
    obtain ⟨hparams, -, hbody, hentries⟩ := Node.allBelow_functionDecl.mp h
    exact (visits_resolveMetadata entries hentries).bind fun _ =>
      (visits_resolveParamsMetadata params hparams).bind fun _ => visits_resolveBody? body hbody

end

end

end CheckedThrows
