import CheckedThrows.Proofs.SoundFacts

/-!
# Steps only add

No step of the resolution takes a type out of the table or a fault back.  So if
all is well at the end of a run, it was so all along, and what the table is at the
end bounds what it was before.  That a step only adds is found from its parts by
instance search.
-/

namespace CheckedThrows

namespace Resolving

/-- A step that only adds to the table and to the faults. -/
class Adds {α : Type} (step : Resolving α) : Prop where
  table : ∀ f : Facts, f.types.Extends (step.run f).2.types
  faults : ∀ f : Facts, (step.run f).2.faults = [] → f.faults = []

section
variable {α β : Type}

instance (a : α) : Adds (pure a) := ⟨fun _ => .refl _, fun _ h => h⟩

instance : Adds get := ⟨fun _ => .refl _, fun _ h => h⟩

theorem Adds.bind {step : Resolving α} {next : α → Resolving β} (hstep : Adds step)
    (hnext : ∀ a, Adds (next a)) : Adds (step >>= next) where
  table f := (hstep.table f).trans ((hnext _).table _)
  faults f h := hstep.faults f ((hnext _).faults _ h)

instance (step : Resolving α) (next : α → Resolving β) [hstep : Adds step]
    [hnext : ∀ a, Adds (next a)] : Adds (step >>= next) :=
  hstep.bind hnext

instance (c : Prop) [Decidable c] (a b : Resolving α) [ha : Adds a] [hb : Adds b] :
    Adds (if c then a else b) := by
  split
  · exact ha
  · exact hb

instance (l : List α) (act : α → Resolving Unit) [hact : ∀ a, Adds (act a)] :
    Adds (l.forM act) := by
  induction l with
  | nil => exact inferInstanceAs (Adds (pure ()))
  | cons a l ih => exact inferInstanceAs (Adds (act a >>= fun _ => l.forM act))

theorem Adds.of_same {update : Facts → Facts} (htypes : ∀ f, (update f).types = f.types)
    (hfaults : ∀ f, (update f).faults = f.faults) : Adds (modify update) where
  table f := by
    show f.types.Extends (update f).types
    rw [htypes]
    exact .refl _
  faults f h := by
    rw [← hfaults]
    exact h

end

/-! ## Single entries -/

section
variable (node : NodeId) (type : TypeId) (e : Element)

instance (code : String) (span : Span) (message : Text) : Adds (warn code span message) :=
  .of_same (fun _ => rfl) fun _ => rfl

instance (n : Notice) : Adds (notice n) := .of_same (fun _ => rfl) fun _ => rfl

instance (params : List TypeId) (returns : TypeId) : Adds (newFunction params returns) where
  table f := f.types.extends_intern _
  faults _ h := h

instance : Adds (setDeclared node e) := .of_same (fun _ => rfl) fun _ => rfl

instance (s : Signature) : Adds (setSignature node s) := .of_same (fun _ => rfl) fun _ => rfl

instance : Adds (setVariableType node type) := .of_same (fun _ => rfl) fun _ => rfl

instance : Adds (setType node type) := .of_same (fun _ => rfl) fun _ => rfl

instance : Adds (setMeaning node e) := .of_same (fun _ => rfl) fun _ => rfl

instance : Adds (setRead node e) := .of_same (fun _ => rfl) fun _ => rfl

instance : Adds (setWrite node e) := .of_same (fun _ => rfl) fun _ => rfl

instance (e : ExecutableElement) : Adds (setOperator node e) :=
  .of_same (fun _ => rfl) fun _ => rfl

instance (p : ParameterElement) : Adds (setArgument node p) :=
  .of_same (fun _ => rfl) fun _ => rfl

instance : Adds (setCatchType node type) := .of_same (fun _ => rfl) fun _ => rfl

instance (fault : UnknownType) : Adds (fail fault) where
  table _ := .refl _
  faults f h := by
    have hnone : f.faults ++ [fault] = [] := h
    simp at hnone

instance : Adds (callResult type) := by
  refine .bind inferInstance fun f => ?_
  split <;> infer_instance

instance (find : Resolving TypeId) [Adds find] : Adds (typed node find) := by
  unfold typed
  infer_instance

end

/-! ## Signatures -/

section
variable (w : Workspace) (uri : String)

instance (t : TypeName) : Adds (resolveTypeName w uri t) := by
  unfold resolveTypeName
  split
  · infer_instance
  · infer_instance
  · infer_instance
  · split <;> infer_instance

mutual

theorem adds_resolveType : (t : TypeRef) → Adds (resolveType w uri t)
  | .named t => by
    rw [resolveType]
    infer_instance
  | .function info returns params nullable => by
    have := adds_resolveType? returns
    have := adds_resolveTypes params
    rw [resolveType]
    infer_instance

theorem adds_resolveType? : (t : Option TypeRef) → Adds (resolveType? w uri t)
  | none => by
    rw [resolveType?]
    infer_instance
  | some t => adds_resolveType t

theorem adds_resolveTypes : (ts : List TypeRef) → Adds (resolveTypes w uri ts)
  | [] => by
    rw [resolveTypes]
    infer_instance
  | t :: ts => by
    have := adds_resolveType t
    have := adds_resolveTypes ts
    rw [resolveTypes]
    infer_instance

end

attribute [instance] adds_resolveType adds_resolveType? adds_resolveTypes

instance (owner : Option ClassElement) (p : Param) : Adds (resolveParamType w uri owner p) := by
  unfold resolveParamType
  split
  · split <;> infer_instance
  · infer_instance

instance (p : Param) (index : Nat) (type : TypeId) : Adds (declareParam uri p index type) := by
  unfold declareParam
  infer_instance

instance (owner : Option ClassElement) (index : Nat) (params : List Param) :
    Adds (declareParams w uri owner index params) := by
  induction params generalizing index with
  | nil =>
    rw [declareParams]
    infer_instance
  | cons p params ih =>
    have := ih (index + 1)
    rw [declareParams]
    infer_instance

instance (owner : Option ClassElement) (d : FunctionDecl) :
    Adds (resolveSignature w uri owner d) := by
  refine .bind inferInstance fun params => ?_
  split <;> infer_instance

instance (node : NodeId) : Adds (isDeclared node) := by
  unfold isDeclared
  infer_instance

instance (d : VarDecl) : Adds (resolveVariableType w uri d) := by
  unfold resolveVariableType
  infer_instance

instance (owner : Option ClassElement) (d : FunctionDecl) :
    Adds (resolveFunctionSignature w uri owner d) := by
  unfold resolveFunctionSignature
  infer_instance

instance (c : ClassElement) : Adds (resolveClassSignatures w c) := by
  refine .bind inferInstance fun _ => .bind inferInstance fun _ => ?_
  split <;> infer_instance

instance (d : Declaration) : Adds (resolveDeclarationSignature w uri d) := by
  unfold resolveDeclarationSignature
  cases d with
  | «class» d =>
    refine .bind inferInstance fun f => ?_
    split <;> infer_instance
  | function d => infer_instance
  | «variable» d => infer_instance

end

/-! ## Bodies -/

section
variable (ctx : BodyContext) (scope : Names) (node : NodeId) (info : NodeInfo) (name : String)
  (r : Receiver)

instance : Adds (undefinedName ctx info name) := by
  unfold undefinedName
  infer_instance

instance : Adds (resolveName ctx scope info name) := by
  unfold resolveName
  split <;> infer_instance

instance (target : Expr) (value : Resolving TypeId) [Adds value] :
    Adds (resolveReceiver ctx scope target value) := by
  unfold resolveReceiver
  split <;> infer_instance

instance : Adds (resolveMember ctx info r name) := by
  unfold resolveMember
  split <;> infer_instance

instance (callee : Option Element) : Adds (setCallee node callee) := by
  cases callee with
  | none => exact .bind inferInstance fun _ => inferInstance
  | some e => exact .bind inferInstance fun _ => inferInstance

instance : Adds (resolveCalleeName ctx scope info name) := by
  unfold resolveCalleeName
  infer_instance

instance : Adds (resolveCalleeMember ctx info r name) := by
  unfold resolveCalleeMember
  infer_instance

instance (w : Workspace) (e : Element) : Adds (invoke w e) := by
  cases e with
  | «class» c => exact .bind inferInstance fun _ => inferInstance
  | executable e =>
    refine .bind inferInstance fun f => ?_
    split <;> infer_instance
  | «variable» v => exact .bind inferInstance fun _ => inferInstance
  | parameter p => exact .bind inferInstance fun _ => inferInstance

instance (i : Invocation) : Adds (noteInvocation node i) := by
  unfold noteInvocation
  split <;> infer_instance

instance (receiver : TypeId) : Adds (applyOperator ctx node receiver name) := by
  unfold applyOperator
  dsimp only
  split <;> infer_instance

instance (op : BinaryOp) (left : TypeId) : Adds (applyBinary ctx node op left) := by
  unfold applyBinary
  split <;> infer_instance

instance (op : UnaryOp) (operand : TypeId) : Adds (applyUnary ctx node op operand) := by
  unfold applyUnary
  split <;> infer_instance

instance (target : NodeId) (write read : Option Element) (readType : Facts → Element → TypeId) :
    Adds (noteTarget node target write read readType) := by
  unfold noteTarget
  cases write <;> cases read <;> infer_instance

instance (reads : Bool) : Adds (resolveTargetName ctx scope node reads info name) := by
  unfold resolveTargetName
  infer_instance

instance (reads : Bool) : Adds (resolveTargetMember ctx node reads info r name) := by
  unfold resolveTargetMember
  infer_instance

instance (reads : Bool) (target : TypeId) :
    Adds (resolveTargetIndex ctx node reads info target) := by
  unfold resolveTargetIndex
  infer_instance

instance : Adds (resolveEntryName ctx scope info name) := by
  unfold resolveEntryName
  split
  · split <;> infer_instance
  · infer_instance
  · infer_instance

instance (written : Option TypeRef) (type : TypeId) : Adds (inferVariable node written type) := by
  unfold inferVariable
  infer_instance

instance (written : Option TypeRef) : Adds (resolveClauseType ctx node written) := by
  unfold resolveClauseType
  split <;> infer_instance

end

section
variable (ctx : BodyContext)

/-- By induction along the calls of the resolution, where the parts only add. -/
theorem adds_bodies :
    (∀ scope e, Adds (resolveExpr ctx scope e)) ∧
    (∀ scope b, Adds (resolveBody ctx scope b)) ∧
    (∀ scope b, Adds (resolveBlock ctx scope b)) ∧
    (∀ scope ss, Adds (resolveStmts ctx scope ss)) ∧
    (∀ scope s, Adds (resolveStmt ctx scope s)) ∧
    (∀ scope elements d, Adds (resolveFunction ctx scope elements d)) ∧
    (∀ scope b, Adds (resolveBody? ctx scope b)) ∧
    (∀ scope ps, Adds (resolveParamsMetadata ctx scope ps)) ∧
    (∀ scope p, Adds (resolveParamMetadata ctx scope p)) ∧
    (∀ scope ms, Adds (resolveMetadata ctx scope ms)) ∧
    (∀ scope m, Adds (resolveEntry ctx scope m)) ∧
    (∀ scope es, Adds (resolveExprs ctx scope es)) ∧
    (∀ scope d, Adds (resolveVariable ctx scope d)) ∧
    (∀ scope node written e, Adds (resolveInit ctx scope node written e)) ∧
    (∀ scope cs, Adds (resolveClauses ctx scope cs)) ∧
    (∀ scope c, Adds (resolveClause ctx scope c)) ∧
    (∀ scope b, Adds (resolveBlock? ctx scope b)) ∧
    (∀ scope e, Adds (resolveExpr? ctx scope e)) ∧
    (∀ scope index ps, Adds (resolveLambdaParams ctx scope index ps)) ∧
    (∀ scope owner reads e, Adds (resolveTarget ctx scope owner reads e)) ∧
    (∀ scope e, Adds (resolveCallee ctx scope e)) ∧
    ∀ scope params es, Adds (resolveArgs ctx scope params es) := by
  apply resolveExpr.mutual_induct ctx
  case case6 =>
    -- a call, of something named or of a value
    intro scope info callee args _ _ _ _
    refine .bind ?_ fun _ => inferInstance
    split
    · refine .bind inferInstance fun e => ?_
      cases e <;> infer_instance
    · infer_instance
  case case11 =>
    intro scope info op target value _ _
    rw [resolveExpr]
    cases op <;> infer_instance
  case case44 =>
    intro scope params e rest p hp _ _
    rw [resolveArgs, hp]
    infer_instance
  all_goals
    intros
    simp only [resolveExpr, resolveBody, resolveBlock, resolveStmts, resolveStmt, resolveFunction,
      resolveBody?, resolveParamsMetadata, resolveParamMetadata, resolveMetadata, resolveEntry,
      resolveExprs, resolveVariable, resolveInit, resolveClauses, resolveClause, resolveBlock?,
      resolveExpr?, resolveLambdaParams, resolveTarget, resolveCallee, resolveArgs]
    infer_instance

variable (scope : Names)

instance (e : Expr) : Adds (resolveExpr ctx scope e) := (adds_bodies ctx).1 scope e

instance (b : Body) : Adds (resolveBody ctx scope b) := (adds_bodies ctx).2.1 scope b

instance (b : Block) : Adds (resolveBlock ctx scope b) := (adds_bodies ctx).2.2.1 scope b

instance (ss : List Stmt) : Adds (resolveStmts ctx scope ss) := (adds_bodies ctx).2.2.2.1 scope ss

instance (elements : List ParameterElement) (d : FunctionDecl) :
    Adds (resolveFunction ctx scope elements d) :=
  (adds_bodies ctx).2.2.2.2.2.1 scope elements d

instance (b : Option Body) : Adds (resolveBody? ctx scope b) :=
  (adds_bodies ctx).2.2.2.2.2.2.1 scope b

instance (ps : List Param) : Adds (resolveParamsMetadata ctx scope ps) :=
  (adds_bodies ctx).2.2.2.2.2.2.2.1 scope ps

instance (ms : List Metadatum) : Adds (resolveMetadata ctx scope ms) :=
  (adds_bodies ctx).2.2.2.2.2.2.2.2.2.1 scope ms

instance (es : List Expr) : Adds (resolveExprs ctx scope es) :=
  (adds_bodies ctx).2.2.2.2.2.2.2.2.2.2.2.1 scope es

instance (d : VarDecl) : Adds (resolveVariable ctx scope d) :=
  (adds_bodies ctx).2.2.2.2.2.2.2.2.2.2.2.2.1 scope d

instance (node : NodeId) (written : Option TypeRef) (e : Option Expr) :
    Adds (resolveInit ctx scope node written e) :=
  (adds_bodies ctx).2.2.2.2.2.2.2.2.2.2.2.2.2.1 scope node written e

instance (cs : List CatchClause) : Adds (resolveClauses ctx scope cs) :=
  (adds_bodies ctx).2.2.2.2.2.2.2.2.2.2.2.2.2.2.1 scope cs

instance (b : Option Block) : Adds (resolveBlock? ctx scope b) :=
  (adds_bodies ctx).2.2.2.2.2.2.2.2.2.2.2.2.2.2.2.2.1 scope b

instance (index : Nat) (ps : List Param) : Adds (resolveLambdaParams ctx scope index ps) :=
  (adds_bodies ctx).2.2.2.2.2.2.2.2.2.2.2.2.2.2.2.2.2.2.1 scope index ps

instance (params : List ParameterElement) (es : List Expr) :
    Adds (resolveArgs ctx scope params es) :=
  (adds_bodies ctx).2.2.2.2.2.2.2.2.2.2.2.2.2.2.2.2.2.2.2.2.2 scope params es

end

/-! ## Programs -/

section
variable (ctx : BodyContext)

instance (d : FunctionDecl) : Adds (resolveDeclaredFunction ctx d) := by
  refine .bind inferInstance fun f => ?_
  split <;> infer_instance

instance (c : ClassElement) : Adds (resolveClassBodies ctx c) := by
  unfold resolveClassBodies
  infer_instance

instance adds_declaredClass (d : ClassDecl) : Adds (do
    match ((← get).declared[d.id]?).bind Element.toClass? with
    | some c => resolveClassBodies ctx c
    | none => return : Resolving Unit) := by
  refine .bind inferInstance fun f => ?_
  split <;> infer_instance

instance (w : Workspace) (l : Library) : Adds (resolveLibrary w l) := by
  unfold resolveLibrary
  infer_instance

end

end Resolving

end CheckedThrows
