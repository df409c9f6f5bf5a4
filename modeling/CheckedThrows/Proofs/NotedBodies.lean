import CheckedThrows.Proofs.NotedSteps

/-!
# What is noted in bodies

A body is gone through with the scope that its places see, so every name in it gets
the meaning that its place gives it, and everything else is noted where it may be.
The induction is on the tree; every statement of it speaks of the place at hand.
-/

namespace CheckedThrows

open List Resolving

theorem Place.numbers_sublist {root : Node} {p : Place} (hp : p ∈ walk root) :
    p.node.numbers.Sublist root.numbers := by
  rw [mem_walk_iff] at hp
  induction hp with
  | self => exact .refl _
  | child above isChild _ ih =>
    obtain ⟨c, hc, rfl⟩ := mem_children_iff.mp isChild
    exact (Node.numbers_sublist hc).trans ih

theorem Place.nodup_statements {u : CompilationUnit} (hnodup : (Node.unit u).numbers.Nodup)
    {p : Place} (hp : p ∈ walk (.unit u)) {b : Block} (hnode : p.node = .block b) :
    (b.statements.map Node.stmtId).Nodup := by
  have hnumbers := hnodup.sublist (numbers_sublist hp)
  rw [hnode] at hnumbers
  have hchildren := (nodup_cons.mp (hnumbers.sublist (Node.block b).sublist_numbers)).2
  simpa [Node.children, Node.stmtChildren, Function.comp_def, Node.id] using hchildren

/-! ## What steps hand on -/

theorem areOf_resolveLambdaParams (ctx : BodyContext) (scope : Names) (params : List Param)
    (index : Nat) (f : Facts) :
    ParameterElement.AreOf ctx.library params
      ((resolveLambdaParams ctx scope index params).run f).1 := by
  induction params generalizing index f with
  | nil =>
    exact ⟨rfl, forall_mem_nil _⟩
  | cons x rest ih =>
    obtain ⟨hparams, hlibrary⟩ := ih (index + 1) _
    exact ⟨congrArg (x :: ·) hparams, forall_mem_cons.mpr ⟨rfl, hlibrary⟩⟩

theorem scope_resolveStmt (ctx : BodyContext) (scope : Names) (s : Stmt) (f : Facts) :
    ((resolveStmt ctx scope s).run f).1 = Names.ofStmt ctx.library s ++ scope := by
  cases s <;> rw [resolveStmt] <;> rfl

section
variable {units : List CompilationUnit} (hunits : Numbered units) {skip : Place → Prop}
  {signed : NodeId → Prop} {u : CompilationUnit} (hu : u ∈ units)
  (hnodup : (Node.unit u).numbers.Nodup) (hshape : (Node.unit u).All Node.WellShaped)
  {ctx : BodyContext}

include hunits hu in
theorem notes_typed_expr {p : Place} {scope : Names} {e : Expr} (h : p.Sees units u ctx scope)
    (hreads : p.Reads e) (hname : ∀ info name, e ≠ .name info name) {node : NodeId}
    (hid : e.id = node) {find : Resolving TypeId} (hfind : Notes units skip signed find) :
    Notes units skip signed (typed node find) := by
  refine notes_typed hunits hu h.mem ?_ (by rw [hreads.node]; exact hid) hfind
  rw [Place.readName?, hreads.node]
  cases e with
  | name info name => exact (hname info name rfl).elim
  | _ => rfl

include hunits hu hnodup hshape

/-! ## Expressions and statements -/

set_option linter.unusedSectionVars false in
mutual

theorem notes_resolveExpr {p : Place} {scope : Names} : (e : Expr) → p.Sees units u ctx scope →
    p.Reads e → Notes units skip signed (resolveExpr ctx scope e)
  | .name info name, h, hreads => notes_name hunits hu h hreads
  | .literal info value, h, hreads =>
    notes_typed_expr hunits hu h hreads nofun rfl (preserves_read _)
  | .list info items, h, hreads => by
    refine notes_typed_expr hunits hu h hreads nofun rfl ?_
    refine (notes_resolveExprs items (p := p) fun e he => ?_).bind fun _ =>
      preserves_read _
    exact h.child hreads.node (mem_map_of_mem he)
  | .self info, h, hreads => notes_typed_expr hunits hu h hreads nofun rfl (.pure _)
  | .member info target name, h, hreads => by
    have htarget := h.child hreads.node mem_cons_self
    refine notes_typed_expr hunits hu h hreads nofun rfl ?_
    refine (notes_resolveReceiver hunits hu htarget (p.reads_child target)
      (notes_resolveExpr target htarget (p.reads_child target))).bind fun r => ?_
    exact notes_resolveMember hunits hu h.mem hreads r
  | .call info callee args creation, h, hreads => by
    have hargs : ∀ i : Invocation, Notes units skip signed (do
        resolveArgs ctx scope i.params args
        return i.result) := fun i =>
      (notes_resolveArgs args (p := p) (fun e he => h.child hreads.node
        (mem_cons_of_mem _ (mem_map_of_mem he))) i.params).done _
    refine notes_typed_expr hunits hu h hreads nofun rfl ?_
    cases hnamed : callee.isNamed with
    | true => exact notes_resolveCallee callee h hreads.node hnamed hargs
    | false =>
      have hcallee := h.child hreads.node mem_cons_self
      refine (notes_resolveExpr callee hcallee ⟨rfl, nofun, fun _ => hnamed⟩).bind fun type => ?_
      exact (notes_callResult type).bind fun result => hargs { result }
  | .index info target index, h, hreads => by
    have htarget := h.child hreads.node mem_cons_self
    have hindex := h.child hreads.node (mem_cons_of_mem _ mem_cons_self)
    refine notes_typed_expr hunits hu h hreads nofun rfl ?_
    refine (notes_resolveExpr target htarget (p.reads_child target)).bind fun receiver => ?_
    refine (notes_resolveExpr index hindex (p.reads_child index)).bind fun _ => ?_
    refine notes_applyOperator hu h.mem ?_ hreads.id receiver "[]"
    simpa [Place.appliesOperator, hreads.node] using hreads.slot
  | .binary info op left right, h, hreads => by
    have hleft := h.child hreads.node mem_cons_self
    have hright := h.child hreads.node (mem_cons_of_mem _ mem_cons_self)
    refine notes_typed_expr hunits hu h hreads nofun rfl ?_
    refine (notes_resolveExpr left hleft (p.reads_child left)).bind fun type => ?_
    refine (notes_resolveExpr right hright (p.reads_child right)).bind fun _ => ?_
    exact notes_applyBinary hu h.mem (by simp [Place.appliesOperator, hreads.node])
      hreads.id op type
  | .unary info op operand, h, hreads => by
    have hoperand := h.child hreads.node mem_cons_self
    refine notes_typed_expr hunits hu h hreads nofun rfl ?_
    refine (notes_resolveExpr operand hoperand (p.reads_child operand)).bind fun type => ?_
    exact notes_applyUnary hu h.mem (by simp [Place.appliesOperator, hreads.node])
      hreads.id op type
  | .step info op form operand, h, hreads => by
    have hoperand := h.child hreads.node mem_cons_self
    have hassignable : operand.isAssignable = true := by
      have hok := hshape p h.mem
      rw [hreads.node] at hok
      exact hok
    refine notes_typed_expr hunits hu h hreads nofun rfl ?_
    refine (notes_resolveTarget operand hassignable hoperand h.mem
      (by simp [Place.isWriting, hreads.node]) hreads.id fun _ => ?_).bind fun type => ?_
    · simp [Place.readsFirst, hreads.node]
    refine Preserves.bind ?_ fun _ => .pure _
    exact notes_applyOperator hu h.mem (by simp [Place.appliesOperator, hreads.node]) hreads.id type _
  | .assign info op target value, h, hreads => by
    have htarget := h.child hreads.node mem_cons_self
    have hvalue := h.child hreads.node (mem_cons_of_mem _ mem_cons_self)
    have hassignable : target.isAssignable = true := by
      have hok := hshape p h.mem
      rw [hreads.node] at hok
      exact hok
    refine notes_typed_expr hunits hu h hreads nofun rfl ?_
    refine (notes_resolveTarget target hassignable htarget h.mem
      (by simp [Place.isWriting, hreads.node]) hreads.id fun hop => ?_).bind fun old => ?_
    · simpa [Place.readsFirst, hreads.node] using hop
    refine (notes_resolveExpr value hvalue (p.reads_child value)).bind fun type => ?_
    cases op with
    | plain => exact .pure _
    | ifNull => exact .pure _
    | compound op =>
      exact notes_applyOperator hu h.mem
        (by simp [Place.appliesOperator, hreads.node, AssignOp.stores]) hreads.id old _
  | .throw info value, h, hreads => by
    have hvalue := h.child hreads.node mem_cons_self
    refine notes_typed_expr hunits hu h hreads nofun rfl ?_
    exact (notes_resolveExpr value hvalue (p.reads_child value)).done _
  | .rethrow info, h, hreads => notes_typed_expr hunits hu h hreads nofun rfl (.pure _)
  | .lambda info params body, h, hreads => by
    have hparams : ∀ x ∈ params, (Slot.other, .param x) ∈ p.node.children := fun x hx => by
      rw [hreads.node]
      exact mem_append_left _ (mem_map_of_mem hx)
    have hformals : ∀ x ∈ params, x.isFieldFormal = false := by
      have hok := hshape p h.mem
      rw [hreads.node] at hok
      exact hok
    refine notes_typed_expr hunits hu h hreads nofun rfl ?_
    refine Preserves.bind_of
      (notes_resolveLambdaParams params h.mem (by rw [hreads.node]; rfl) h.library hparams scope 0)
      (areOf_resolveLambdaParams ctx scope params 0) fun elements helements => ?_
    -- No parameter is a field formal, so all of them are seen.
    have hseen : elements.filter (fun x => !x.isFieldFormal) = elements := by
      refine filter_eq_self.mpr fun x hx => ?_
      have hformal := hformals x.param (helements.params ▸ mem_map_of_mem hx)
      simpa [ParameterElement.isFieldFormal] using hformal
    have hbody := h.body hreads.node (mem_append_right _ mem_cons_self) rfl
      (fun name => by cases body <;> rfl) (h.library ▸ helements)
    rw [hseen] at hbody
    exact (notes_resolveBody body hbody rfl rfl).bind fun returns => notes_newFunction _ returns

theorem notes_resolveExprs {p : Place} {scope : Names} : (es : List Expr) →
    (∀ e ∈ es, (Place.child p .other (.expr e)).Sees units u ctx scope) →
      Notes units skip signed (resolveExprs ctx scope es)
  | [], _ => .pure _
  | e :: rest, h => by
    obtain ⟨he, hrest⟩ := forall_mem_cons.mp h
    exact (notes_resolveExpr e he (p.reads_child e)).bind fun _ => notes_resolveExprs rest hrest

theorem notes_resolveArgs {p : Place} {scope : Names} : (args : List Expr) →
    (∀ e ∈ args, (Place.child p .other (.expr e)).Sees units u ctx scope) →
      (params : List ParameterElement) → Notes units skip signed (resolveArgs ctx scope params args)
  | [], _, _ => .pure _
  | e :: rest, h, params => by
    obtain ⟨he, hargs⟩ := forall_mem_cons.mp h
    have hrest : Notes units skip signed (do
        let _ ← resolveExpr ctx scope e
        resolveArgs ctx scope params.tail rest) :=
      (notes_resolveExpr e he (p.reads_child e)).bind fun _ =>
        notes_resolveArgs rest hargs params.tail
    rw [resolveArgs]
    cases params.head? with
    | none => exact hrest
    | some x => exact (notes_setArgument e.id x).bind fun _ => hrest

theorem notes_resolveCallee {p : Place} {scope : Names} : (callee : Expr) →
    p.Sees units u ctx scope → {info : NodeInfo} → {args : List Expr} →
      {creation : Option CreationWord} → p.node = .expr (.call info callee args creation) →
      callee.isNamed = true → {next : Invocation → Resolving TypeId} →
      (∀ i, Notes units skip signed (next i)) →
      Notes units skip signed (resolveCallee ctx scope callee >>= callAfter ctx.workspace info next)
  | .name cinfo name, h, info, args, creation, hnode, _, next, hnext =>
    notes_callName hunits hu h hnode hnext
  | .member cinfo target name, h, info, args, creation, hnode, _, next, hnext => by
    have hcallee := h.child hnode mem_cons_self
    have htarget := hcallee.child rfl mem_cons_self
    rw [resolveCallee, bind_assoc]
    refine (notes_resolveReceiver hunits hu htarget (Place.reads_child _ target)
      (notes_resolveExpr target htarget (Place.reads_child _ target))).bind fun r => ?_
    exact notes_callMember hunits hu h.mem hnode r hnext

theorem notes_resolveTarget {p : Place} {scope : Names} : (e : Expr) → e.isAssignable = true →
    (Place.child p .target (.expr e)).Sees units u ctx scope → p ∈ Place.walk (.unit u) →
      p.isWriting = true → {owner : NodeId} → p.node.id = owner → {reads : Bool} →
      (reads = true → p.readsFirst = true) →
      Notes units skip signed (resolveTarget ctx scope owner reads e)
  | .name info name, _, h, hp, hwrites, owner, hid, reads, hreads =>
    notes_resolveTargetName hunits hu hp hwrites hid hreads h.mem
  | .member info target name, _, h, hp, hwrites, owner, hid, reads, hreads => by
    have htarget := h.child rfl mem_cons_self
    refine (notes_resolveReceiver hunits hu htarget (Place.reads_child _ target)
      (notes_resolveExpr target htarget (Place.reads_child _ target))).bind fun r => ?_
    exact notes_noteTarget hunits hu hp hwrites hid h.mem (by grind) _
  | .index info target index, _, h, hp, hwrites, owner, hid, reads, hreads => by
    have htarget := h.child rfl mem_cons_self
    have hindex := h.child rfl (mem_cons_of_mem _ mem_cons_self)
    refine (notes_resolveExpr target htarget (Place.reads_child _ target)).bind fun type => ?_
    refine (notes_resolveExpr index hindex (Place.reads_child _ index)).bind fun _ => ?_
    exact notes_noteTarget hunits hu hp hwrites hid h.mem (by grind) _

theorem notes_resolveBody {p : Place} {scope : Names} : (b : Body) → p.Sees units u ctx scope →
    p.node = .ofBody b → p.slot = .other → Notes units skip signed (resolveBody ctx scope b)
  | .block b, h, hnode, hslot => (notes_resolveBlock b h hnode).done _
  | .value e, h, hnode, hslot =>
    notes_resolveExpr e h ⟨hnode, by rw [hslot]; nofun, by rw [hslot]; nofun⟩

theorem notes_resolveBody? {p : Place} {scope : Names} : (b : Option Body) →
    (∀ b' ∈ b, (Place.child p .other (.ofBody b')).Sees units u ctx scope) →
      Notes units skip signed (resolveBody? ctx scope b)
  | none, _ => .pure _
  | some b, h => (notes_resolveBody b (h b rfl) rfl rfl).done _

theorem notes_resolveLambdaParams {p : Place} : (params : List Param) → p ∈ Place.walk (.unit u) →
    p.node.isInner = true → ctx.library = u.uri →
      (∀ x ∈ params, (Slot.other, .param x) ∈ p.node.children) → (scope : Names) → (index : Nat) →
      Notes units skip signed (resolveLambdaParams ctx scope index params)
  | [], _, _, _, _, _, _ => .pure _
  | x :: rest, hp, hinner, hlibrary, h, scope, index => by
    obtain ⟨hx, hrest⟩ := forall_mem_cons.mp h
    refine (notes_resolveParamMetadata x (Place.mem_walk_child hp hx) rfl hlibrary scope).bind
      fun _ => ?_
    refine (notes_resolveType? ctx.workspace ctx.library x.type).bind fun type => ?_
    refine (notes_declareParam hunits hu hp hinner hx ctx.library index type).bind fun element => ?_
    exact (notes_resolveLambdaParams rest hp hinner hlibrary hrest scope (index + 1)).done _

theorem notes_resolveParamMetadata {p : Place} : (x : Param) → p ∈ Place.walk (.unit u) →
    p.node = .param x → ctx.library = u.uri → (scope : Names) →
      Notes units skip signed (resolveParamMetadata ctx scope x)
  | ⟨_, _, _, _, entries⟩, hp, hnode, hlibrary, scope => by
    refine notes_resolveMetadata entries hp hlibrary (fun m hm => ?_) scope
    rw [hnode]
    exact mem_append_right _ (mem_map_of_mem hm)

theorem notes_resolveParamsMetadata {p : Place} : (params : List Param) → p ∈ Place.walk (.unit u) →
    ctx.library = u.uri → (∀ x ∈ params, (Slot.other, .param x) ∈ p.node.children) →
      (scope : Names) → Notes units skip signed (resolveParamsMetadata ctx scope params)
  | [], _, _, _, _ => .pure _
  | x :: rest, hp, hlibrary, h, scope => by
    obtain ⟨hx, hrest⟩ := forall_mem_cons.mp h
    refine (notes_resolveParamMetadata x (Place.mem_walk_child hp hx) rfl hlibrary scope).bind
      fun _ => ?_
    exact notes_resolveParamsMetadata rest hp hlibrary hrest scope

theorem notes_resolveMetadata {p : Place} : (entries : List Metadatum) → p ∈ Place.walk (.unit u) →
    ctx.library = u.uri → (∀ m ∈ entries, (Slot.other, .metadatum m) ∈ p.node.children) →
      (scope : Names) → Notes units skip signed (resolveMetadata ctx scope entries)
  | [], _, _, _, _ => .pure _
  | m :: rest, hp, hlibrary, h, scope => by
    obtain ⟨hm, hrest⟩ := forall_mem_cons.mp h
    refine (notes_resolveEntry m (Place.sees_metadatum hp hlibrary hm scope) rfl).bind fun _ => ?_
    exact notes_resolveMetadata rest hp hlibrary hrest scope

theorem notes_resolveEntry {p : Place} {scope : Names} : (m : Metadatum) →
    p.Sees units u ctx scope → p.node = .metadatum m →
      Notes units skip signed (resolveEntry ctx scope m)
  | ⟨info, name, none⟩, h, hnode => notes_resolveEntryName hunits hu h.mem hnode scope
  | ⟨info, name, some args⟩, h, hnode => by
    refine (notes_resolveEntryName hunits hu h.mem hnode scope).bind fun _ => ?_
    exact notes_resolveExprs args (p := p) fun e he =>
      h.child hnode (mem_map_of_mem he)

theorem notes_resolveBlock {p : Place} {scope : Names} : (b : Block) → p.Sees units u ctx scope →
    p.node = .block b → Notes units skip signed (resolveBlock ctx scope b)
  | ⟨_, statements⟩, h, hnode =>
    notes_resolveStmts statements h hnode (nil_append _).symm (Names.shows_nil u.uri)

theorem notes_resolveBlock? {p : Place} {scope : Names} : (b : Option Block) →
    (∀ b' ∈ b, (Place.child p .other (.block b')).Sees units u ctx scope) →
      Notes units skip signed (resolveBlock? ctx scope b)
  | none, _ => .pure _
  | some b, h => notes_resolveBlock b (h b rfl) rfl

theorem notes_resolveStmts {p : Place} {names scope : Names} : (rest : List Stmt) →
    p.Sees units u ctx scope → {b : Block} → p.node = .block b → {before : List Stmt} →
      b.statements = before ++ rest → (names.Shows u.uri fun name => Binder.ofStmts? name before) →
      Notes units skip signed (resolveStmts ctx (names ++ scope) rest)
  | [], _, _, _, _, _, _ => .pure _
  | s :: rest, h, b, hnode, before, hb, hnames => by
    have hs := h.stmt hnode hb (p.nodup_statements hnodup h.mem hnode) hnames
    refine Preserves.bind_of (Q := fun inner => inner = Names.ofStmt u.uri s ++ (names ++ scope))
      (notes_resolveStmt s hs rfl (by simp [Place.isOuter, hnode, Node.isInner]))
      (fun f => h.library ▸ scope_resolveStmt ctx _ s f) ?_
    rintro _ rfl
    rw [← append_assoc]
    have hnext : b.statements = (before ++ [s]) ++ rest := by rw [hb, append_assoc]; rfl
    refine notes_resolveStmts rest h hnode hnext ?_
    simp only [Binder.ofStmts?_concat]
    exact (Names.shows_ofStmt u.uri s).append hnames

theorem notes_resolveStmt {p : Place} {scope : Names} : (s : Stmt) →
    p.Sees units u ctx (Names.ofFunction u.uri s ++ scope) → p.node = .stmt s → p.isOuter = false →
      Notes units skip signed (resolveStmt ctx scope s)
  | .block b, h, hnode, _ => (notes_resolveBlock b h hnode).done _
  | .expr info e, h, hnode, _ => by
    have he := h.child hnode mem_cons_self
    exact (notes_resolveExpr e he (p.reads_child e)).done _
  | .ret info value, h, hnode, _ => by
    refine (notes_resolveExpr? value (p := p) fun e he => ?_).done _
    exact h.child hnode (mem_map_of_mem (Option.mem_toList.mpr he))
  | .branch info cond thenBlock elseBlock, h, hnode, _ => by
    have hcond := h.child hnode mem_cons_self
    have hthen := h.child hnode (mem_cons_of_mem _ mem_cons_self)
    refine (notes_resolveExpr cond hcond (p.reads_child cond)).bind fun _ => ?_
    refine (notes_resolveBlock thenBlock hthen rfl).bind fun _ => ?_
    refine (notes_resolveBlock? elseBlock (p := p) fun b hb => ?_).done _
    exact h.child hnode (mem_cons_of_mem _ (mem_cons_of_mem _
      (mem_map_of_mem (Option.mem_toList.mpr hb))))
  | .loop info cond body, h, hnode, _ => by
    have hcond := h.child hnode mem_cons_self
    have hbody := h.child hnode (mem_cons_of_mem _ mem_cons_self)
    refine (notes_resolveExpr cond hcond (p.reads_child cond)).bind fun _ => ?_
    exact (notes_resolveBlock body hbody rfl).done _
  | .leave info, _, _, _ => .pure _
  | .next info, _, _, _ => .pure _
  | .guarded info body catches finallyBlock, h, hnode, _ => by
    have hbody := h.child hnode mem_cons_self
    refine (notes_resolveBlock body hbody rfl).bind fun _ => ?_
    refine (notes_resolveClauses catches (p := p) fun c hc => ?_).bind fun _ => ?_
    · exact h.child hnode (mem_cons_of_mem _ (mem_append_left _
        (mem_map_of_mem hc)))
    refine (notes_resolveBlock? finallyBlock (p := p) fun b hb => ?_).done _
    exact h.child hnode (mem_cons_of_mem _ (mem_append_right _
      (mem_map_of_mem (Option.mem_toList.mpr hb))))
  | .variable d, h, hnode, houter => by
    refine (notes_resolveType? ctx.workspace ctx.library d.type).bind fun type => ?_
    refine (notes_setVariableType d.id type).bind fun _ => ?_
    refine Preserves.bind (notes_setDeclared hunits hu h.mem houter (by rw [hnode]; rfl) rfl)
      fun _ => ?_
    exact (notes_resolveVariable d h hnode).done _
  | .function d, h, hnode, houter => by
    refine Preserves.bind_of (Q := fun s => ParameterElement.AreOf ctx.library d.params s.params)
      (notes_resolveSignature hunits hu h.mem hnode ctx.workspace h.library none)
      (areOf_resolveSignature ctx.workspace ctx.library none d) fun signature hsignature => ?_
    refine Preserves.bind (notes_setDeclared hunits hu h.mem houter (by rw [hnode]; rfl) rfl)
      fun _ => ?_
    rw [h.library] at hsignature ⊢
    exact (notes_resolveFunction d h hnode hsignature).done _

theorem notes_resolveExpr? {p : Place} {scope : Names} : (e : Option Expr) →
    (∀ e' ∈ e, (Place.child p .other (.expr e')).Sees units u ctx scope) →
      Notes units skip signed (resolveExpr? ctx scope e)
  | none, _ => .pure _
  | some e, h => (notes_resolveExpr e (h e rfl) (p.reads_child e)).done _

theorem notes_resolveClauses {p : Place} {scope : Names} : (clauses : List CatchClause) →
    (∀ c ∈ clauses, (Place.child p .other (.clause c)).Sees units u ctx scope) →
      Notes units skip signed (resolveClauses ctx scope clauses)
  | [], _ => .pure _
  | c :: rest, h => by
    obtain ⟨hc, hrest⟩ := forall_mem_cons.mp h
    exact (notes_resolveClause c hc rfl).bind fun _ => notes_resolveClauses rest hrest

theorem notes_resolveClause {p : Place} {scope : Names} : (c : CatchClause) →
    p.Sees units u ctx scope → p.node = .clause c →
      Notes units skip signed (resolveClause ctx scope c)
  | ⟨info, written, binder, stackBinder, body⟩, h, hnode => by
    refine (notes_resolveClauseType info.id written).bind fun type => ?_
    refine preserves_get.bind fun f => ?_
    refine notes_resolveBlock body
      (h.inner (c := (.other, .block body)) ?_ (by rw [hnode]; rfl) ?_) rfl
    · rw [hnode]
      exact mem_append_right _ mem_cons_self
    · rw [hnode, ← h.library]
      exact Names.shows_clause ctx f _ type

theorem notes_resolveVariable {p : Place} {scope : Names} : (d : VarDecl) →
    p.Sees units u ctx scope → p.node = .varDecl d →
      Notes units skip signed (resolveVariable ctx scope d)
  | ⟨info, _, _, written, init, _, entries⟩, h, hnode => by
    refine (notes_resolveMetadata entries h.mem h.library (fun m hm => ?_) scope).bind fun _ => ?_
    · rw [hnode]
      exact mem_append_right _ (mem_map_of_mem hm)
    refine notes_resolveInit info.id written init (p := p) fun e he => ?_
    exact h.child hnode (mem_append_left _ (mem_append_right _
      (mem_map_of_mem (Option.mem_toList.mpr he))))

theorem notes_resolveInit (node : NodeId) (written : Option TypeRef) {p : Place} {scope : Names} :
    (init : Option Expr) → (∀ e ∈ init, (Place.child p .other (.expr e)).Sees units u ctx scope) →
      Notes units skip signed (resolveInit ctx scope node written init)
  | none, _ => .pure _
  | some e, h =>
    (notes_resolveExpr e (h e rfl) (p.reads_child e)).bind fun type =>
      notes_inferVariable node written type

theorem notes_resolveFunction {p : Place} {scope : Names} : (d : FunctionDecl) →
    p.Sees units u ctx scope → p.node = .functionDecl d → {elements : List ParameterElement} →
      ParameterElement.AreOf u.uri d.params elements →
      Notes units skip signed (resolveFunction ctx scope elements d)
  | ⟨_, _, _, _, params, _, body, _, entries⟩, h, hnode, elements, helements => by
    refine (notes_resolveMetadata entries h.mem h.library (fun m hm => ?_) scope).bind fun _ => ?_
    · rw [hnode]
      exact mem_append_right _ (mem_map_of_mem hm)
    refine (notes_resolveParamsMetadata params h.mem h.library (fun x hx => ?_) scope).bind
      fun _ => ?_
    · rw [hnode]
      exact mem_append_left _ (mem_append_left _ (mem_append_left _
        (mem_map_of_mem hx)))
    refine notes_resolveBody? body (p := p) fun b hb => ?_
    exact h.body hnode (mem_append_left _ (mem_append_right _
      (mem_map_of_mem (Option.mem_toList.mpr hb)))) rfl
      (fun name => by cases b <;> rfl) helements

end

end

end CheckedThrows
