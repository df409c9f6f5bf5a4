import CheckedThrows.Proofs.MirroredSteps

/-!
# The same bodies beside a hidden library

Signatures and bodies of every other library are resolved alike with and without
the hidden library, under other numbers.
-/

namespace CheckedThrows

namespace Resolving

/-! ## Signatures -/

section
variable {m : Mirror} {w w' : Workspace} (hw : w.Mirrors m m.hidden w') {uri : String}
  (huri : uri ≠ m.hidden)
include hw huri

theorem mirrors_resolveTypeName (t : TypeName) :
    Mirrors m m.type (resolveTypeName w uri t) (resolveTypeName w' uri (t.relabel m)) := by
  have hname : (t.relabel m).name = t.name := rfl
  have hextent : (t.relabel m).info.extent = m.extent t.info.extent := rfl
  unfold resolveTypeName
  rw [hname, hextent]
  split
  · exact .pure m.dynamic.symm
  · exact .pure m.void.symm
  · exact .pure m.never.symm
  · rw [hw.libraries.classNamed? huri]
    cases w.libraries.classNamed? uri t.name with
    | some c => exact .pure rfl
    | none => exact .bind (mirrors_warn huri _ _) fun _ => .pure m.unknown.symm

set_option linter.unusedSectionVars false in
mutual

theorem mirrors_resolveType :
    (t : TypeRef) → Mirrors m m.type (resolveType w uri t) (resolveType w' uri (t.relabel m))
  | .named t => mirrors_resolveTypeName hw huri t
  | .function _ returns params _ =>
    .bind (mirrors_resolveType? returns) fun returns =>
      .bind (mirrors_resolveTypes params) fun params => mirrors_newFunction params returns

theorem mirrors_resolveType? : (t : Option TypeRef) →
    Mirrors m m.type (resolveType? w uri t) (resolveType? w' uri (relabelType? m t))
  | none => .pure m.dynamic.symm
  | some t => mirrors_resolveType t

theorem mirrors_resolveTypes : (ts : List TypeRef) →
    Mirrors m (List.map m.type) (resolveTypes w uri ts) (resolveTypes w' uri (relabelTypes m ts))
  | [] => .pure rfl
  | t :: ts =>
    .bind (mirrors_resolveType t) fun _ =>
      .bind (mirrors_resolveTypes ts) fun _ => .pure rfl

end

theorem mirrors_resolveParamType (owner : Option ClassElement) (p : Param) :
    Mirrors m m.type (resolveParamType w uri owner p)
      (resolveParamType w' uri (owner.map (ClassElement.rename m)) (p.relabel m)) := by
  obtain ⟨info, name, type, isFieldFormal, entries⟩ := p
  rw [Param.relabel, resolveParamType, resolveParamType]
  rw [hw.formalField?, relabelType?_eq_map, Option.isNone_map]
  split
  · cases formalField? w owner name with
    | some v => exact .reading fun f f' hf => .pure (hf.variableType v)
    | none => exact .bind (mirrors_warn huri _ _) fun _ => .pure m.dynamic.symm
  · rw [← relabelType?_eq_map]
    exact mirrors_resolveType? hw huri type

omit hw in
theorem mirrors_declareParam (p : Param) (index : Nat) (type : TypeId) :
    Mirrors m (ParameterElement.rename m) (declareParam uri p index type)
      (declareParam uri (p.relabel m) index (m.type type)) := by
  unfold declareParam
  rw [p.id_relabel]
  exact .bind (mirrors_setDeclared p.id (.parameter ⟨p, uri, index, type⟩) huri) fun _ => .pure rfl

theorem mirrors_declareParams (owner : Option ClassElement) (index : Nat) (params : List Param) :
    Mirrors m (List.map (ParameterElement.rename m)) (declareParams w uri owner index params)
      (declareParams w' uri (owner.map (ClassElement.rename m)) index
        (params.map (Param.relabel m))) := by
  induction params generalizing index with
  | nil => exact .pure rfl
  | cons p params ih =>
    exact .bind (mirrors_resolveParamType hw huri owner p) fun type =>
      .bind (mirrors_declareParam huri p index type) fun element =>
        .bind (ih (index + 1)) fun elements => .pure rfl

theorem mirrors_resolveSignature (owner : Option ClassElement) (d : FunctionDecl) :
    Mirrors m (Signature.rename m) (resolveSignature w uri owner d)
      (resolveSignature w' uri (owner.map (ClassElement.rename m)) (d.relabel m)) := by
  obtain ⟨info, name, kind, qualifier, params, returns, body, modifiers, entries⟩ := d
  have hreturns := mirrors_resolveType? hw huri returns
  rw [FunctionDecl.relabel, relabelParams_eq_map]
  -- Where the result comes from differs, what is done with it does not.
  have hwith : ∀ {find find' : Resolving TypeId} [Adds find] [Adds find'],
      Mirrors m m.type find find' →
      Mirrors m (Signature.rename m)
        (do
          let params ← declareParams w uri owner 0 params
          let returns ← find
          let type ← newFunction (params.map ParameterElement.type) returns
          setSignature info.id ⟨params, returns, type⟩
          return ⟨params, returns, type⟩)
        (do
          let params ← declareParams w' uri (owner.map (ClassElement.rename m)) 0
            (params.map (Param.relabel m))
          let returns ← find'
          let type ← newFunction (params.map ParameterElement.type) returns
          setSignature (m.node info.id) ⟨params, returns, type⟩
          return ⟨params, returns, type⟩) := by
    intro find find' _ _ hfind
    refine .bind (mirrors_declareParams hw huri owner 0 params) fun params => ?_
    have htypes : (params.map (ParameterElement.rename m)).map ParameterElement.type =
        (params.map ParameterElement.type).map m.type := by
      simp [Function.comp_def]
    rw [htypes]
    exact .bind hfind fun returns => .bind (mirrors_newFunction _ returns) fun type =>
      .bind (mirrors_setSignature info.id ⟨params, returns, type⟩) fun _ => .pure rfl
  cases kind with
  | constructor =>
    cases owner with
    | none => exact hwith hreturns
    | some c => exact hwith (.pure rfl)
  | setter => exact hwith (.pure m.void.symm)
  | function | «local» | method | getter | operator => exact hwith hreturns

omit hw huri in
theorem mirrors_isDeclared (node : NodeId) :
    Mirrors m id (isDeclared node) (isDeclared (m.node node)) := by
  refine .reading fun f f' hf => .pure ?_
  rw [hf.declared, Option.isSome_map]
  rfl

theorem mirrors_resolveVariableType (d : VarDecl) :
    Mirrors m id (resolveVariableType w uri d) (resolveVariableType w' uri (d.relabel m)) := by
  obtain ⟨info, name, kind, type, init, modifiers, entries⟩ := d
  refine .bind (mirrors_isDeclared _) fun declared => ?_
  cases declared with
  | false => exact .pure rfl
  | true => exact .bind (mirrors_resolveType? hw huri type) fun type => mirrors_setVariableType _ type

theorem mirrors_resolveFunctionSignature (owner : Option ClassElement) (d : FunctionDecl) :
    Mirrors m id (resolveFunctionSignature w uri owner d)
      (resolveFunctionSignature w' uri (owner.map (ClassElement.rename m)) (d.relabel m)) := by
  unfold resolveFunctionSignature
  rw [d.id_relabel]
  refine .bind (mirrors_isDeclared _) fun declared => ?_
  cases declared with
  | false => exact .pure rfl
  | true => exact .bind (mirrors_resolveSignature hw huri owner d) fun _ => .pure rfl

omit huri in
theorem mirrors_resolveClassSignatures {c : ClassElement} (hc : c.library ≠ m.hidden) :
    Mirrors m id (resolveClassSignatures w c) (resolveClassSignatures w' (c.rename m)) := by
  have hmembers {last last' : Resolving Unit} [Adds last] [Adds last']
      (hlast : Mirrors m id last last') :
      Mirrors m id
        (do
          (c.decl.members.filterMap Member.toVar?).forM (resolveVariableType w c.library)
          (c.decl.members.filterMap Member.toFunction?).forM
            (resolveFunctionSignature w c.library (some c))
          last)
        (do
          ((c.rename m).decl.members.filterMap Member.toVar?).forM
            (resolveVariableType w' c.library)
          ((c.rename m).decl.members.filterMap Member.toFunction?).forM
            (resolveFunctionSignature w' c.library (some (c.rename m)))
          last') := by
    rw [c.vars_rename m, c.functions_rename m]
    exact .bind (.forM fun d _ => mirrors_resolveVariableType hw hc d) fun _ =>
      .bind (.forM fun d _ => mirrors_resolveFunctionSignature hw hc (some c) d) fun _ => hlast
  unfold resolveClassSignatures
  rw [hw.constructor?]
  cases w.constructor? c "" with
  | none =>
    dsimp only [Option.map_none]
    exact hmembers (.pure rfl)
  | some e =>
    obtain ⟨origin, library, owner⟩ := e
    cases origin with
    | declared d =>
      dsimp only [Option.map_some, ExecutableElement.rename, ExecutableOrigin.rename]
      exact hmembers (.pure rfl)
    | implicit d =>
      dsimp only [Option.map_some, ExecutableElement.rename, ExecutableOrigin.rename]
      exact hmembers (.bind (mirrors_newFunction [] c.type) fun type =>
        mirrors_setSignature d.id ⟨[], c.type, type⟩)

theorem mirrors_resolveDeclarationSignature (d : Declaration) :
    Mirrors m id (resolveDeclarationSignature w uri d)
      (resolveDeclarationSignature w' uri (d.relabel m)) := by
  cases d with
  | «class» d =>
    have hid : (d.relabel m).id = m.node d.id := rfl
    refine .reading fun f f' hf => ?_
    rw [hid, hf.declaredClass?]
    cases hfound : (f.declared[d.id]?).bind Element.toClass? with
    | none => exact .pure rfl
    | some c => exact mirrors_resolveClassSignatures hw (hf.library_of_declaredClass? hfound)
  | function d => exact mirrors_resolveFunctionSignature hw huri none d
  | «variable» d => exact mirrors_resolveVariableType hw huri d

end

/-! ## Parts of expressions -/

end Resolving

theorem ite_map_none {α β : Type} (b : Bool) (f : α → β) (o : Option α) :
    (if b then o.map f else none) = (if b then o else none).map f := by
  cases b <;> rfl

def Receiver.rename (r : Renaming) (receiver : Receiver) : Receiver :=
  ⟨receiver.cls.map (ClassElement.rename r), receiver.isStatic⟩

/-- What is looked for in the class of a receiver is found alike if it is in every
class. -/
theorem Receiver.bind_rename {α : Type} {r : Renaming} {change : α → α}
    (find find' : ClassElement → Option α)
    (hfind : ∀ c, find' (c.rename r) = (find c).map change) (receiver : Receiver) :
    (receiver.rename r).cls.bind find' = (receiver.cls.bind find).map change := by
  obtain ⟨cls, isStatic⟩ := receiver
  cases cls with
  | none => rfl
  | some c => exact hfind c

def Invocation.rename (r : Renaming) (i : Invocation) : Invocation :=
  ⟨i.executable.map (ExecutableElement.rename r), i.params.map (ParameterElement.rename r),
    r.type i.result⟩

namespace Resolving

section
variable {m : Mirror} {ctx ctx' : BodyContext} (hctx : ctx.Mirrors m m.hidden ctx')
  (scope : Names) (node : NodeId) (info : NodeInfo) (name : String) (r : Receiver)
include hctx

theorem selfType_mirrors : selfType ctx' = m.type (selfType ctx) := by
  unfold selfType
  rw [hctx.owner, hctx.isStatic]
  cases ctx.owner with
  | none => exact m.unknown.symm
  | some c =>
    by_cases hstatic : ctx.isStatic = true
    · simp [hstatic, m.unknown]
    · simp [hstatic]

theorem mirrors_undefinedName :
    Mirrors m id (undefinedName ctx info name) (undefinedName ctx' (info.relabel m) name) := by
  unfold undefinedName
  rw [hctx.library]
  exact mirrors_warn hctx.elsewhere _ _

theorem mirrors_resolveName :
    Mirrors m m.type (resolveName ctx scope info name)
      (resolveName ctx' (scope.rename m) (info.relabel m) name) := by
  unfold resolveName
  rw [hctx.lookupRead]
  cases ctx.lookupRead scope name with
  | some e =>
    exact .bind (mirrors_setMeaning info.id e) fun _ =>
      .reading fun f f' hf => .pure (hf.typeOf e)
  | none =>
    exact .bind (mirrors_undefinedName hctx info name) fun _ => .pure m.unknown.symm

theorem mirrors_resolveReceiver (target : Expr) {value value' : Resolving TypeId}
    (hvalue : Mirrors m m.type value value') :
    Mirrors m (Receiver.rename m) (resolveReceiver ctx scope target value)
      (resolveReceiver ctx' (scope.rename m) (target.relabel m) value') := by
  unfold resolveReceiver
  rw [hctx.classNamed?]
  cases ctx.classNamed? scope target with
  | some c =>
    rw [target.id_relabel]
    refine .bind (mirrors_setMeaning target.id (.class c)) fun _ => .reading fun f f' hf => ?_
    rw [hf.coreType]
    exact .bind (mirrors_setType target.id _) fun _ => .pure rfl
  | none =>
    refine .bind hvalue fun type => .pure ?_
    rw [hctx.workspace.classOf?]
    rfl

theorem mirrors_resolveMember :
    Mirrors m m.type (resolveMember ctx info r name)
      (resolveMember ctx' (info.relabel m) (r.rename m) name) := by
  have hread := Receiver.bind_rename (ctx.workspace.readOf? · r.isStatic name)
    (ctx'.workspace.readOf? · r.isStatic name) (hctx.workspace.readOf? · r.isStatic name) r
  unfold resolveMember
  dsimp only [Receiver.rename] at hread ⊢
  rw [hread]
  cases r.cls.bind fun c => ctx.workspace.readOf? c r.isStatic name with
  | some e =>
    exact .bind (mirrors_setMeaning info.id e) fun _ =>
      .reading fun f f' hf => .pure (hf.typeOf e)
  | none => exact .bind (mirrors_notice _ _) fun _ => .pure m.dynamic.symm

omit hctx in
theorem mirrors_setCallee (callee : Option Element) :
    Mirrors m (Option.map (Element.rename m)) (setCallee node callee)
      (setCallee (m.node node) (callee.map (Element.rename m))) := by
  cases callee with
  | none =>
    have htype := mirrors_setType (m := m) node .unknown
    rw [m.unknown] at htype
    exact .bind htype fun _ => .pure rfl
  | some e =>
    refine .bind (mirrors_setMeaning node e) fun _ => .reading fun f f' hf => ?_
    rw [hf.typeOf]
    exact .bind (mirrors_setType node _) fun _ => .pure rfl

theorem mirrors_resolveCalleeName :
    Mirrors m (Option.map (Element.rename m)) (resolveCalleeName ctx scope info name)
      (resolveCalleeName ctx' (scope.rename m) (info.relabel m) name) := by
  unfold resolveCalleeName
  rw [hctx.lookupRead]
  cases ctx.lookupRead scope name with
  | none =>
    exact .bind (mirrors_undefinedName hctx info name) fun _ => mirrors_setCallee info.id none
  | some e => exact mirrors_setCallee info.id (some e)

theorem mirrors_resolveCalleeMember :
    Mirrors m (Option.map (Element.rename m)) (resolveCalleeMember ctx info r name)
      (resolveCalleeMember ctx' (info.relabel m) (r.rename m) name) := by
  have hcallee := Receiver.bind_rename (ctx.workspace.calleeOf? · r.isStatic name)
    (ctx'.workspace.calleeOf? · r.isStatic name) (hctx.workspace.calleeOf? · r.isStatic name) r
  unfold resolveCalleeMember
  dsimp only [Receiver.rename] at hcallee ⊢
  rw [hcallee]
  cases r.cls.bind fun c => ctx.workspace.calleeOf? c r.isStatic name with
  | none => exact .bind (mirrors_notice _ _) fun _ => mirrors_setCallee info.id none
  | some e => exact mirrors_setCallee info.id (some e)

omit hctx in
theorem mirrors_invoke {w w' : Workspace} (hw : w.Mirrors m m.hidden w') (e : Element) :
    Mirrors m (Invocation.rename m) (invoke w e) (invoke w' (e.rename m)) := by
  have hvalue : ∀ e : Element, Mirrors m (Invocation.rename m)
      (do return { result := ← callResult ((← get).typeOf e) })
      (do return { result := ← callResult ((← get).typeOf (e.rename m)) }) := by
    refine fun e => .reading fun f f' hf => ?_
    rw [hf.typeOf]
    exact .bind (mirrors_callResult _) fun _ => .pure rfl
  cases e with
  | «class» c =>
    refine .reading fun f f' hf => .pure ?_
    rw [hw.constructor?]
    cases w.constructor? c "" with
    | none => rfl
    | some e => simp [Invocation.rename, hf.paramsOf]
  | executable e =>
    refine .reading fun f f' hf => ?_
    rw [ExecutableElement.kind_rename, ExecutableElement.owner_rename, hf.paramsOf, hf.returnType]
    cases e.kind with
    | constructor => cases e.owner <;> exact .pure rfl
    | getter => exact .bind (mirrors_callResult _) fun _ => .pure rfl
    | function | «local» | method | setter | operator => exact .pure rfl
  | «variable» v => exact hvalue (.variable v)
  | parameter p => exact hvalue (.parameter p)

omit hctx in
theorem mirrors_noteInvocation (i : Invocation) :
    Mirrors m id (noteInvocation node i) (noteInvocation (m.node node) (i.rename m)) := by
  unfold noteInvocation Invocation.rename
  cases i.executable with
  | none => exact .pure rfl
  | some e => exact mirrors_setMeaning node (.executable e)

theorem operatorOf?_mirrors (receiver : TypeId) :
    ((ctx'.workspace.classOf? (m.type receiver)).bind fun c =>
        ctx'.workspace.method? c name (some false)) =
      ((ctx.workspace.classOf? receiver).bind fun c =>
        ctx.workspace.method? c name (some false)).map (ExecutableElement.rename m) := by
  rw [hctx.workspace.classOf?]
  cases ctx.workspace.classOf? receiver with
  | none => rfl
  | some c => exact hctx.workspace.method? c name (some false)

theorem mirrors_applyOperator (receiver : TypeId) :
    Mirrors m m.type (applyOperator ctx node receiver name)
      (applyOperator ctx' (m.node node) (m.type receiver) name) := by
  unfold applyOperator
  rw [operatorOf?_mirrors hctx]
  cases (ctx.workspace.classOf? receiver).bind fun c =>
      ctx.workspace.method? c name (some false) with
  | none => exact .pure m.dynamic.symm
  | some op =>
    exact .bind (mirrors_setOperator node op) fun _ =>
      .reading fun f f' hf => .pure (hf.returnType op)

theorem mirrors_applyBinary (op : BinaryOp) (left : TypeId) :
    Mirrors m m.type (applyBinary ctx node op left)
      (applyBinary ctx' (m.node node) op (m.type left)) := by
  have happly := fun name => mirrors_applyOperator hctx node name left
  have hbool : Mirrors m m.type (do return (← get).coreType "bool")
      (do return (← get).coreType "bool") :=
    .reading fun f f' hf => .pure (hf.coreType "bool")
  cases op with
  | and | or => exact hbool
  | equal | notEqual => exact .bind (happly _) fun _ => hbool
  | _ => exact happly _

theorem mirrors_applyUnary (op : UnaryOp) (operand : TypeId) :
    Mirrors m m.type (applyUnary ctx node op operand)
      (applyUnary ctx' (m.node node) op (m.type operand)) := by
  cases op with
  | not => exact .reading fun f f' hf => .pure (hf.coreType "bool")
  | negate | complement => exact mirrors_applyOperator hctx node _ operand

omit hctx in
theorem mirrors_noteTarget (target : NodeId) (write read : Option Element)
    {readType : Facts → Element → TypeId}
    (hread : ∀ f f', f.Mirrors m f' → ∀ e, readType f' (e.rename m) = m.type (readType f e)) :
    Mirrors m m.type (noteTarget node target write read readType)
      (noteTarget (m.node node) (m.node target) (write.map (Element.rename m))
        (read.map (Element.rename m)) readType) := by
  have hlast {find find' : Facts → TypeId}
      (hfind : ∀ f f', f.Mirrors m f' → find' f' = m.type (find f)) :
      Mirrors m m.type
        (do
          let f ← get
          setType target (find f)
          return find f)
        (do
          let f ← get
          setType (m.node target) (find' f)
          return find' f) := by
    refine .reading fun f f' hf => ?_
    rw [hfind f f' hf]
    exact .bind (mirrors_setType target _) fun _ => .pure rfl
  cases write with
  | none =>
    cases read with
    | none => exact hlast fun f f' hf => m.dynamic.symm
    | some e => exact .bind (mirrors_setRead node e) fun _ => hlast fun f f' hf => hread f f' hf e
  | some e =>
    cases read with
    | none =>
      dsimp only [Option.map_some, Option.map_none]
      refine .bind (mirrors_setWrite node e) fun _ => ?_
      exact hlast fun f f' hf => hf.writtenType e
    | some e' =>
      dsimp only [Option.map_some]
      refine .bind (mirrors_setWrite node e) fun _ => .bind (mirrors_setRead node e') fun _ => ?_
      exact hlast fun f f' hf => hread f f' hf e'

theorem mirrors_resolveTargetName (reads : Bool) :
    Mirrors m m.type (resolveTargetName ctx scope node reads info name)
      (resolveTargetName ctx' (scope.rename m) (m.node node) reads (info.relabel m) name) := by
  unfold resolveTargetName
  dsimp only
  rw [hctx.lookupWrite, hctx.lookupRead, ite_map_none, Option.isNone_map, Option.isNone_map]
  generalize ctx.lookupWrite scope name = write
  generalize (if reads then ctx.lookupRead scope name else none) = read
  have hnote := mirrors_noteTarget (m := m) node info.id write read fun f f' hf => hf.typeOf
  split
  · exact .bind (mirrors_undefinedName hctx info name) fun _ => hnote
  · exact hnote

theorem mirrors_resolveTargetMember (reads : Bool) :
    Mirrors m m.type (resolveTargetMember ctx node reads info r name)
      (resolveTargetMember ctx' (m.node node) reads (info.relabel m) (r.rename m) name) := by
  have hwrite := Receiver.bind_rename (ctx.workspace.setter? · name r.isStatic)
    (ctx'.workspace.setter? · name r.isStatic) (hctx.workspace.setter? · name r.isStatic) r
  have hread := Receiver.bind_rename (ctx.workspace.getter? · name r.isStatic)
    (ctx'.workspace.getter? · name r.isStatic) (hctx.workspace.getter? · name r.isStatic) r
  have helement : ∀ p : Option Property, (p.map (Property.rename m)).map Property.toElement =
      (p.map Property.toElement).map (Element.rename m) := by
    intro p
    simp [Function.comp_def]
  unfold resolveTargetMember
  dsimp only [Receiver.rename] at hwrite hread ⊢
  rw [hwrite, hread, helement, ite_map_none, helement]
  exact mirrors_noteTarget node info.id _ _ fun f f' hf => hf.typeOf

theorem mirrors_resolveTargetIndex (reads : Bool) (target : TypeId) :
    Mirrors m m.type (resolveTargetIndex ctx node reads info target)
      (resolveTargetIndex ctx' (m.node node) reads (info.relabel m) (m.type target)) := by
  have helement : ∀ e : Option ExecutableElement,
      (e.map (ExecutableElement.rename m)).map Element.executable =
        (e.map Element.executable).map (Element.rename m) := by
    intro e
    cases e <;> rfl
  unfold resolveTargetIndex
  dsimp only
  rw [operatorOf?_mirrors hctx, operatorOf?_mirrors hctx, ite_map_none, helement, helement]
  apply mirrors_noteTarget
  intro f f' hf e
  cases e with
  | executable e => exact hf.returnType e
  | «class» c => exact hf.typeOf (.class c)
  | «variable» v => exact hf.typeOf (.variable v)
  | parameter p => exact hf.typeOf (.parameter p)

theorem mirrors_resolveEntryName :
    Mirrors m id (resolveEntryName ctx scope info name)
      (resolveEntryName ctx' (scope.rename m) (info.relabel m) name) := by
  have hundefined : Mirrors m id
      (warn "undefined_annotation" (.ofExtent ctx.library info.extent)
        ("Undefined name '" ++ name ++ "' used as an annotation."))
      (warn "undefined_annotation" (.ofExtent ctx'.library (info.relabel m).extent)
        ("Undefined name '" ++ name ++ "' used as an annotation.")) := by
    rw [hctx.library]
    exact mirrors_warn hctx.elsewhere _ _
  unfold resolveEntryName
  rw [hctx.lookupRead]
  cases ctx.lookupRead scope name with
  | none => exact hundefined
  | some e =>
    cases e with
    | «class» c =>
      dsimp only [Option.map_some, Element.rename]
      rw [hctx.workspace.constructor?]
      cases ctx.workspace.constructor? c "" with
      | none => exact .pure rfl
      | some e => exact mirrors_setMeaning info.id (.executable e)
    | «variable» v => exact mirrors_setMeaning info.id (.variable v)
    | executable e => exact hundefined
    | parameter p => exact hundefined

omit hctx in
theorem mirrors_inferVariable (written : Option TypeRef) (type : TypeId) :
    Mirrors m id (inferVariable node written type)
      (inferVariable (m.node node) (relabelType? m written) (m.type type)) := by
  unfold inferVariable
  rw [relabelType?_eq_map, Option.isNone_map]
  refine .bind (mirrors_isDeclared node) fun declared => ?_
  dsimp only [id_eq]
  split
  · exact mirrors_setVariableType node type
  · exact .pure rfl

theorem mirrors_resolveClauseType (written : Option TypeRef) :
    Mirrors m m.type (resolveClauseType ctx node written)
      (resolveClauseType ctx' (m.node node) (relabelType? m written)) := by
  have hobject : Mirrors m m.type (do return (← get).objectType) (do return (← get).objectType) :=
    .reading fun f f' hf => .pure hf.objectType
  cases written with
  | none => exact hobject
  | some t =>
    have htype := mirrors_resolveType hctx.workspace hctx.elsewhere t
    unfold resolveClauseType
    rw [relabelType?, hctx.library]
    refine .bind htype fun type => ?_
    have hunknown : m.type type = .unknown ↔ type = .unknown := by
      nth_rewrite 1 [← m.unknown]
      exact m.type_injective.eq_iff
    simp only [hunknown]
    split
    · exact hobject
    · exact .bind (mirrors_setCatchType node type) fun _ => .pure rfl

omit hctx in
theorem clauseNames_mirrors {f f' : Facts} (hctx : ctx.Mirrors m m.hidden ctx')
    (hf : f.Mirrors m f') (c : CatchClause) (type : TypeId) :
    clauseNames ctx' f' (c.relabel m) (m.type type) =
      Names.rename m (clauseNames ctx f c type) := by
  have hbinder : (c.relabel m).binder = c.binder := by rw [CatchClause.relabel_eq]
  have hstackBinder : (c.relabel m).stackBinder = c.stackBinder := by rw [CatchClause.relabel_eq]
  unfold clauseNames
  rw [hbinder, hstackBinder, hctx.library, hf.coreType]
  cases c.binder <;> cases c.stackBinder <;> rfl

end

/-! ## Expressions and statements -/

theorem parameterNames_rename (r : Renaming) (elements : List ParameterElement) (scope : Names) :
    ((elements.map (ParameterElement.rename r)).map fun p =>
        (p.name, Element.parameter p)).reverse ++ Names.rename r scope =
      Names.rename r ((elements.map fun p => (p.name, Element.parameter p)).reverse ++ scope) := by
  simp only [Names.rename, NameTable.mapValues, List.map_append, List.map_reverse, List.map_map,
    Function.comp_def, ParameterElement.name_rename]
  rfl

theorem filter_isFieldFormal_rename (r : Renaming) (elements : List ParameterElement) :
    (elements.map (ParameterElement.rename r)).filter (fun p => !p.isFieldFormal) =
      (elements.filter fun p => !p.isFieldFormal).map (ParameterElement.rename r) := by
  simp only [List.filter_map, Function.comp_def, ParameterElement.isFieldFormal_rename]

section
variable {m : Mirror} {ctx ctx' : BodyContext} (hctx : ctx.Mirrors m m.hidden ctx')
include hctx

set_option linter.unusedSectionVars false in
mutual

theorem mirrors_resolveExpr (scope : Names) : (e : Expr) →
    Mirrors m m.type (resolveExpr ctx scope e)
      (resolveExpr ctx' (scope.rename m) (e.relabel m))
  | .name info name => mirrors_typed info.id (mirrors_resolveName hctx scope info name)
  | .literal info value => mirrors_typed info.id (.reading fun f f' hf => .pure (hf.coreType _))
  | .list info items =>
    mirrors_typed info.id (.bind (mirrors_resolveExprs scope items) fun _ =>
      .reading fun f f' hf => .pure (hf.coreType _))
  | .self info => mirrors_typed info.id (.pure (selfType_mirrors hctx))
  | .member info target name =>
    mirrors_typed info.id (.bind
      (mirrors_resolveReceiver hctx scope target (mirrors_resolveExpr scope target)) fun r =>
      mirrors_resolveMember hctx info name r)
  | .call info callee args _ => by
    have hcallee := mirrors_resolveCallee scope callee
    have hvalue := mirrors_resolveExpr scope callee
    have hlast : ∀ i : Invocation, Mirrors m m.type
        (do
          noteInvocation info.id i
          resolveArgs ctx scope i.params args
          return i.result)
        (do
          noteInvocation (m.node info.id) (i.rename m)
          resolveArgs ctx' (scope.rename m) (i.rename m).params (relabelExprs m args)
          return (i.rename m).result) := fun i =>
      .bind (mirrors_noteInvocation info.id i) fun _ =>
        .bind (mirrors_resolveArgs scope i.params args) fun _ => .pure rfl
    have hnone : ({} : Invocation) = Invocation.rename m {} := by
      rw [Invocation.rename, m.dynamic]
      rfl
    rw [Expr.relabel, resolveExpr, resolveExpr, callee.isNamed_relabel]
    apply mirrors_typed
    split
    · refine .andThen ?_ ?_ hcallee fun e => ?_
      · intro e
        cases e <;> infer_instance
      · intro e
        cases e <;> infer_instance
      · cases e with
        | none => exact .bind (.pure hnone) hlast
        | some e => exact .bind (mirrors_invoke hctx.workspace e) hlast
    · exact .bind hvalue fun type => .bind (mirrors_callResult type) fun result =>
        .bind (.pure rfl) hlast
  | .index info target index =>
    mirrors_typed info.id (.bind (mirrors_resolveExpr scope target) fun receiver =>
      .bind (mirrors_resolveExpr scope index) fun _ =>
        mirrors_applyOperator hctx info.id "[]" receiver)
  | .binary info op left right =>
    mirrors_typed info.id (.bind (mirrors_resolveExpr scope left) fun type =>
      .bind (mirrors_resolveExpr scope right) fun _ => mirrors_applyBinary hctx info.id op type)
  | .unary info op operand =>
    mirrors_typed info.id (.bind (mirrors_resolveExpr scope operand) fun type =>
      mirrors_applyUnary hctx info.id op type)
  | .step info op _ operand =>
    mirrors_typed info.id (.bind (mirrors_resolveTarget scope info.id true operand)
      fun type => .bind (mirrors_applyOperator hctx info.id _ type) fun _ => .pure rfl)
  | .assign info op target value => by
    have htarget := mirrors_resolveTarget scope info.id op.reads target
    have hvalue := mirrors_resolveExpr scope value
    apply mirrors_typed
    cases op with
    | plain | ifNull =>
      exact .bind htarget fun _ => .bind hvalue fun type => .pure rfl
    | compound op =>
      exact .bind htarget fun old => .bind hvalue fun _ =>
        mirrors_applyOperator hctx info.id op.spelling old
  | .throw info value =>
    mirrors_typed info.id (.bind (mirrors_resolveExpr scope value) fun _ =>
      .pure m.never.symm)
  | .rethrow info => mirrors_typed info.id (.pure m.never.symm)
  | .lambda info params body => by
    refine mirrors_typed info.id (.bind (mirrors_resolveLambdaParams scope 0 params)
      fun elements => ?_)
    have htypes : (elements.map (ParameterElement.rename m)).map ParameterElement.type =
        (elements.map ParameterElement.type).map m.type := by
      simp [Function.comp_def]
    dsimp only
    rw [parameterNames_rename, htypes]
    exact .bind (mirrors_resolveBody _ body) fun returns => mirrors_newFunction _ returns

theorem mirrors_resolveExprs (scope : Names) : (es : List Expr) →
    Mirrors m id (resolveExprs ctx scope es)
      (resolveExprs ctx' (scope.rename m) (relabelExprs m es))
  | [] => .pure rfl
  | e :: rest => by
    rw [relabelExprs, resolveExprs, resolveExprs]
    exact .bind (mirrors_resolveExpr scope e) fun _ => mirrors_resolveExprs scope rest

theorem mirrors_resolveArgs (scope : Names) : (params : List ParameterElement) → (es : List Expr) →
    Mirrors m id (resolveArgs ctx scope params es)
      (resolveArgs ctx' (scope.rename m) (params.map (ParameterElement.rename m))
        (relabelExprs m es))
  | params, [] => .pure rfl
  | params, e :: rest => by
    have hlast : Mirrors m id
        (do
          let _ ← resolveExpr ctx scope e
          resolveArgs ctx scope params.tail rest)
        (do
          let _ ← resolveExpr ctx' (scope.rename m) (e.relabel m)
          resolveArgs ctx' (scope.rename m) (params.tail.map (ParameterElement.rename m))
            (relabelExprs m rest)) :=
      .bind (mirrors_resolveExpr scope e) fun _ => mirrors_resolveArgs scope params.tail rest
    rw [relabelExprs, resolveArgs, resolveArgs, e.id_relabel, List.head?_map, ← List.map_tail]
    cases params.head? with
    | none => exact hlast
    | some p => exact .bind (mirrors_setArgument e.id p) fun _ => hlast

theorem mirrors_resolveCallee (scope : Names) : (e : Expr) →
    Mirrors m (Option.map (Element.rename m)) (resolveCallee ctx scope e)
      (resolveCallee ctx' (scope.rename m) (e.relabel m))
  | .name info name => mirrors_resolveCalleeName hctx scope info name
  | .member info target name =>
    .bind (mirrors_resolveReceiver hctx scope target (mirrors_resolveExpr scope target))
      fun r => mirrors_resolveCalleeMember hctx info name r
  | .literal .. | .list .. | .self .. | .call .. | .index .. | .binary .. | .unary .. | .step ..
  | .assign .. | .throw .. | .rethrow .. | .lambda .. => by
    simp only [Expr.relabel, resolveCallee]
    exact .pure rfl

theorem mirrors_resolveTarget (scope : Names) (owner : NodeId) (reads : Bool) : (e : Expr) →
    Mirrors m m.type (resolveTarget ctx scope owner reads e)
      (resolveTarget ctx' (scope.rename m) (m.node owner) reads (e.relabel m))
  | .name info name => mirrors_resolveTargetName hctx scope owner info name reads
  | .member info target name =>
    .bind (mirrors_resolveReceiver hctx scope target (mirrors_resolveExpr scope target))
      fun r => mirrors_resolveTargetMember hctx owner info name r reads
  | .index info target index =>
    .bind (mirrors_resolveExpr scope target) fun type =>
      .bind (mirrors_resolveExpr scope index) fun _ =>
        mirrors_resolveTargetIndex hctx owner info reads type
  | .literal .. | .list .. | .self .. | .call .. | .binary .. | .unary .. | .step .. | .assign ..
  | .throw .. | .rethrow .. | .lambda .. => by
    simp only [Expr.relabel, resolveTarget]
    exact mirrors_noteTarget owner _ none none fun f f' hf => hf.typeOf

theorem mirrors_resolveBody (scope : Names) : (b : Body) →
    Mirrors m m.type (resolveBody ctx scope b)
      (resolveBody ctx' (scope.rename m) (b.relabel m))
  | .block b => .bind (mirrors_resolveBlock scope b) fun _ => .pure m.dynamic.symm
  | .value e => mirrors_resolveExpr scope e

theorem mirrors_resolveBody? (scope : Names) : (b : Option Body) →
    Mirrors m id (resolveBody? ctx scope b)
      (resolveBody? ctx' (scope.rename m) (relabelBody? m b))
  | none => .pure rfl
  | some b => .bind (mirrors_resolveBody scope b) fun _ => .pure rfl

theorem mirrors_resolveLambdaParams (scope : Names) (index : Nat) : (ps : List Param) →
    Mirrors m (List.map (ParameterElement.rename m)) (resolveLambdaParams ctx scope index ps)
      (resolveLambdaParams ctx' (scope.rename m) index (relabelParams m ps))
  | [] => .pure rfl
  | p :: rest => by
    have htype : (p.relabel m).type = relabelType? m p.type := by
      rw [Param.relabel_eq, relabelType?_eq_map]
    rw [relabelParams, resolveLambdaParams, resolveLambdaParams, htype, hctx.library]
    exact .bind (mirrors_resolveParamMetadata scope p) fun _ =>
      .bind (mirrors_resolveType? hctx.workspace hctx.elsewhere p.type) fun type =>
        .bind (mirrors_declareParam hctx.elsewhere p index type) fun element =>
          .bind (mirrors_resolveLambdaParams scope (index + 1) rest) fun elements => .pure rfl

theorem mirrors_resolveParamMetadata (scope : Names) : (p : Param) →
    Mirrors m id (resolveParamMetadata ctx scope p)
      (resolveParamMetadata ctx' (scope.rename m) (p.relabel m))
  | ⟨_, _, _, _, entries⟩ => mirrors_resolveMetadata scope entries

theorem mirrors_resolveParamsMetadata (scope : Names) : (ps : List Param) →
    Mirrors m id (resolveParamsMetadata ctx scope ps)
      (resolveParamsMetadata ctx' (scope.rename m) (relabelParams m ps))
  | [] => .pure rfl
  | p :: rest =>
    .bind (mirrors_resolveParamMetadata scope p) fun _ =>
      mirrors_resolveParamsMetadata scope rest

theorem mirrors_resolveMetadata (scope : Names) : (ms : List Metadatum) →
    Mirrors m id (resolveMetadata ctx scope ms)
      (resolveMetadata ctx' (scope.rename m) (relabelMetadata m ms))
  | [] => .pure rfl
  | e :: rest => .bind (mirrors_resolveEntry scope e) fun _ => mirrors_resolveMetadata scope rest

theorem mirrors_resolveEntry (scope : Names) : (e : Metadatum) →
    Mirrors m id (resolveEntry ctx scope e) (resolveEntry ctx' (scope.rename m) (e.relabel m))
  | ⟨info, name, none⟩ => mirrors_resolveEntryName hctx scope info name
  | ⟨info, name, some args⟩ =>
    .bind (mirrors_resolveEntryName hctx scope info name) fun _ =>
      mirrors_resolveExprs scope args

theorem mirrors_resolveBlock (scope : Names) : (b : Block) →
    Mirrors m id (resolveBlock ctx scope b) (resolveBlock ctx' (scope.rename m) (b.relabel m))
  | ⟨_, statements⟩ => mirrors_resolveStmts scope statements

theorem mirrors_resolveBlock? (scope : Names) : (b : Option Block) →
    Mirrors m id (resolveBlock? ctx scope b)
      (resolveBlock? ctx' (scope.rename m) (relabelBlock? m b))
  | none => .pure rfl
  | some b => mirrors_resolveBlock scope b

theorem mirrors_resolveStmts (scope : Names) : (ss : List Stmt) →
    Mirrors m id (resolveStmts ctx scope ss)
      (resolveStmts ctx' (scope.rename m) (relabelStmts m ss))
  | [] => .pure rfl
  | s :: rest => .bind (mirrors_resolveStmt scope s) fun scope => mirrors_resolveStmts scope rest

theorem mirrors_resolveStmt (scope : Names) : (s : Stmt) →
    Mirrors m (Names.rename m) (resolveStmt ctx scope s)
      (resolveStmt ctx' (scope.rename m) (s.relabel m))
  | .block b => .bind (mirrors_resolveBlock scope b) fun _ => .pure rfl
  | .expr _ e => .bind (mirrors_resolveExpr scope e) fun _ => .pure rfl
  | .ret _ value => .bind (mirrors_resolveExpr? scope value) fun _ => .pure rfl
  | .branch _ cond thenBlock elseBlock =>
    .bind (mirrors_resolveExpr scope cond) fun _ =>
      .bind (mirrors_resolveBlock scope thenBlock) fun _ =>
        .bind (mirrors_resolveBlock? scope elseBlock) fun _ => .pure rfl
  | .loop _ cond body =>
    .bind (mirrors_resolveExpr scope cond) fun _ =>
      .bind (mirrors_resolveBlock scope body) fun _ => .pure rfl
  | .leave _ => .pure rfl
  | .next _ => .pure rfl
  | .guarded _ body catches finallyBlock =>
    .bind (mirrors_resolveBlock scope body) fun _ =>
      .bind (mirrors_resolveClauses scope catches) fun _ =>
        .bind (mirrors_resolveBlock? scope finallyBlock) fun _ => .pure rfl
  | .variable d => by
    have htype : (d.relabel m).type = relabelType? m d.type := by
      rw [VarDecl.relabel_eq, relabelType?_eq_map]
    have hname : (d.relabel m).name = d.name := by rw [VarDecl.relabel_eq]
    rw [Stmt.relabel, resolveStmt, resolveStmt, d.id_relabel, htype, hname, hctx.library]
    exact .bind (mirrors_resolveType? hctx.workspace hctx.elsewhere d.type) fun type =>
      .bind (mirrors_setVariableType d.id type) fun _ =>
        .bind (mirrors_setDeclared d.id (.variable ⟨.declared d, ctx.library, none⟩)
          hctx.elsewhere) fun _ =>
          .bind (mirrors_resolveVariable scope d) fun _ => .pure rfl
  | .function d => by
    have hname : (d.relabel m).name = d.name := by rw [FunctionDecl.relabel_eq]
    rw [Stmt.relabel, resolveStmt, resolveStmt, d.id_relabel, hname, hctx.library]
    exact .bind (mirrors_resolveSignature hctx.workspace hctx.elsewhere none d) fun signature =>
      .bind (mirrors_setDeclared d.id (.executable ⟨.declared d, ctx.library, none⟩)
        hctx.elsewhere) fun _ =>
        .bind (mirrors_resolveFunction
          ((d.name, .executable ⟨.declared d, ctx.library, none⟩) :: scope)
          signature.params d) fun _ => .pure rfl

theorem mirrors_resolveExpr? (scope : Names) : (e : Option Expr) →
    Mirrors m id (resolveExpr? ctx scope e)
      (resolveExpr? ctx' (scope.rename m) (relabelExpr? m e))
  | none => .pure rfl
  | some e => .bind (mirrors_resolveExpr scope e) fun _ => .pure rfl

theorem mirrors_resolveClauses (scope : Names) : (cs : List CatchClause) →
    Mirrors m id (resolveClauses ctx scope cs)
      (resolveClauses ctx' (scope.rename m) (relabelCatches m cs))
  | [] => .pure rfl
  | c :: rest => .bind (mirrors_resolveClause scope c) fun _ => mirrors_resolveClauses scope rest

theorem mirrors_resolveClause (scope : Names) : (c : CatchClause) →
    Mirrors m id (resolveClause ctx scope c)
      (resolveClause ctx' (scope.rename m) (c.relabel m))
  | ⟨info, written, binder, stackBinder, body⟩ => by
    refine .bind (mirrors_resolveClauseType hctx info.id written) fun type =>
      .reading fun f f' hf => ?_
    have hnames := clauseNames_mirrors hctx hf ⟨info, written, binder, stackBinder, body⟩ type
    rw [CatchClause.relabel] at hnames
    dsimp only
    rw [hnames]
    have happend : Names.rename m (clauseNames ctx f ⟨info, written, binder, stackBinder, body⟩
          type) ++ Names.rename m scope =
        Names.rename m (clauseNames ctx f ⟨info, written, binder, stackBinder, body⟩ type ++
          scope) :=
      (NameTable.mapValues_append _ _ _).symm
    rw [happend]
    exact mirrors_resolveBlock _ body

theorem mirrors_resolveVariable (scope : Names) : (d : VarDecl) →
    Mirrors m id (resolveVariable ctx scope d)
      (resolveVariable ctx' (scope.rename m) (d.relabel m))
  | ⟨info, _, _, written, init, _, entries⟩ =>
    .bind (mirrors_resolveMetadata scope entries) fun _ =>
      mirrors_resolveInit scope info.id written init

theorem mirrors_resolveInit (scope : Names) (node : NodeId) (written : Option TypeRef) :
    (e : Option Expr) →
    Mirrors m id (resolveInit ctx scope node written e)
      (resolveInit ctx' (scope.rename m) (m.node node) (relabelType? m written)
        (relabelExpr? m e))
  | none => .pure rfl
  | some e =>
    .bind (mirrors_resolveExpr scope e) fun type => mirrors_inferVariable node written type

theorem mirrors_resolveFunction (scope : Names) (elements : List ParameterElement) :
    (d : FunctionDecl) →
    Mirrors m id (resolveFunction ctx scope elements d)
      (resolveFunction ctx' (scope.rename m) (elements.map (ParameterElement.rename m))
        (d.relabel m))
  | ⟨_, _, _, _, params, _, body, _, entries⟩ => by
    rw [FunctionDecl.relabel, resolveFunction, resolveFunction]
    dsimp only
    rw [filter_isFieldFormal_rename, parameterNames_rename]
    exact .bind (mirrors_resolveMetadata scope entries) fun _ =>
      .bind (mirrors_resolveParamsMetadata scope params) fun _ => mirrors_resolveBody? _ body

end

end

end Resolving

end CheckedThrows
