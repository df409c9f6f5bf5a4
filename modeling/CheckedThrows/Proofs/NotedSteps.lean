import CheckedThrows.Proofs.NotedFacts
import CheckedThrows.Proofs.Shapes

/-!
# What single expressions note

A name that is looked up with the scope that its place sees gets the meaning that the
place gives it.  What is called is noted at the callee and at the call, what is
written and read at the assignment.  Parameters are declared for a signature that has
them in their order.
-/

namespace CheckedThrows

open List Resolving

variable {slot : Slot} {n m : Node} {e : Expr} {params : List Param} {cinfo : NodeInfo}
  {owner : NodeId}
variable {p : Place} {info : NodeInfo}

namespace Place

theorem mem_walkCode_parent {root : Node}
    (hmem : child p slot n ∈ walkCode root) : p ∈ walkCode root ∧ n.isMetadatum = false := by
  rw [mem_walkCode_iff] at hmem ⊢
  cases hmem with
  | child above isChild isKept =>
    obtain ⟨c, -, hc⟩ := mem_children_iff.mp isChild
    obtain ⟨rfl, -, rfl⟩ := Place.child.inj hc
    exact ⟨above, by simpa using isKept⟩

/-- A context and a scope are those of a place of a unit.  In metadata they may be
others. -/
structure Sees (units : List CompilationUnit) (u : CompilationUnit) (ctx : BodyContext)
    (scope : Names) (p : Place) : Prop where
  mem : p ∈ walk (.unit u)
  library : ctx.library = u.uri
  code : p ∈ walkCode (.unit u) →
    ctx = (Facts.initial (.ofUnits units)).contextAt (.ofUnits units) u.uri p ∧
      scope.Shows u.uri fun name => p.binder? name

/-- An expression whose value is asked for at a place, unless it is a name or a member
that is called. -/
structure Reads (p : Place) (e : Expr) : Prop where
  node : p.node = .expr e
  slot : p.slot ≠ .target
  callee : p.slot = .callee → e.isNamed = false

theorem not_isNamedCallee (hnode : p.node = .expr e)
    (hcallee : p.slot = .callee → e.isNamed = false) : ¬p.isNamedCallee = true := by
  intro hcalled
  simp only [isNamedCallee, hnode, Bool.and_eq_true, decide_eq_true_eq] at hcalled
  rw [hcallee hcalled.1] at hcalled
  cases hcalled.2

theorem Reads.id (hreads : p.Reads e) : p.node.id = e.id := by
  rw [hreads.node, Node.id]

theorem reads_child (p : Place) (e : Expr) : (child p .other (.expr e)).Reads e :=
  ⟨rfl, nofun, nofun⟩

namespace Sees

variable {units : List CompilationUnit} {u : CompilationUnit} {ctx : BodyContext}
  {scope names : Names} {p : Place} (h : p.Sees units u ctx scope)
include h

theorem inner {c : Slot × Node} (hc : c ∈ p.node.children) (hinner : p.node.isInner = true)
    (hnames : names.Shows u.uri fun name => p.node.binder? name c.2) :
    (child p c.1 c.2).Sees units u ctx (names ++ scope) := by
  refine ⟨mem_walk_child h.mem hc, h.library, fun hcode => ?_⟩
  obtain ⟨hctx, hscope⟩ := h.code (mem_walkCode_parent hcode).1
  have hmember : (child p c.1 c.2).member? = p.member? := by
    rw [member?]
    split
    next d hnode =>
      rw [hnode] at hinner
      cases hinner
    next => rfl
  refine ⟨?_, hnames.append hscope⟩
  rw [hctx]
  simp only [Facts.contextAt, hmember]

theorem child (hnode : p.node = m)
    (hc : (slot, n) ∈ m.children) (hinner : m.isInner = true := by rfl)
    (hbinds : ∀ name, m.binder? name n = none := by exact fun _ => rfl) :
    (Place.child p slot n).Sees units u ctx scope := by
  subst hnode
  have hnone : Names.Shows u.uri [] fun name => p.node.binder? name n := by
    simp only [hbinds]
    exact Names.shows_nil u.uri
  exact h.inner hc hinner hnone

theorem body (hnode : p.node = m) {b : Body} (hc : (Slot.other, .ofBody b) ∈ m.children)
    (hinner : m.isInner = true)
    (hbinds : ∀ name, m.binder? name (.ofBody b) = Binder.ofParams? name params)
    {elements : List ParameterElement} (helements : ParameterElement.AreOf u.uri params elements) :
    (Place.child p .other (.ofBody b)).Sees units u ctx
      (((elements.filter fun x => !x.isFieldFormal).map fun x =>
        (x.name, Element.parameter x)).reverse ++ scope) := by
  subst hnode
  refine h.inner hc hinner ?_
  simp only [hbinds, ← helements.params]
  exact Names.shows_params helements.library

theorem stmt {b : Block} (hnode : p.node = .block b) {before after : List Stmt} {s : Stmt}
    (hb : b.statements = before ++ s :: after) (hdistinct : (b.statements.map Node.stmtId).Nodup)
    (hnames : names.Shows u.uri fun name => Binder.ofStmts? name before) :
    (Place.child p .other (.stmt s)).Sees units u ctx
      (Names.ofFunction u.uri s ++ (names ++ scope)) := by
  have hbefore : b.statements.takeWhile (fun t => Node.stmtId t ≠ Node.stmtId s) = before := by
    rw [hb, map_append, map_cons, nodup_middle, nodup_cons,
      mem_append] at hdistinct
    rw [hb, takeWhile_append_of_pos, takeWhile_cons_of_neg (by simp), append_nil]
    intro t ht
    exact decide_eq_true fun hid => hdistinct.1 (.inl (hid ▸ mem_map_of_mem ht))
  rw [← append_assoc]
  refine h.inner (c := (.other, .stmt s)) ?_ (by rw [hnode]; rfl) ?_
  · rw [hnode]
    exact mem_map_of_mem (hb ▸ mem_append_right _ mem_cons_self)
  · have hbound : ∀ name, (Node.block b).binder? name (.stmt s) =
        (Binder.ofFunction? name s).or (Binder.ofStmts? name before) := by
      intro name
      rw [← hbefore]
      rfl
    rw [hnode]
    simp only [hbound]
    exact (Names.shows_ofFunction u.uri s).append hnames

theorem mayMean {name : String} (hnode : p.node = .expr (.name info name)) :
    p.MayMean units u (ctx.lookupRead scope name) := by
  intro name' hread hcode
  obtain rfl : name = name' := by
    simp only [readName?, hnode] at hread
    split at hread
    · cases hread
    · exact Option.some.inj hread
  obtain ⟨rfl, hscope⟩ := h.code hcode
  exact BodyContext.finds_lookupRead hscope name

end Sees

theorem sees_metadatum {units : List CompilationUnit} {u : CompilationUnit} {ctx : BodyContext}
    (hp : p ∈ walk (.unit u)) (hlibrary : ctx.library = u.uri) {m : Metadatum}
    (hm : (Slot.other, .metadatum m) ∈ p.node.children) (scope : Names) :
    (child p .other (.metadatum m)).Sees units u ctx scope :=
  ⟨mem_walk_child hp hm, hlibrary, fun hcode => by cases (mem_walkCode_parent hcode).2⟩

end Place

section
variable {units : List CompilationUnit} {skip : Place → Prop} {signed : NodeId → Prop}
  {ctx : BodyContext}

/-! ## Steps without a place -/

theorem notes_unless_undefined {α : Type} {next : Resolving α} (missing : Prop) [Decidable missing]
    (info : NodeInfo) (name : String) (hnext : Notes units skip signed next) :
    Notes units skip signed (do
      if missing then undefinedName ctx info name
      next) := by
  by_cases hmissing : missing
  · simp only [hmissing, if_true]
    exact (notes_undefinedName ctx info name).bind fun _ => hnext
  · simp only [hmissing, if_false]
    exact hnext

theorem preserves_invoke {inv : Facts → Prop} (hfail : ∀ fault, Preserves inv (fail fault))
    (w : Workspace) (e : Element) : Preserves inv (invoke w e) := by
  have hresult : ∀ type, Preserves inv (callResult type) := by
    intro type
    refine preserves_get.bind fun f => ?_
    split
    · exact .pure _
    · exact .pure _
    · exact (hfail _).done _
  cases e with
  | «class» c => exact preserves_read _
  | executable e =>
    refine preserves_get.bind fun f => ?_
    split
    · exact .pure _
    · exact (hresult _).done _
    · exact .pure _
  | «variable» v => exact preserves_get.bind fun _ => (hresult _).done _
  | parameter q => exact preserves_get.bind fun _ => (hresult _).done _

theorem executable_invoke (w : Workspace) (e : ExecutableElement) (f : Facts) :
    ((invoke w (.executable e)).run f).1.executable = some e := by
  unfold invoke
  dsimp only
  generalize e.kind = kind
  generalize e.owner = owner
  cases kind <;> cases owner <;> rfl

def callAfter (w : Workspace) (info : NodeInfo) (next : Invocation → Resolving TypeId)
    (callee : Option Element) : Resolving TypeId := do
  let i ← match callee with
    | some e => invoke w e
    | none => pure {}
  noteInvocation info.id i
  next i

theorem notes_inferVariable (node : NodeId) (written : Option TypeRef) (type : TypeId) :
    Notes units skip signed (inferVariable node written type) := by
  refine (preserves_read _).bind fun declared => ?_
  split
  · exact notes_setVariableType node type
  · exact .pure _

theorem notes_resolveClauseType (node : NodeId) (written : Option TypeRef) :
    Notes units skip signed (resolveClauseType ctx node written) := by
  unfold resolveClauseType
  split
  · exact preserves_read _
  · refine (notes_resolveType ctx.workspace ctx.library _).bind fun ty => ?_
    split
    · exact preserves_read _
    · exact (notes_setCatchType node ty).done _

section
variable (w : Workspace) (uri : String) (owner : Option ClassElement)

theorem notes_resolveParamType (x : Param) :
    Notes units skip signed (resolveParamType w uri owner x) := by
  unfold resolveParamType
  split
  · split
    · exact preserves_read _
    · exact (notes_warn _ _ _).done _
  · exact notes_resolveType? w uri x.type

theorem areOf_declareParams (params : List Param) (index : Nat) (f : Facts) :
    ParameterElement.AreOf uri params ((declareParams w uri owner index params).run f).1 := by
  induction params generalizing index f with
  | nil => exact ⟨rfl, forall_mem_nil _⟩
  | cons x rest ih =>
    obtain ⟨hparams, hlibrary⟩ := ih (index + 1) _
    exact ⟨congrArg (x :: ·) hparams, forall_mem_cons.mpr ⟨rfl, hlibrary⟩⟩

theorem areOf_resolveSignature (d : FunctionDecl) (f : Facts) :
    ParameterElement.AreOf uri d.params ((resolveSignature w uri owner d).run f).1.params := by
  have hsame : ((resolveSignature w uri owner d).run f).1.params =
      ((declareParams w uri owner 0 d.params).run f).1 := by
    rw [resolveSignature]
    generalize d.kind = kind
    cases kind <;> cases owner <;> rfl
  rw [hsame]
  exact areOf_declareParams w uri owner d.params 0 f

end

variable (hunits : Numbered units) {u : CompilationUnit} (hu : u ∈ units) {p : Place}
  {scope : Names} {creation : Option CreationWord} {name : String} {node : NodeId}
  {info : NodeInfo} {target : Expr} {args : List Expr} {next : Invocation → Resolving TypeId}
include hunits hu

/-! ## Names and members -/

theorem notes_name (h : p.Sees units u ctx scope) (hreads : p.Reads (.name info name)) :
    Notes units skip signed (typed info.id (resolveName ctx scope info name)) := by
  obtain ⟨hnode, hslot, hcallee⟩ := hreads
  have hid : p.node.id = info.id := by rw [hnode]; rfl
  have hmean := h.mayMean hnode
  intro f hf
  unfold resolveName
  rw [← hid]
  cases hlookup : ctx.lookupRead scope name with
  | some e =>
    rw [hlookup] at hmean
    refine hf.setNamed hunits hu h.mem ?_ hmean (.inl (by simp [Place.namedCallee?, hnode])) ?_ _
    · simpa [Place.hasMeaning, hnode] using hslot
    · exact fun hcalled => (Place.not_isNamedCallee hnode hcallee hcalled).elim
  | none =>
    rw [hlookup] at hmean
    exact (notes_undefinedName ctx info name f hf).setMissing hunits hu h.mem hmean _

theorem notes_resolveReceiver (h : p.Sees units u ctx scope)
    (hreads : p.Reads target) {value : Resolving TypeId} (hvalue : Notes units skip signed value) :
    Notes units skip signed (resolveReceiver ctx scope target value) := by
  unfold resolveReceiver
  split
  next c hnamed =>
    obtain ⟨info, name, rfl⟩ := BodyContext.exists_name_of_classNamed? hnamed
    obtain ⟨e, hlookup, hclass⟩ := Option.bind_eq_some_iff.mp hnamed
    obtain rfl : e = .class c := by
      cases e <;> cases hclass
      rfl
    obtain ⟨hnode, hslot, hcallee⟩ := hreads
    have hid : (Expr.name info name).id = p.node.id := by rw [hnode]; rfl
    intro f hf
    rw [hid]
    refine hf.setNamed hunits hu h.mem ?_ (hlookup ▸ h.mayMean hnode)
      (.inl (by simp [Place.namedCallee?, hnode])) ?_ _
    · simpa [Place.hasMeaning, hnode] using hslot
    · exact fun hcalled => (Place.not_isNamedCallee hnode hcallee hcalled).elim
  next => exact hvalue.done _

variable (hp : p ∈ Place.walk (.unit u))
include hp

theorem notes_setType (hread : p.readName? = none)
    (hid : p.node.id = node) (type : TypeId) : Notes units skip signed (setType node type) := by
  subst hid
  exact preserves_modify fun f hf => hf.setType hunits hu hp (Place.mayMean_of_none hread) type

theorem notes_typed (hread : p.readName? = none)
    (hid : p.node.id = node) {find : Resolving TypeId} (hfind : Notes units skip signed find) :
    Notes units skip signed (typed node find) :=
  hfind.bind fun type => (notes_setType hunits hu hp hread hid type).done _

theorem notes_resolveMember (hreads : p.Reads (.member info target name)) (r : Receiver) :
    Notes units skip signed (resolveMember ctx info r name) := by
  obtain ⟨hnode, hslot, hcallee⟩ := hreads
  have hid : p.node.id = info.id := by rw [hnode]; rfl
  unfold resolveMember
  split
  next e _ =>
    have hmeaning : Notes units skip signed (setMeaning info.id e) := by
      rw [← hid]
      refine preserves_modify fun f hf => hf.setMeaning hunits hu hp ?_
        (Place.mayMean_of_none (by simp [Place.readName?, hnode]))
        (.inl (by simp [Place.namedCallee?, hnode])) ?_
      · simpa [Place.hasMeaning, hnode] using hslot
      · exact fun hcalled => (Place.not_isNamedCallee hnode hcallee hcalled).elim
    exact hmeaning.bind fun _ => preserves_read _
  next => exact (notes_notice _).done _

/-- What a callee means is noted at the callee, and what is called at the call. -/
theorem notes_call {callee : Expr}
    (hnode : p.node = .expr (.call info callee args creation)) (hnamed : callee.isNamed = true)
    {found : Option Element}
    (hmean : (Place.child p .callee (.expr callee)).MayMean units u found)
    (hnext : ∀ i, Notes units skip signed (next i)) (w : Workspace) :
    Notes units skip signed (setCallee callee.id found >>= callAfter w info next) := by
  have hq : Place.child p .callee (.expr callee) ∈ Place.walk (.unit u) :=
    Place.mem_walk_child hp (c := (.callee, .expr callee)) (by rw [hnode]; exact mem_cons_self)
  have hid : p.node.id = info.id := by rw [hnode]; rfl
  have hother : callee.id ≠ info.id := by
    intro hsame
    have hplace := (hunits u hu u hu _ hq p hp (hsame.trans hid.symm)).2
    have hdepth := congrArg Place.depth hplace
    simp [Place.depth] at hdepth
  have hclose : ∀ (i : Invocation) (g : Facts) (e : Element),
      g.Noted units (fun r => r = p ∨ skip r) signed → g.meanings[callee.id]? = some e →
      (∀ x, e = .executable x → i.executable = some x) →
      ((noteInvocation info.id i).run g).2.Noted units skip signed := by
    intro i g e hg hmeaning hexecutable
    have hcalled : ∀ n, p.namedCallee? = some n → n = callee.id := by
      intro n hn
      simp only [Place.namedCallee?, hnode, hnamed, if_true] at hn
      exact (Option.some.inj hn).symm
    unfold noteInvocation
    cases hi : i.executable with
    | none =>
      refine hg.close fun n hn x _ hx => ?_
      rw [hcalled n hn, hmeaning] at hx
      cases hi.symm.trans (hexecutable x (Option.some.inj hx))
    | some y =>
      rw [← hid]
      show ({ g with meanings := g.meanings.insert p.node.id (.executable y) } : Facts).Noted units
        skip signed
      refine Facts.Noted.close (p := p) (hg.setMeaning hunits hu hp (by simp [Place.hasMeaning, hnode])
        (Place.mayMean_of_none (by simp [Place.readName?, hnode])) (.inr (.inl rfl))
        fun h => (Place.not_isNamedCallee hnode (fun _ => rfl) h).elim) fun n hn x _ hx => ?_
      rw [hcalled n hn, getElem?_insert_ne _ _ (hid ▸ hother), hmeaning] at hx
      have hy := hi.symm.trans (hexecutable x (Option.some.inj hx))
      rw [Std.TreeMap.getElem?_insert_self, Option.some.inj hy]
  intro f hf
  cases found with
  | none => exact hnext {} _ (hf.setMissing hunits hu hq hmean _)
  | some e =>
    have hleft : f.Noted units (fun r => r = p ∨ skip r) signed := hf.mono fun r hr => .inr hr
    have hnoted := hleft.setNamed hunits hu hq
      (by cases callee <;> first | rfl | cases hnamed) hmean
      (.inl (by cases callee <;> first | rfl | cases hnamed))
      (fun _ parent hparent => .inl (Option.some.inj hparent).symm)
      (Facts.typeOf { f with meanings := f.meanings.insert callee.id e } e)
    -- The meaning of the callee stays, and the call is left out, until its own is noted.
    have hstays : Preserves (fun g => g.Noted units (fun r => r = p ∨ skip r) signed ∧
        g.meanings[callee.id]? = some e) (invoke w e) :=
      preserves_invoke (fun fault g hg => ⟨notes_fail fault g hg.1, hg.2⟩) w e
    have hinvoked := hstays _ ⟨hnoted, Std.TreeMap.getElem?_insert_self⟩
    refine hnext _ _ (hclose _ _ e hinvoked.1 hinvoked.2 ?_)
    rintro x rfl
    exact executable_invoke w x _

omit hp in
theorem notes_callName (h : p.Sees units u ctx scope)
    (hnode : p.node = .expr (.call info (.name cinfo name) args creation))
    (hnext : ∀ i, Notes units skip signed (next i)) :
    Notes units skip signed
      (resolveCalleeName ctx scope cinfo name >>= callAfter ctx.workspace info next) := by
  have hcallee := h.child hnode mem_cons_self
  have hcall := notes_call hunits hu h.mem hnode rfl (hcallee.mayMean rfl) hnext ctx.workspace
  unfold resolveCalleeName
  dsimp only
  split
  · exact fun f hf => hcall _ (notes_undefinedName ctx cinfo name f hf)
  · exact hcall

theorem notes_callMember
    (hnode : p.node = .expr (.call info (.member cinfo target name) args creation)) (r : Receiver)
    (hnext : ∀ i, Notes units skip signed (next i)) :
    Notes units skip signed
      (resolveCalleeMember ctx cinfo r name >>= callAfter ctx.workspace info next) := by
  have hmean : (Place.child p .callee (.expr (.member cinfo target name))).MayMean units u
      (r.cls.bind fun c => ctx.workspace.calleeOf? c r.isStatic name) := Place.mayMean_of_none rfl
  have hcall := notes_call hunits hu hp hnode rfl hmean hnext ctx.workspace
  unfold resolveCalleeMember
  dsimp only
  split
  · exact fun f hf => hcall _ (notes_notice _ f hf)
  · exact hcall

/-! ## Operators and targets -/

omit hunits in
theorem notes_applyOperator (hkind : p.appliesOperator = true)
    (hid : p.node.id = node) (receiver : TypeId) (name : String) :
    Notes units skip signed (applyOperator ctx node receiver name) := by
  subst hid
  unfold applyOperator
  dsimp only
  split
  next op _ =>
    have hoperator : Notes units skip signed (setOperator p.node.id op) :=
      preserves_modify fun f hf => hf.setOperator hu hp hkind op
    exact hoperator.bind fun _ => preserves_read _
  next => exact .pure _

omit hunits in
theorem notes_applyBinary (hkind : p.appliesOperator = true)
    (hid : p.node.id = node) (op : BinaryOp) (left : TypeId) :
    Notes units skip signed (applyBinary ctx node op left) := by
  have hcore : Notes units skip signed (do return (← get).coreType "bool") :=
    preserves_read _
  unfold applyBinary
  split
  · exact hcore
  · exact hcore
  · exact (notes_applyOperator hu hp hkind hid left _).bind fun _ => hcore
  · exact (notes_applyOperator hu hp hkind hid left _).bind fun _ => hcore
  · exact notes_applyOperator hu hp hkind hid left _

omit hunits in
theorem notes_applyUnary (hkind : p.appliesOperator = true)
    (hid : p.node.id = node) (op : UnaryOp) (operand : TypeId) :
    Notes units skip signed (applyUnary ctx node op operand) := by
  cases op with
  | not => exact preserves_read _
  | negate => exact notes_applyOperator hu hp hkind hid operand _
  | complement => exact notes_applyOperator hu hp hkind hid operand _

theorem notes_noteTarget (hwrites : p.isWriting = true)
    (hid : p.node.id = owner)
    (htarget : Place.child p .target (.expr target) ∈ Place.walk (.unit u))
    {write read : Option Element} (hread : read.isSome → p.readsFirst = true)
    (readType : Facts → Element → TypeId) :
    Notes units skip signed (noteTarget owner target.id write read readType) := by
  subst hid
  have hnone : (Place.child p .target (.expr target)).readName? = none := by
    cases target <;> rfl
  have htype : ∀ type : Facts → TypeId, Notes units skip signed (do
      let f ← get
      setType target.id (type f)
      return type f) := fun _ =>
    preserves_get.bind fun _ =>
      (notes_setType hunits hu htarget hnone rfl _).done _
  have hreads : ∀ r ∈ read, Notes units skip signed (setRead p.node.id r) := fun r hr =>
    preserves_modify fun f hf => hf.setRead hu hp (hread (by rw [hr]; rfl)) r
  cases write with
  | none =>
    cases read with
    | none => exact htype _
    | some r => exact (hreads r rfl).bind fun _ => htype _
  | some e =>
    have hwrite : Notes units skip signed (setWrite p.node.id e) :=
      preserves_modify fun f hf => hf.setWrite hu hp hwrites e
    refine hwrite.bind fun _ => ?_
    cases read with
    | none => exact htype _
    | some r => exact (hreads r rfl).bind fun _ => htype _

theorem notes_resolveTargetName (hwrites : p.isWriting = true)
    (hid : p.node.id = owner) {reads : Bool}
    (hreads : reads = true → p.readsFirst = true)
    (htarget : Place.child p .target (.expr (.name info name)) ∈ Place.walk (.unit u)) :
    Notes units skip signed (resolveTargetName ctx scope owner reads info name) := by
  have hread : ((if reads then ctx.lookupRead scope name else none : Option Element)).isSome →
      p.readsFirst = true := by
    intro hsome
    split at hsome
    next h => exact hreads h
    next => cases hsome
  exact notes_unless_undefined ((ctx.lookupWrite scope name).isNone = true ∧
      (if reads then ctx.lookupRead scope name else none).isNone = true) info name
    (notes_noteTarget hunits hu hp hwrites hid htarget hread Facts.typeOf)

/-! ## Metadata, clauses and variables -/

theorem notes_resolveEntryName {m : Metadatum}
    (hnode : p.node = .metadatum m) (scope : Names) :
    Notes units skip signed (resolveEntryName ctx scope m.info m.name) := by
  have hmeaning : ∀ e, Notes units skip signed (setMeaning m.info.id e) := by
    intro e
    rw [show m.info.id = p.node.id by rw [hnode]; rfl]
    refine preserves_modify fun f hf => hf.setMeaning hunits hu hp (by simp [Place.hasMeaning, hnode])
      (Place.mayMean_of_none (by simp [Place.readName?, hnode]))
      (.inl (by simp [Place.namedCallee?, hnode])) fun hcalled => ?_
    simp [Place.isNamedCallee, hnode] at hcalled
  unfold resolveEntryName
  split
  · split
    · exact hmeaning _
    · exact .pure _
  · exact hmeaning _
  · exact notes_warn _ _ _

/-! ## Parameters and signatures -/

theorem notes_setDeclared (houter : p.isOuter = false)
    (hid : p.node.id = node) {e : Element} (he : e.id.node = node) :
    Notes units skip signed (setDeclared node e) := by
  subst hid
  exact preserves_modify fun f hf => hf.setDeclared hunits hu hp houter he

theorem notes_declareParam (hinner : p.node.isInner = true)
    {x : Param} (hx : (Slot.other, .param x) ∈ p.node.children) (uri : String) (index : Nat)
    (type : TypeId) : Notes units skip signed (declareParam uri x index type) := by
  refine Preserves.done (notes_setDeclared hunits hu (Place.mem_walk_child hp hx) ?_ rfl rfl) _
  simp [Place.isOuter, hinner]

theorem notes_declareParams (hinner : p.node.isInner = true)
    (w : Workspace) (uri : String) (owner : Option ClassElement)
    (hparams : ∀ x ∈ params, (Slot.other, .param x) ∈ p.node.children) (index : Nat) :
    Notes units skip signed (declareParams w uri owner index params) := by
  induction params generalizing index with
  | nil => exact .pure _
  | cons x rest ih =>
    obtain ⟨hx, hrest⟩ := forall_mem_cons.mp hparams
    refine (notes_resolveParamType w uri owner x).bind fun ty => ?_
    refine (notes_declareParam hunits hu hp hinner hx uri index ty).bind fun element => ?_
    exact (ih hrest (index + 1)).done _

theorem notes_resolveSignature {d : FunctionDecl}
    (hnode : p.node = .functionDecl d) (w : Workspace) {uri : String} (huri : uri = u.uri)
    (owner : Option ClassElement) : Notes units skip signed (resolveSignature w uri owner d) := by
  have hchildren : ∀ x ∈ d.params, (Slot.other, .param x) ∈ p.node.children := by
    intro x hx
    rw [hnode]
    simp only [Node.children, Node.stmtChildren, append_assoc]
    exact mem_append_left _ (mem_map_of_mem hx)
  refine Preserves.bind_of (notes_declareParams hunits hu hp (by rw [hnode]; rfl) w uri owner hchildren 0)
    (areOf_declareParams w uri owner d.params 0) fun params hparams => ?_
  have hreturns : ∀ returns, Notes units skip signed (do
      let type ← newFunction (params.map ParameterElement.type) returns
      setSignature d.id ⟨params, returns, type⟩
      return (⟨params, returns, type⟩ : Signature)) := by
    intro returns
    refine (notes_newFunction _ _).bind fun type => ?_
    have hset : Notes units skip signed (setSignature d.id ⟨params, returns, type⟩) := by
      rw [show d.id = p.node.id by rw [hnode]; rfl]
      refine preserves_modify fun f hf => hf.setSignature hunits hu hp fun d' hd' => ?_
      obtain rfl : d = d' := by
        rw [hnode] at hd'
        exact Stmt.function.inj (Node.stmt.inj hd')
      exact huri ▸ hparams
    exact hset.done _
  split
  · exact (Preserves.pure _).bind hreturns
  · exact (Preserves.pure _).bind hreturns
  · exact (notes_resolveType? w uri d.returns).bind hreturns

end

end CheckedThrows
