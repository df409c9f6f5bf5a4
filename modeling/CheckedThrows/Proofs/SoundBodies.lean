import CheckedThrows.Proofs.SoundSignatures

/-!
# Bodies keep facts sound

Each step that a body is resolved by keeps the facts sound.  The steps for
names, members and calls come first; bodies are then taken by induction on
their syntax.  So the facts of every program are sound, for each property that
its declarations yield.
-/

namespace CheckedThrows

open List Resolving

variable {P : Element → Prop} {ctx : BodyContext} {w : Workspace} {t : TypeTable}
  {names scope : Names} {e : Element} {ty : TypeId}

/-! ## Facts that are read -/

theorem keeps_typeOf (hw : w.Typed) (he : e.SoundIn P t) :
    Keeps P w t (do return (← get).typeOf e) TypeTable.Has := by
  refine keeps_reading fun f ht₁ hf => ?_
  exact .pure_has (hf.typeOf hw (he.typed.mono ht₁.grows))

theorem keeps_coreType (hw : w.Typed) (name : String) :
    Keeps P w t (do return (← get).coreType name) TypeTable.Has := by
  refine keeps_reading fun f _ hf => ?_
  exact .pure_has (hf.coreType hw name)

theorem keeps_objectType (hw : w.Typed) :
    Keeps P w t (do return (← get).objectType) TypeTable.Has := by
  refine keeps_reading fun f _ hf => ?_
  exact .pure_has (hf.objectType hw)

theorem keeps_inferVariable (node : NodeId) (written : Option TypeRef) (hty : t.Has ty) :
    KeepsAll P w t (inferVariable node written ty) := by
  refine (keeps_isDeclared node).bind fun declared t₁ ht₁ _ => ?_
  split
  · exact keeps_setVariableType node (hty.mono ht₁.grows)
  · exact .done

def SoundOption (P : Element → Prop) (t : TypeTable) (e : Option Element) : Prop :=
  ∀ e' ∈ e, e'.SoundIn P t

structure Invocation.SoundIn (P : Element → Prop) (t : TypeTable) (i : Invocation) : Prop where
  executable : ∀ e ∈ i.executable, (Element.executable e).SoundIn P t
  params : SoundParams P t i.params
  result : t.Has i.result

theorem Invocation.soundIn_value (hty : t.Has ty) : Invocation.SoundIn P t { result := ty } :=
  ⟨by simp, by simp [SoundParams], hty⟩

theorem keeps_invokeValue (hw : w.Typed) (hty : t.Has ty) :
    Keeps P w t (do return { result := ← callResult ty }) (Invocation.SoundIn P) := by
  refine (keeps_callResult hw hty).bind fun r t₁ _ hr => ?_
  exact .pure fun t₂ ht₂ => Invocation.soundIn_value (hr.mono ht₂.grows)

theorem keeps_invoke (hw : w.Typed) (hP : w.Holds P) (he : e.SoundIn P t) :
    Keeps P w t (invoke w e) (Invocation.SoundIn P) := by
  cases e with
  | «class» c =>
    refine keeps_reading fun f ht₁ hf => ?_
    refine .pure fun t₂ ht₂ => ⟨?_, ?_, ?_⟩
    · exact fun e hconstructor =>
        ((hP.sound hw hf.tables.grows).constructor? hconstructor).mono ht₂.grows
    · cases hconstructor : w.constructor? c "" with
      | none => simp [SoundParams]
      | some e => simpa [hconstructor] using (hf.paramsOf e).mono ht₂.grows
    · exact ((TypeTable.HasClass.has he.typed).mono ht₁.grows).mono ht₂.grows
  | executable e =>
    refine keeps_reading fun f ht₁ hf => ?_
    have hself : ∀ t₂, f.types.Extends t₂ → ∀ e' ∈ some e, (Element.executable e').SoundIn P t₂ :=
      fun t₂ ht₂ e' he' => Option.some.inj he' ▸ (he.mono ht₁.grows).mono ht₂.grows
    split
    next c _ howner =>
      exact .pure fun t₂ ht₂ => ⟨hself t₂ ht₂, (hf.paramsOf e).mono ht₂.grows,
        (((he.typed c howner).has).mono ht₁.grows).mono ht₂.grows⟩
    next =>
      refine (keeps_callResult hw (hf.returnType hw e)).bind fun r t₂ ht₂ hr => ?_
      exact .pure fun t₃ ht₃ => ⟨hself t₃ (ht₂.trans ht₃), by simp [SoundParams], hr.mono ht₃.grows⟩
    next =>
      exact .pure fun t₂ ht₂ => ⟨hself t₂ ht₂, (hf.paramsOf e).mono ht₂.grows,
        (hf.returnType hw e).mono ht₂.grows⟩
  | «variable» v =>
    refine keeps_reading fun f ht₁ hf => ?_
    exact keeps_invokeValue hw (hf.typeOf hw (he.typed.mono ht₁.grows))
  | parameter p =>
    refine keeps_reading fun f ht₁ hf => ?_
    exact keeps_invokeValue hw (hf.typeOf hw (he.typed.mono ht₁.grows))

theorem keeps_noteInvocation (node : NodeId) {i : Invocation}
    (hi : i.SoundIn P t) : KeepsAll P w t (noteInvocation node i) := by
  unfold noteInvocation
  split
  next e he => exact keeps_setMeaning node (hi.executable e he)
  next => exact .done

theorem keeps_noteTarget (hw : w.Typed)
    (owner target : NodeId) {write read : Option Element} (hwrite : SoundOption P t write)
    (hread : SoundOption P t read) {readType : Facts → Element → TypeId}
    (hreadType : ∀ (f : Facts) (e : Element), f.Sound P w → e.TypedIn f.types →
      f.types.Has (readType f e)) :
    Keeps P w t (noteTarget owner target write read readType) TypeTable.Has := by
  have hlast : ∀ t₁, t.Extends t₁ → Keeps P w t₁ (do
      let f ← get
      let type :=
        match read, write with
        | some e, _ => readType f e
        | none, some e => f.writtenType e
        | none, none => .dynamic
      setType target type
      return type) TypeTable.Has := by
    intro t₁ ht₁
    refine keeps_reading fun f ht₂ hf => ?_
    have htype : f.types.Has
        (match read, write with
          | some e, _ => readType f e
          | none, some e => f.writtenType e
          | none, none => .dynamic) := by
      cases read with
      | some e => exact hreadType f e hf (((hread e rfl).typed.mono ht₁.grows).mono ht₂.grows)
      | none =>
        cases write with
        | some e =>
          exact hf.writtenType hw (((hwrite e rfl).typed.mono ht₁.grows).mono ht₂.grows)
        | none => exact hf.has_dynamic hw
    refine (keeps_setType target htype).bind fun _ t₃ ht₃ _ => ?_
    exact .pure_has (htype.mono ht₃.grows)
  cases write with
  | none =>
    cases read with
    | none => exact hlast t (.refl t)
    | some r => exact (keeps_setRead owner (hread r rfl)).bind fun _ t₁ ht₁ _ => hlast t₁ ht₁
  | some e =>
    refine (keeps_setWrite owner (hwrite e rfl)).bind fun _ t₁ ht₁ _ => ?_
    cases read with
    | none => exact hlast t₁ ht₁
    | some r =>
      refine (keeps_setRead owner ((hread r rfl).mono ht₁.grows)).bind fun _ t₂ ht₂ _ => ?_
      exact hlast t₂ (ht₁.trans ht₂)

theorem soundIn_clauseNames {f : Facts} (hw : w.Typed) (hf : f.Sound P w) {c : CatchClause}
    (hc : (Node.clause c).Yields P ctx.library) (hty : f.types.Has ty) :
    Names.SoundIn P f.types (clauseNames ctx f c ty) := by
  intro entry hentry
  rcases mem_append.mp hentry with hstack | hexception
  · obtain ⟨name, _, rfl⟩ := Option.map_eq_some_iff.mp (Option.mem_toList.mp hstack)
    exact ⟨⟨by simp, hf.coreType hw "StackTrace"⟩, (hc name _).2⟩
  · obtain ⟨name, _, rfl⟩ := Option.map_eq_some_iff.mp (Option.mem_toList.mp hexception)
    exact ⟨⟨by simp, hty⟩, (hc name ty).1⟩

theorem Names.SoundIn.append {names' : Names} (hnames : Names.SoundIn P t names)
    (hnames' : Names.SoundIn P t names') : Names.SoundIn P t (names ++ names') := by
  intro entry hentry
  rcases mem_append.mp hentry with h | h
  · exact hnames entry h
  · exact hnames' entry h

theorem Names.soundIn_nil (P : Element → Prop) (t : TypeTable) : Names.SoundIn P t [] := by
  simp [Names.SoundIn, Names.All]

theorem soundIn_paramNames {params : List ParameterElement} (hparams : SoundParams P t params)
    (hnames : ∀ entry ∈ names, ∃ p ∈ params, entry = (p.name, .parameter p)) :
    Names.SoundIn P t names := by
  intro entry hentry
  obtain ⟨p, hp, rfl⟩ := hnames entry hentry
  exact hparams p hp

/-! ## Inside a body -/

structure Inside (P : Element → Prop) (ctx : BodyContext) (t : TypeTable) (scope : Names) :
    Prop where
  ctx : ctx.SoundIn P t
  scope : Names.SoundIn P t scope

theorem Inside.mono {t' : TypeTable} (hin : Inside P ctx t scope) (hext : t.Extends t') :
    Inside P ctx t' scope :=
  ⟨hin.ctx.mono hext.grows, hin.scope.mono hext.grows⟩

theorem Inside.append (hin : Inside P ctx t scope) (hnames : Names.SoundIn P t names) :
    Inside P ctx t (names ++ scope) :=
  ⟨hin.ctx, hnames.append hin.scope⟩

theorem Inside.cons {name : String} (hin : Inside P ctx t scope) (he : e.SoundIn P t) :
    Inside P ctx t ((name, e) :: scope) :=
  ⟨hin.ctx, forall_mem_cons.mpr ⟨he, hin.scope⟩⟩

theorem Inside.has_special (hin : Inside P ctx t scope) (hspecial : TypeTable.initial.Has ty) :
    t.Has ty :=
  hin.ctx.workspace.has_special hin.ctx.grows hspecial

section
variable {α β : Type} {step : Resolving α} {post : TypeTable → α → Prop}
  (hin : Inside P ctx t scope) (hstep : Keeps P ctx.workspace t step post)
include hin hstep

/-- What is seen from a place is still seen, and sound, after a step. -/
theorem Inside.bind {next : α → Resolving β} {post' : TypeTable → β → Prop}
    (hnext : ∀ a t', t.Extends t' → Inside P ctx t' scope → post t' a →
      Keeps P ctx.workspace t' (next a) post') :
    Keeps P ctx.workspace t (step >>= next) post' :=
  hstep.bind fun a t' ht ha => hnext a t' ht (hin.mono ht) ha

theorem Inside.leave :
    Keeps P ctx.workspace t (step >>= fun _ => pure scope) (Names.SoundIn P) :=
  hin.bind hstep fun _ _ _ hin _ => .pure fun _ ht => (hin.mono ht).scope

end

section
variable (hin : Inside P ctx t scope)
include hin

/-! ### Names, members and calls -/

theorem has_selfType : t.Has (selfType ctx) := by
  unfold selfType
  split
  next c howner =>
    split
    · exact hin.has_special has_initial_unknown
    · exact (hin.ctx.owner c howner).has
  next => exact hin.has_special has_initial_unknown

theorem keeps_resolveName (info : NodeInfo) (name : String) :
    Keeps P ctx.workspace t (resolveName ctx scope info name) TypeTable.Has := by
  unfold resolveName
  split
  next e he =>
    have hsound := BodyContext.holds_of_lookupRead hin.ctx.sound hin.scope he
    refine (keeps_setMeaning info.id hsound).bind fun _ t₁ ht₁ _ => ?_
    exact keeps_typeOf hin.ctx.workspace (hsound.mono ht₁.grows)
  next =>
    refine (keeps_warn _ _ _).bind fun _ t₁ ht₁ _ => ?_
    exact .pure_has ((hin.mono ht₁).has_special has_initial_unknown)

theorem keeps_resolveReceiver (target : Expr) {value : Resolving TypeId}
    (hvalue : Keeps P ctx.workspace t value TypeTable.Has) :
    KeepsAll P ctx.workspace t (resolveReceiver ctx scope target value) := by
  unfold resolveReceiver
  split
  next c hclass =>
    have hsound := BodyContext.holds_of_classNamed? hin.ctx.sound hin.scope hclass
    refine (keeps_setMeaning target.id hsound).bind fun _ t₁ _ _ => ?_
    refine keeps_reading fun f _ hf => ?_
    refine (keeps_setType target.id (hf.coreType hin.ctx.workspace "Type")).bind fun _ _ _ _ => ?_
    exact .done
  next => exact hvalue.bind fun _ _ _ _ => .done

theorem keeps_resolveMember (info : NodeInfo) (r : Receiver) (name : String) :
    Keeps P ctx.workspace t (resolveMember ctx info r name) TypeTable.Has := by
  unfold resolveMember
  split
  next e he =>
    obtain ⟨c, _, hread⟩ := Option.bind_eq_some_iff.mp he
    have hsound := hin.ctx.sound.readOf? hread
    refine (keeps_setMeaning info.id hsound).bind fun _ t₁ ht₁ _ => ?_
    exact keeps_typeOf hin.ctx.workspace (hsound.mono ht₁.grows)
  next =>
    refine (keeps_notice _).bind fun _ t₁ ht₁ _ => ?_
    exact .pure_has ((hin.mono ht₁).has_special has_initial_dynamic)

theorem keeps_setCallee (node : NodeId) {callee : Option Element} (hcallee : SoundOption P t callee) :
    Keeps P ctx.workspace t (setCallee node callee) (SoundOption P) := by
  unfold setCallee
  split
  next e =>
    have he := hcallee e rfl
    refine (keeps_setMeaning node he).bind fun _ t₁ ht₁ _ => ?_
    refine keeps_reading fun f ht₂ hf => ?_
    have he := (he.mono ht₁.grows).mono ht₂.grows
    refine (keeps_setType node (hf.typeOf hin.ctx.workspace he.typed)).bind fun _ t₃ ht₃ _ => ?_
    exact .pure fun t₄ ht₄ e' he' =>
      Option.some.inj he' ▸ (he.mono ht₃.grows).mono ht₄.grows
  next =>
    refine (keeps_setType node (hin.has_special has_initial_unknown)).bind fun _ t₁ ht₁ _ => ?_
    exact .pure fun t₂ ht₂ e' he' => absurd he' (Option.not_mem_none e')

theorem keeps_resolveCalleeName (info : NodeInfo) (name : String) :
    Keeps P ctx.workspace t (resolveCalleeName ctx scope info name) (SoundOption P) := by
  have hfound : SoundOption P t (ctx.lookupRead scope name) :=
    fun e he => BodyContext.holds_of_lookupRead hin.ctx.sound hin.scope he
  unfold resolveCalleeName
  dsimp only
  split
  · refine (keeps_warn _ _ _).bind fun _ t₁ ht₁ _ => ?_
    exact (keeps_setCallee hin info.id hfound).of_extends ht₁
  · exact keeps_setCallee hin info.id hfound

theorem keeps_resolveCalleeMember (info : NodeInfo) (r : Receiver) (name : String) :
    Keeps P ctx.workspace t (resolveCalleeMember ctx info r name) (SoundOption P) := by
  have hfound : SoundOption P t
      (r.cls.bind fun c => ctx.workspace.calleeOf? c r.isStatic name) := by
    intro e he
    obtain ⟨c, _, hcallee⟩ := Option.bind_eq_some_iff.mp he
    exact hin.ctx.sound.calleeOf? hcallee
  unfold resolveCalleeMember
  dsimp only
  split
  · refine (keeps_notice _).bind fun _ t₁ ht₁ _ => ?_
    exact (keeps_setCallee hin info.id hfound).of_extends ht₁
  · exact keeps_setCallee hin info.id hfound

/-! ### Operators and targets -/

theorem keeps_applyOperator (node : NodeId) (receiver : TypeId) (name : String) :
    Keeps P ctx.workspace t (applyOperator ctx node receiver name) TypeTable.Has := by
  unfold applyOperator
  dsimp only
  split
  next op hop =>
    obtain ⟨c, _, hmethod⟩ := Option.bind_eq_some_iff.mp hop
    have hsound := hin.ctx.sound.method? hmethod
    refine (keeps_setOperator node hsound).bind fun _ t₁ _ _ => ?_
    refine keeps_reading fun f _ hf => ?_
    exact .pure_has (hf.returnType hin.ctx.workspace op)
  next => exact .pure_has (hin.has_special has_initial_dynamic)

theorem keeps_applyBinary (node : NodeId) (op : BinaryOp) (left : TypeId) :
    Keeps P ctx.workspace t (applyBinary ctx node op left) TypeTable.Has := by
  unfold applyBinary
  split
  case h_1 | h_2 => exact keeps_coreType hin.ctx.workspace "bool"
  case h_3 | h_4 =>
    refine (keeps_applyOperator hin node left _).bind fun _ _ _ _ => ?_
    exact keeps_coreType hin.ctx.workspace "bool"
  case h_5 => exact keeps_applyOperator hin node left _

theorem keeps_applyUnary (node : NodeId) (op : UnaryOp) (operand : TypeId) :
    Keeps P ctx.workspace t (applyUnary ctx node op operand) TypeTable.Has := by
  unfold applyUnary
  split
  · exact keeps_coreType hin.ctx.workspace "bool"
  · exact keeps_applyOperator hin node operand _
  · exact keeps_applyOperator hin node operand _

theorem keeps_resolveTargetName (owner : NodeId) (reads : Bool) (info : NodeInfo) (name : String) :
    Keeps P ctx.workspace t (resolveTargetName ctx scope owner reads info name) TypeTable.Has := by
  have hnote : Keeps P ctx.workspace t
      (noteTarget owner info.id (ctx.lookupWrite scope name)
        (if reads then ctx.lookupRead scope name else none) Facts.typeOf) TypeTable.Has := by
    refine keeps_noteTarget hin.ctx.workspace owner info.id ?_ ?_
      fun f e hf he => hf.typeOf hin.ctx.workspace he
    · exact fun e he => BodyContext.holds_of_lookupWrite hin.ctx.sound hin.scope he
    · intro e he
      cases reads with
      | true => exact BodyContext.holds_of_lookupRead hin.ctx.sound hin.scope he
      | false => simp at he
  unfold resolveTargetName
  dsimp only
  generalize (if reads then ctx.lookupRead scope name else none) = read at hnote ⊢
  split
  · exact (keeps_warn _ _ _).bind fun _ t₁ ht₁ _ => hnote.of_extends ht₁
  · exact hnote

theorem keeps_resolveTargetMember (owner : NodeId) (reads : Bool) (info : NodeInfo) (r : Receiver) (name : String) :
    Keeps P ctx.workspace t (resolveTargetMember ctx owner reads info r name) TypeTable.Has := by
  refine keeps_noteTarget hin.ctx.workspace owner info.id ?_ ?_
    fun f e hf he => hf.typeOf hin.ctx.workspace he
  · intro e he
    obtain ⟨p, hp, rfl⟩ := Option.map_eq_some_iff.mp he
    obtain ⟨c, _, hsetter⟩ := Option.bind_eq_some_iff.mp hp
    exact hin.ctx.sound.setter? hsetter
  · intro e he
    obtain ⟨p, hp, rfl⟩ := Option.map_eq_some_iff.mp he
    split at hp
    · obtain ⟨c, _, hgetter⟩ := Option.bind_eq_some_iff.mp hp
      exact hin.ctx.sound.getter? hgetter
    · simp at hp

theorem keeps_resolveTargetIndex (owner : NodeId) (reads : Bool) (info : NodeInfo)
    (target : TypeId) :
    Keeps P ctx.workspace t (resolveTargetIndex ctx owner reads info target) TypeTable.Has := by
  refine keeps_noteTarget hin.ctx.workspace owner info.id ?_ ?_ ?_
  · intro e he
    obtain ⟨m, hm, rfl⟩ := Option.map_eq_some_iff.mp he
    obtain ⟨c, _, hmethod⟩ := Option.bind_eq_some_iff.mp hm
    exact hin.ctx.sound.method? hmethod
  · intro e he
    obtain ⟨m, hm, rfl⟩ := Option.map_eq_some_iff.mp he
    split at hm
    · obtain ⟨c, _, hmethod⟩ := Option.bind_eq_some_iff.mp hm
      exact hin.ctx.sound.method? hmethod
    · simp at hm
  · intro f e hf he
    split
    next e' => exact hf.returnType hin.ctx.workspace e'
    next => exact hf.typeOf hin.ctx.workspace he

/-! ### Metadata and clauses -/

theorem keeps_resolveEntryName (info : NodeInfo) (name : String) :
    KeepsAll P ctx.workspace t (resolveEntryName ctx scope info name) := by
  unfold resolveEntryName
  split
  next c hclass =>
    split
    next e he =>
      exact keeps_setMeaning info.id (hin.ctx.sound.constructor? he)
    next => exact .done
  next v hv =>
    exact keeps_setMeaning info.id (BodyContext.holds_of_lookupRead hin.ctx.sound hin.scope hv)
  next => exact keeps_warn _ _ _

theorem keeps_resolveClauseType (node : NodeId) (written : Option TypeRef) :
    Keeps P ctx.workspace t (resolveClauseType ctx node written) TypeTable.Has := by
  unfold resolveClauseType
  split
  next => exact keeps_objectType hin.ctx.workspace
  next ref =>
    refine (keeps_resolveType hin.ctx.workspace ctx.library ref hin.ctx.grows).bind fun ty t₁ _ hty => ?_
    split
    · exact keeps_objectType hin.ctx.workspace
    · refine (keeps_setCatchType node hty).bind fun _ t₂ ht₂ _ => ?_
      exact .pure_has (hty.mono ht₂.grows)

end

/-! ## Bodies -/

abbrev BodyContext.Yields (P : Element → Prop) (ctx : BodyContext) (n : Node) : Prop :=
  n.All (Node.Yields P ctx.library)

section
variable {P : Element → Prop} {ctx : BodyContext}

mutual

theorem keeps_resolveExpr {t : TypeTable} {scope : Names} :
    (e : Expr) → Inside P ctx t scope →
      ctx.Yields P (.expr e) → Keeps P ctx.workspace t (resolveExpr ctx scope e) TypeTable.Has
  | .name info name, hin, _ => keeps_typed info.id (keeps_resolveName hin info name)
  | .literal info value, hin, _ => keeps_typed info.id (keeps_coreType hin.ctx.workspace _)
  | .list info items, hin, hn => by
    refine keeps_typed info.id ?_
    refine (keeps_resolveExprs items hin (Node.all_list.mp hn).2).bind fun _ _ _ _ => ?_
    exact keeps_coreType hin.ctx.workspace "List"
  | .self info, hin, _ => keeps_typed info.id (.pure_has (has_selfType hin))
  | .member info target name, hin, hn => by
    refine keeps_typed info.id ?_
    refine hin.bind (keeps_resolveReceiver hin target
      (keeps_resolveExpr target hin (Node.all_member.mp hn).2)) fun r _ _ hin _ => ?_
    exact keeps_resolveMember hin info r name
  | .call info callee args _, hin, hn => by
    obtain ⟨-, hcallee, hargs⟩ := Node.all_call.mp hn
    refine keeps_typed info.id ?_
    have hrest : ∀ i t₁, Inside P ctx t₁ scope → i.SoundIn P t₁ →
        Keeps P ctx.workspace t₁ (do
          noteInvocation info.id i
          resolveArgs ctx scope i.params args
          return i.result) TypeTable.Has := by
      intro i t₁ hin hi
      refine hin.bind (keeps_noteInvocation info.id hi) fun _ t₂ ht₂ hin _ => ?_
      refine (keeps_resolveArgs args hin (hi.params.mono ht₂.grows) hargs).bind
        fun _ t₃ ht₃ _ => ?_
      exact .pure_has ((hi.result.mono ht₂.grows).mono ht₃.grows)
    split
    · refine hin.bind (keeps_resolveCallee callee hin hcallee) fun found t₁ _ hin hfound => ?_
      split
      next e =>
        exact hin.bind (keeps_invoke hin.ctx.workspace hin.ctx.holds (hfound e rfl))
          fun i t₂ _ hin hi => hrest i t₂ hin hi
      next =>
        exact hrest {} t₁ hin (Invocation.soundIn_value (hin.has_special has_initial_dynamic))
    · refine hin.bind (keeps_resolveExpr callee hin hcallee) fun ty t₁ _ hin hty => ?_
      refine hin.bind (keeps_callResult hin.ctx.workspace hty) fun r t₂ _ hin hr => ?_
      exact hrest _ t₂ hin (Invocation.soundIn_value hr)
  | .index info target index, hin, hn => by
    obtain ⟨-, htarget, hindex⟩ := Node.all_index.mp hn
    refine keeps_typed info.id ?_
    refine hin.bind (keeps_resolveExpr target hin htarget) fun receiver _ _ hin _ => ?_
    refine hin.bind (keeps_resolveExpr index hin hindex) fun _ _ _ hin _ => ?_
    exact keeps_applyOperator hin info.id receiver _
  | .binary info op left right, hin, hn => by
    obtain ⟨-, hleft, hright⟩ := Node.all_binary.mp hn
    refine keeps_typed info.id ?_
    refine hin.bind (keeps_resolveExpr left hin hleft) fun ty _ _ hin _ => ?_
    refine hin.bind (keeps_resolveExpr right hin hright) fun _ _ _ hin _ => ?_
    exact keeps_applyBinary hin info.id op ty
  | .unary info op operand, hin, hn => by
    refine keeps_typed info.id ?_
    refine hin.bind (keeps_resolveExpr operand hin (Node.all_unary.mp hn).2) fun ty _ _ hin _ => ?_
    exact keeps_applyUnary hin info.id op ty
  | .step info op _ operand, hin, hn => by
    refine keeps_typed info.id ?_
    refine hin.bind (keeps_resolveTarget info.id true operand hin (Node.all_step.mp hn).2)
      fun ty _ _ hin hty => ?_
    refine (keeps_applyOperator hin info.id ty _).bind fun _ t₂ ht₂ _ => ?_
    exact .pure_has (hty.mono ht₂.grows)
  | .assign info op target value, hin, hn => by
    obtain ⟨-, htarget, hvalue⟩ := Node.all_assign.mp hn
    refine keeps_typed info.id ?_
    refine hin.bind (keeps_resolveTarget info.id op.reads target hin htarget)
      fun old _ _ hin _ => ?_
    refine hin.bind (keeps_resolveExpr value hin hvalue) fun ty _ _ hin hty => ?_
    split
    · exact .pure_has hty
    · exact .pure_has hty
    · exact keeps_applyOperator hin info.id old _
  | .throw info value, hin, hn => by
    refine keeps_typed info.id ?_
    refine hin.bind (keeps_resolveExpr value hin (Node.all_throw.mp hn).2) fun _ _ _ hin _ => ?_
    exact .pure_has (hin.has_special has_initial_never)
  | .rethrow info, hin, _ => keeps_typed info.id (.pure_has (hin.has_special has_initial_never))
  | .lambda info params body, hin, hn => by
    obtain ⟨-, hparams, hbody⟩ := Node.all_lambda.mp hn
    refine keeps_typed info.id ?_
    refine hin.bind (keeps_resolveLambdaParams 0 params hin hparams)
      fun elements t₁ _ hin helements => ?_
    refine (keeps_resolveBody body (hin.append (soundIn_paramNames helements ?_)) hbody).bind
      fun returns t₂ ht₂ hreturns => ?_
    · intro entry hentry
      obtain ⟨p, hp, rfl⟩ := mem_map.mp (mem_reverse.mp hentry)
      exact ⟨p, hp, rfl⟩
    refine keeps_newFunction ?_ hreturns
    intro ty hty
    obtain ⟨p, hp, rfl⟩ := mem_map.mp hty
    exact (helements.mono ht₂.grows p hp).typed

theorem keeps_resolveExprs {t : TypeTable} {scope : Names} :
    (es : List Expr) → Inside P ctx t scope →
      (∀ e ∈ es, ctx.Yields P (.expr e)) →
      KeepsAll P ctx.workspace t (resolveExprs ctx scope es)
  | [], _, _ => .done
  | e :: rest, hin, hn => by
    obtain ⟨he, hrest⟩ := forall_mem_cons.mp hn
    exact hin.bind (keeps_resolveExpr e hin he) fun _ _ _ hin _ => keeps_resolveExprs rest hin hrest

theorem keeps_resolveArgs {t : TypeTable} {scope : Names} :
    (args : List Expr) → {params : List ParameterElement} → Inside P ctx t scope →
      SoundParams P t params →
      (∀ e ∈ args, ctx.Yields P (.expr e)) →
      KeepsAll P ctx.workspace t (resolveArgs ctx scope params args)
  | [], _, _, _, _ => .done
  | e :: rest, params, hin, hparams, hn => by
    obtain ⟨he, hargs⟩ := forall_mem_cons.mp hn
    rw [resolveArgs]
    have hrest : ∀ t₁, t.Extends t₁ → KeepsAll P ctx.workspace t₁ (do
        let _ ← resolveExpr ctx scope e
        resolveArgs ctx scope params.tail rest) := by
      intro t₁ ht₁
      refine (keeps_resolveExpr e (hin.mono ht₁) he).bind fun _ t₂ ht₂ _ => ?_
      refine keeps_resolveArgs rest ((hin.mono ht₁).mono ht₂) ?_ hargs
      exact fun p hp =>
        ((hparams p (mem_of_mem_tail hp)).mono ht₁.grows).mono ht₂.grows
    cases hhead : params.head? with
    | none => exact hrest t (.refl t)
    | some p =>
      refine (keeps_setArgument e.id (hparams p (mem_of_head? hhead))).bind
        fun _ t₁ ht₁ _ => hrest t₁ ht₁

theorem keeps_resolveCallee {t : TypeTable} {scope : Names} :
    (e : Expr) → Inside P ctx t scope → ctx.Yields P (.expr e) →
      Keeps P ctx.workspace t (resolveCallee ctx scope e) (SoundOption P)
  | .name info name, hin, _ => keeps_resolveCalleeName hin info name
  | .member info target name, hin, hn => by
    refine hin.bind (keeps_resolveReceiver hin target
      (keeps_resolveExpr target hin (Node.all_member.mp hn).2)) fun r _ _ hin _ => ?_
    exact keeps_resolveCalleeMember hin info r name
  | .literal .., _, _ | .list .., _, _ | .self .., _, _
  | .call .., _, _ | .index .., _, _ | .binary .., _, _
  | .unary .., _, _ | .step .., _, _ | .assign .., _, _
  | .throw .., _, _ | .rethrow .., _, _ | .lambda .., _, _ =>
    .pure fun _ _ e he => absurd he (Option.not_mem_none e)

theorem keeps_resolveTarget {t : TypeTable} {scope : Names} (owner : NodeId) (reads : Bool) :
    (e : Expr) → Inside P ctx t scope → ctx.Yields P (.expr e) →
      Keeps P ctx.workspace t (resolveTarget ctx scope owner reads e) TypeTable.Has
  | .name info name, hin, _ => keeps_resolveTargetName hin owner reads info name
  | .member info target name, hin, hn => by
    refine hin.bind (keeps_resolveReceiver hin target
      (keeps_resolveExpr target hin (Node.all_member.mp hn).2)) fun r _ _ hin _ => ?_
    exact keeps_resolveTargetMember hin owner reads info r name
  | .index info target index, hin, hn => by
    obtain ⟨-, htarget, hindex⟩ := Node.all_index.mp hn
    refine hin.bind (keeps_resolveExpr target hin htarget) fun ty _ _ hin _ => ?_
    refine hin.bind (keeps_resolveExpr index hin hindex) fun _ _ _ hin _ => ?_
    exact keeps_resolveTargetIndex hin owner reads info ty
  | .literal .., hin, _ | .list .., hin, _ | .self .., hin, _
  | .call .., hin, _ | .binary .., hin, _ | .unary .., hin, _
  | .step .., hin, _ | .assign .., hin, _ | .throw .., hin, _
  | .rethrow .., hin, _ | .lambda .., hin, _ =>
    keeps_noteTarget hin.ctx.workspace owner _ (by simp [SoundOption])
      (by simp [SoundOption]) fun f e hf he => hf.typeOf hin.ctx.workspace he

theorem keeps_resolveBody {t : TypeTable} {scope : Names} :
    (b : Body) → Inside P ctx t scope →
      ctx.Yields P (.ofBody b) → Keeps P ctx.workspace t (resolveBody ctx scope b) TypeTable.Has
  | .block b, hin, hn => by
    refine hin.bind (keeps_resolveBlock b hin hn) fun _ _ _ hin _ => ?_
    exact .pure_has (hin.has_special has_initial_dynamic)
  | .value e, hin, hn => keeps_resolveExpr e hin hn

theorem keeps_resolveBody? {t : TypeTable} {scope : Names} :
    (b : Option Body) → Inside P ctx t scope →
      (∀ b' ∈ b, ctx.Yields P (.ofBody b')) →
      KeepsAll P ctx.workspace t (resolveBody? ctx scope b)
  | none, _, _ => .done
  | some b, hin, hn => (keeps_resolveBody b hin (hn b rfl)).bind fun _ _ _ _ => .done

theorem keeps_resolveLambdaParams {t : TypeTable} {scope : Names} (index : Nat) :
    (params : List Param) → Inside P ctx t scope →
      (∀ p ∈ params, ctx.Yields P (.param p)) →
      Keeps P ctx.workspace t (resolveLambdaParams ctx scope index params) (SoundParams P)
  | [], _, _ => .pure fun _ _ => by simp [SoundParams]
  | p :: rest, hin, hn => by
    obtain ⟨hp, hrest⟩ := forall_mem_cons.mp hn
    refine hin.bind (keeps_resolveParamMetadata p hin hp) fun _ _ _ hin _ => ?_
    refine hin.bind (keeps_resolveType? hin.ctx.workspace ctx.library p.type hin.ctx.grows)
      fun ty _ _ hin hty => ?_
    refine hin.bind (keeps_declareParam (Node.all_param.mp hp).1 index hty) fun e _ _ hin he => ?_
    refine (keeps_resolveLambdaParams (index + 1) rest hin hrest).bind fun es _ ht₁ hes => ?_
    refine .pure fun _ ht₂ => forall_mem_cons.mpr ⟨?_, hes.mono ht₂.grows⟩
    exact (he.mono ht₁.grows).mono ht₂.grows

theorem keeps_resolveParamMetadata {t : TypeTable} {scope : Names} :
    (p : Param) → Inside P ctx t scope → ctx.Yields P (.param p) →
      KeepsAll P ctx.workspace t (resolveParamMetadata ctx scope p)
  | ⟨_, _, _, _, entries⟩, hin, hn => keeps_resolveMetadata entries hin (Node.all_param.mp hn).2.2

theorem keeps_resolveParamsMetadata {t : TypeTable} {scope : Names} :
    (params : List Param) → Inside P ctx t scope →
      (∀ p ∈ params, ctx.Yields P (.param p)) →
      KeepsAll P ctx.workspace t (resolveParamsMetadata ctx scope params)
  | [], _, _ => .done
  | p :: rest, hin, hn => by
    obtain ⟨hp, hrest⟩ := forall_mem_cons.mp hn
    exact hin.bind (keeps_resolveParamMetadata p hin hp) fun _ _ _ hin _ =>
      keeps_resolveParamsMetadata rest hin hrest

theorem keeps_resolveMetadata {t : TypeTable} {scope : Names} :
    (entries : List Metadatum) → Inside P ctx t scope →
      (∀ m ∈ entries, ctx.Yields P (.metadatum m)) →
      KeepsAll P ctx.workspace t (resolveMetadata ctx scope entries)
  | [], _, _ => .done
  | m :: rest, hin, hn => by
    obtain ⟨hm, hrest⟩ := forall_mem_cons.mp hn
    exact hin.bind (keeps_resolveEntry m hin hm) fun _ _ _ hin _ =>
      keeps_resolveMetadata rest hin hrest

theorem keeps_resolveEntry {t : TypeTable} {scope : Names} :
    (m : Metadatum) → Inside P ctx t scope →
      ctx.Yields P (.metadatum m) → KeepsAll P ctx.workspace t (resolveEntry ctx scope m)
  | ⟨info, name, none⟩, hin, _ => keeps_resolveEntryName hin info name
  | ⟨info, name, some args⟩, hin, hn => by
    exact hin.bind (keeps_resolveEntryName hin info name) fun _ _ _ hin _ =>
      keeps_resolveExprs args hin (Node.all_metadatum.mp hn).2

theorem keeps_resolveBlock {t : TypeTable} {scope : Names} :
    (b : Block) → Inside P ctx t scope →
      ctx.Yields P (.block b) → KeepsAll P ctx.workspace t (resolveBlock ctx scope b)
  | ⟨_, statements⟩, hin, hn => keeps_resolveStmts statements hin (Node.all_block.mp hn).2

theorem keeps_resolveBlock? {t : TypeTable} {scope : Names} :
    (b : Option Block) → Inside P ctx t scope →
      (∀ b' ∈ b, ctx.Yields P (.block b')) →
      KeepsAll P ctx.workspace t (resolveBlock? ctx scope b)
  | none, _, _ => .done
  | some b, hin, hn => keeps_resolveBlock b hin (hn b rfl)

theorem keeps_resolveStmts {t : TypeTable} {scope : Names} :
    (statements : List Stmt) → Inside P ctx t scope →
      (∀ s ∈ statements, ctx.Yields P (.stmt s)) →
      KeepsAll P ctx.workspace t (resolveStmts ctx scope statements)
  | [], _, _ => .done
  | s :: rest, hin, hn => by
    obtain ⟨hs, hrest⟩ := forall_mem_cons.mp hn
    exact hin.bind (keeps_resolveStmt s hin hs) fun _ _ _ hin hinner =>
      keeps_resolveStmts rest ⟨hin.ctx, hinner⟩ hrest

theorem keeps_resolveStmt {t : TypeTable} {scope : Names} :
    (s : Stmt) → Inside P ctx t scope → ctx.Yields P (.stmt s) →
      Keeps P ctx.workspace t (resolveStmt ctx scope s) (Names.SoundIn P)
  | .block b, hin, hn => hin.leave (keeps_resolveBlock b hin hn)
  | .expr _ e, hin, hn => hin.leave (keeps_resolveExpr e hin (Node.all_exprStmt.mp hn).2)
  | .ret _ value, hin, hn => hin.leave (keeps_resolveExpr? value hin (Node.all_ret.mp hn).2)
  | .branch _ cond thenBlock elseBlock, hin, hn => by
    obtain ⟨-, hcond, hthen, helse⟩ := Node.all_branch.mp hn
    refine hin.bind (keeps_resolveExpr cond hin hcond) fun _ _ _ hin _ => ?_
    refine hin.bind (keeps_resolveBlock thenBlock hin hthen) fun _ _ _ hin _ => ?_
    exact hin.leave (keeps_resolveBlock? elseBlock hin helse)
  | .loop _ cond body, hin, hn => by
    obtain ⟨-, hcond, hbody⟩ := Node.all_loop.mp hn
    refine hin.bind (keeps_resolveExpr cond hin hcond) fun _ _ _ hin _ => ?_
    exact hin.leave (keeps_resolveBlock body hin hbody)
  | .leave _, hin, _ => .pure fun _ ht₁ => (hin.mono ht₁).scope
  | .next _, hin, _ => .pure fun _ ht₁ => (hin.mono ht₁).scope
  | .guarded _ body catches finallyBlock, hin, hn => by
    obtain ⟨-, hbody, hcatches, hfinally⟩ := Node.all_guarded.mp hn
    refine hin.bind (keeps_resolveBlock body hin hbody) fun _ _ _ hin _ => ?_
    refine hin.bind (keeps_resolveClauses catches hin hcatches) fun _ _ _ hin _ => ?_
    exact hin.leave (keeps_resolveBlock? finallyBlock hin hfinally)
  | .variable d, hin, hn => by
    have helement : ∀ t', (Element.variable ⟨.declared d, ctx.library, none⟩).SoundIn P t' :=
      fun _ => ⟨⟨by simp, trivial⟩, (Node.all_iff.mp hn).1⟩
    refine hin.bind (keeps_resolveType? hin.ctx.workspace ctx.library d.type hin.ctx.grows)
      fun ty _ _ hin hty => ?_
    refine hin.bind (keeps_setVariableType d.id hty) fun _ t' _ hin _ => ?_
    refine hin.bind (keeps_setDeclared d.id rfl (helement t')) fun _ _ _ hin _ => ?_
    refine hin.bind (keeps_resolveVariable d hin (Node.all_iff.mp hn).2) fun _ _ _ hin _ => ?_
    exact .pure fun t' ht => ((hin.mono ht).cons (helement t')).scope
  | .function d, hin, hn => by
    have helement : ∀ t', (Element.executable ⟨.declared d, ctx.library, none⟩).SoundIn P t' :=
      fun _ => ⟨by simp [Element.TypedIn], (Node.all_iff.mp hn).1⟩
    refine hin.bind (keeps_resolveSignature hin.ctx.workspace hin.ctx.grows (by simp)
      (Node.all_iff.mp hn).2) fun signature t₁ _ hin hsignature => ?_
    refine hin.bind (keeps_setDeclared d.id rfl (helement t₁)) fun _ t₂ ht₂ hin _ => ?_
    have hin : Inside P ctx t₂ ((d.name, .executable ⟨.declared d, ctx.library, none⟩) :: scope) :=
      hin.cons (helement t₂)
    exact hin.leave (keeps_resolveFunction d hin (hsignature.params.mono ht₂.grows)
      (Node.all_iff.mp hn).2)

theorem keeps_resolveExpr? {t : TypeTable} {scope : Names} :
    (e : Option Expr) → Inside P ctx t scope →
      (∀ e' ∈ e, ctx.Yields P (.expr e')) →
      KeepsAll P ctx.workspace t (resolveExpr? ctx scope e)
  | none, _, _ => .done
  | some e, hin, hn => (keeps_resolveExpr e hin (hn e rfl)).bind fun _ _ _ _ => .done

theorem keeps_resolveClauses {t : TypeTable} {scope : Names} :
    (cs : List CatchClause) → Inside P ctx t scope →
      (∀ c ∈ cs, ctx.Yields P (.clause c)) →
      KeepsAll P ctx.workspace t (resolveClauses ctx scope cs)
  | [], _, _ => .done
  | c :: rest, hin, hn => by
    obtain ⟨hc, hrest⟩ := forall_mem_cons.mp hn
    exact hin.bind (keeps_resolveClause c hin hc) fun _ _ _ hin _ =>
      keeps_resolveClauses rest hin hrest

theorem keeps_resolveClause {t : TypeTable} {scope : Names} :
    (c : CatchClause) → Inside P ctx t scope →
      ctx.Yields P (.clause c) → KeepsAll P ctx.workspace t (resolveClause ctx scope c)
  | ⟨info, written, binder, stackBinder, body⟩, hin, hn => by
    obtain ⟨hc, -, hbody⟩ := Node.all_clause.mp hn
    refine hin.bind (keeps_resolveClauseType hin info.id written) fun ty _ _ hin hty => ?_
    refine keeps_reading fun f ht₂ hf => ?_
    exact keeps_resolveBlock body ((hin.mono ht₂).append
      (soundIn_clauseNames hin.ctx.workspace hf hc (hty.mono ht₂.grows))) hbody

theorem keeps_resolveVariable {t : TypeTable} {scope : Names} :
    (d : VarDecl) → Inside P ctx t scope →
      (Node.varDecl d).AllBelow (Node.Yields P ctx.library) →
      KeepsAll P ctx.workspace t (resolveVariable ctx scope d)
  | ⟨info, _, _, written, init, _, entries⟩, hin, hn => by
    obtain ⟨-, hinit, hentries⟩ := Node.allBelow_varDecl.mp hn
    exact hin.bind (keeps_resolveMetadata entries hin hentries) fun _ _ _ hin _ =>
      keeps_resolveInit info.id written init hin hinit

theorem keeps_resolveInit {t : TypeTable} {scope : Names} (node : NodeId)
    (written : Option TypeRef) :
    (init : Option Expr) → Inside P ctx t scope →
      (∀ e ∈ init, ctx.Yields P (.expr e)) →
      KeepsAll P ctx.workspace t (resolveInit ctx scope node written init)
  | none, _, _ => .done
  | some e, hin, hn => by
    refine (keeps_resolveExpr e hin (hn e rfl)).bind fun ty _ _ hty => ?_
    exact keeps_inferVariable node written hty

theorem keeps_resolveFunction {t : TypeTable} {scope : Names} :
    (d : FunctionDecl) → {elements : List ParameterElement} → Inside P ctx t scope →
      SoundParams P t elements →
      (Node.functionDecl d).AllBelow (Node.Yields P ctx.library) →
      KeepsAll P ctx.workspace t (resolveFunction ctx scope elements d)
  | ⟨_, _, _, _, params, _, body, _, entries⟩, elements, hin, helements, hn => by
    obtain ⟨hparams, -, hbody, hentries⟩ := Node.allBelow_functionDecl.mp hn
    refine hin.bind (keeps_resolveMetadata entries hin hentries) fun _ _ ht₁ hin _ => ?_
    refine hin.bind (keeps_resolveParamsMetadata params hin hparams) fun _ _ ht₂ hin _ => ?_
    refine keeps_resolveBody? body (hin.append
      (soundIn_paramNames ((helements.mono ht₁.grows).mono ht₂.grows) ?_)) hbody
    intro entry hentry
    obtain ⟨p, hp, rfl⟩ := mem_map.mp (mem_reverse.mp hentry)
    exact ⟨p, mem_of_mem_filter hp, rfl⟩

end

end

/-! ## Programs -/

theorem keeps_resolveDeclaredFunction (hctx : ctx.SoundIn P t) {d : FunctionDecl}
    (hd : (Node.functionDecl d).AllBelow (Node.Yields P ctx.library)) :
    KeepsAll P ctx.workspace t (resolveDeclaredFunction ctx d) := by
  refine keeps_reading fun f ht₁ _ => ?_
  split
  next e _ =>
    refine keeps_reading fun f' ht₂ hf' => ?_
    exact keeps_resolveFunction d ⟨(hctx.mono ht₁.grows).mono ht₂.grows, Names.soundIn_nil _ _⟩
      (hf'.paramsOf e) hd
  next => exact .done

theorem keeps_resolveClassBodies {c : ClassElement} (hctx : ctx.SoundIn P t)
    (hc : t.HasClass c.type) (hyields : c.decl.Yields P ctx.library) :
    KeepsAll P ctx.workspace t (resolveClassBodies ctx c) := by
  have hinner : ∀ t' isStatic, t.Extends t' →
      ({ ctx with owner := some c, isStatic } : BodyContext).SoundIn P t' := by
    intro t' isStatic ht'
    refine ⟨hctx.workspace, hctx.holds, hctx.grows.trans ht'.grows, ?_⟩
    intro c' hc'
    obtain rfl := Option.some.inj hc'
    exact hc.mono ht'.grows
  refine (keeps_resolveMetadata c.decl.metadata ⟨hctx, Names.soundIn_nil _ _⟩
    hyields.entries).bind fun _ t₁ ht₁ _ => ?_
  refine (keeps_forM ?_).bind fun _ t₂ ht₂ _ => ?_
  · exact fun d hd t' ht' => keeps_resolveVariable d
      ⟨hinner t' d.modifiers.isStatic (ht₁.trans ht'), Names.soundIn_nil _ _⟩
      (hyields.members _ (mem_members_of_toVar? hd))
  · exact keeps_forM fun d hd t' ht' => keeps_resolveDeclaredFunction
      (hinner t' d.modifiers.isStatic ((ht₁.trans ht₂).trans ht'))
      (hyields.members _ (mem_members_of_toFunction? hd))

theorem keeps_resolveLibrary (hw : w.Typed) (hyields : w.Yields P) (ht : w.types.Grows t)
    {l : Library} (hl : l ∈ w.libraries) : KeepsAll P w t (resolveLibrary w l) := by
  have hctx : ∀ t', t.Extends t' →
      ({ workspace := w, library := l.uri } : BodyContext).SoundIn P t' :=
    fun t' ht' => ⟨hw, hyields.holds, ht.trans ht'.grows, by simp⟩
  refine (keeps_forM fun d hd t' ht' => ?_).bind fun _ t₁ ht₁ _ => ?_
  · exact keeps_resolveVariable d ⟨hctx t' ht', Names.soundIn_nil _ _⟩
      (hyields.topVariables l hl d (mem_of_mem_toVar? hd))
  refine (keeps_forM fun d hd t' ht' => ?_).bind fun _ t₂ ht₂ _ => ?_
  · refine keeps_reading fun f ht'' hf => ?_
    split
    next c hclass =>
      obtain ⟨hid, hsound⟩ := hf.declaredClass hclass
      exact keeps_resolveClassBodies (hctx _ ((ht₁.trans ht').trans ht'')) hsound.typed
        (hyields.classes l hl d (mem_of_mem_toClass? hd) c hid hsound.holds).2
    next => exact .done
  · exact keeps_forM fun d hd t' ht' => keeps_resolveDeclaredFunction
      (hctx t' ((ht₁.trans ht₂).trans ht'))
      (hyields.topFunctions l hl d (mem_of_mem_toFunction? hd))

theorem keeps_resolveWorkspace (hw : w.Typed)
    (hyields : w.Yields P) : KeepsAll P w w.types (resolveWorkspace w) := by
  refine (keeps_resolveSignatures hw (.refl _) hyields).bind fun _ t₁ ht₁ _ => ?_
  refine (keeps_forM fun l hl t' ht' =>
    keeps_resolveLibrary hw hyields (ht₁.grows.trans ht'.grows) hl).bind fun _ t₂ _ _ => ?_
  exact keeps_reading fun _ _ _ => keeps_notice _

theorem Workspace.Holds.accepted (hw : w.Holds P) (he : e ∈ w.accepted) : P e := by
  rcases mem_append.mp he with hscope | hmember
  · obtain ⟨l, hl, hentry⟩ := mem_flatMap.mp hscope
    obtain ⟨entry, hmem, rfl⟩ := mem_map.mp hentry
    exact hw.scope l hl entry hmem
  · obtain ⟨i, hi, haccepted⟩ := mem_flatMap.mp hmember
    exact (hw.members i hi).accepted e haccepted

theorem Facts.all_declared_initial (hP : ∀ e ∈ w.accepted, P e) :
    NodeMap.All (fun n e => e.id.node = n ∧ P e) (Facts.initial w).declared := by
  have hfold : ∀ (es : List Element) (declared : NodeMap Element), (∀ e ∈ es, P e) →
      NodeMap.All (fun n e => e.id.node = n ∧ P e) declared →
      NodeMap.All (fun n e => e.id.node = n ∧ P e)
        (es.foldl (fun declared e => declared.insert e.id.node e) declared) := by
    intro es
    induction es with
    | nil => exact fun _ _ hall => hall
    | cons e es ih =>
      intro declared hes hall
      exact ih _ (fun e' he' => hes e' (mem_cons_of_mem e he'))
        (hall.insert ⟨rfl, hes e mem_cons_self⟩)
  exact hfold w.accepted {} hP (NodeMap.all_empty _)

theorem Facts.sound_initial (hw : w.Typed) (hP : w.Holds P) : (Facts.initial w).Sound P w where
  tables := .refl _
  wellFormed := hw.wellFormed
  declared := all_declared_initial fun _ he => (hP.sound hw (.refl _)).accepted he
  signatures := NodeMap.all_empty _
  variableTypes := NodeMap.all_empty _
  staticTypes := NodeMap.all_empty _
  meanings := NodeMap.all_empty _
  reads := NodeMap.all_empty _
  writes := NodeMap.all_empty _
  operators := NodeMap.all_empty _
  arguments := NodeMap.all_empty _
  catchTypes := NodeMap.all_empty _
  faults := rfl

theorem Program.sound_ofUnits {units : List CompilationUnit}
    (hyields : (Workspace.ofUnits units).Yields P) :
    (Program.ofUnits units).facts.Sound P (Program.ofUnits units).workspace := by
  have hw := Workspace.typed_ofUnits units
  exact (keeps_resolveWorkspace hw hyields _ (Facts.sound_initial hw hyields.holds) (.refl _)).1

theorem Workspace.yields_true (w : Workspace) : w.Yields fun _ => True := by
  have hnode : ∀ library (n : Node), n.Yields (fun _ => True) library := by
    intro library n
    unfold Node.Yields
    split <;> simp
  have hbelow : ∀ library (n : Node), n.AllBelow (Node.Yields (fun _ => True) library) :=
    fun library n c _ p _ => hnode library p.node
  have hclass : ∀ library (d : ClassDecl), d.Yields (fun _ => True) library :=
    fun library d => ⟨fun m _ => hbelow library _, fun m _ p _ => hnode library p.node⟩
  refine ⟨⟨fun _ _ _ _ => trivial, fun i _ => ⟨?_, ?_, ?_, ?_, ?_⟩⟩,
    fun l _ d _ => hbelow l.uri _, fun l _ d _ => hbelow l.uri _,
    fun l _ d _ c _ _ => ⟨hclass c.library c.decl, hclass l.uri c.decl⟩⟩ <;>
    exact fun _ _ => trivial

theorem Program.typed_ofUnits (units : List CompilationUnit) :
    (Program.ofUnits units).facts.Sound (fun _ => True) (Program.ofUnits units).workspace :=
  sound_ofUnits (Workspace.yields_true _)

end CheckedThrows
