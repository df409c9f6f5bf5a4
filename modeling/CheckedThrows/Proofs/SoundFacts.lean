import CheckedThrows.Proofs.Lookups
import CheckedThrows.Resolution.Program

/-!
# What resolution writes down

Every number of a type that resolution writes down is that of a type which is in
the table by then, and every element is one that a declaration brings about; so
if all of these have a property `P`, everything that is written has it.  The
steps are taken together by `Resolving.Keeps`.
-/

namespace CheckedThrows

variable {e : Element}
variable {P : Element → Prop} {w : Workspace} {t t' : TypeTable}

namespace TypeTable

def Interned (t : TypeTable) : Prop :=
  ∀ ⦃ty ty' params returns⦄, t.def? ty = some (.function params returns) →
    t.def? ty' = some (.function params returns) → ty = ty'

/-- A later state of a table, to which function types may have been added. -/
structure Extends (t t' : TypeTable) : Prop where
  grows : t.Grows t'
  edges : t'.edges = t.edges
  object : t'.object = t.object
  core : t'.core = t.core
  interned : t.Interned → t'.Interned

theorem Extends.refl (t : TypeTable) : t.Extends t := ⟨.refl t, rfl, rfl, rfl, fun h => h⟩

theorem Extends.trans {t₁ t₂ t₃ : TypeTable} (h₁₂ : t₁.Extends t₂) (h₂₃ : t₂.Extends t₃) :
    t₁.Extends t₃ :=
  ⟨h₁₂.grows.trans h₂₃.grows, h₂₃.edges.trans h₁₂.edges, h₂₃.object.trans h₁₂.object,
    h₂₃.core.trans h₁₂.core, fun h => h₂₃.interned (h₁₂.interned h)⟩

theorem def?_intern (t : TypeTable) (d : TypeDef) :
    (t.intern d).2.def? (t.intern d).1 = some d := by
  unfold intern
  split
  next i hfind =>
    obtain ⟨hlt, heq, _⟩ := Array.findIdx?_eq_some_iff_getElem.mp hfind
    have hpos : (0 : Int) < i + 1 := by omega
    rw [def?, if_pos hpos]
    simpa [hlt] using heq
  next => exact t.def?_add d

theorem mem_defs_of_def? {ty : TypeId} {d : TypeDef} (hdef : t.def? ty = some d) : d ∈ t.defs := by
  unfold def? at hdef
  split at hdef
  · exact Array.mem_of_getElem? hdef
  · cases hdef

theorem Interned.intern (ht : t.Interned) (d : TypeDef) : (t.intern d).2.Interned := by
  unfold TypeTable.intern
  split
  next => exact ht
  next hnone =>
    have hnew : ∀ ty, t.def? ty ≠ some d := by
      intro ty hdef
      have hfalse := Array.findIdx?_eq_none_iff.mp hnone d (mem_defs_of_def? hdef)
      simp at hfalse
    intro ty ty' params returns hty hty'
    rcases (t.def?_add_iff d _ ty).mp hty with hold | ⟨hlast, hd⟩
    · rcases (t.def?_add_iff d _ ty').mp hty' with hold' | ⟨-, hd⟩
      · exact ht hold hold'
      · exact absurd (hd ▸ hold) (hnew ty)
    · rcases (t.def?_add_iff d _ ty').mp hty' with hold' | ⟨hlast', -⟩
      · exact absurd (hd ▸ hold') (hnew ty')
      · rw [hlast, hlast']

theorem extends_intern (t : TypeTable) (d : TypeDef) : t.Extends (t.intern d).2 := by
  have hinterned : t.Interned → (t.intern d).2.Interned := fun ht => ht.intern d
  unfold intern at hinterned ⊢
  split
  next => exact .refl t
  next hnone =>
    rw [hnone] at hinterned
    exact ⟨t.grows_add d, rfl, rfl, rfl, hinterned⟩

theorem WellFormed.newFunction (hwf : t.WellFormed) {params : List TypeId} {returns : TypeId}
    (hparams : ∀ p ∈ params, t.Has p) (hreturns : t.Has returns) :
    (t.newFunction params (some returns)).2.WellFormed := by
  unfold TypeTable.newFunction intern
  split
  · exact hwf
  · have hgrows := t.grows_add (.function params (some returns))
    refine ⟨?_, ?_, ?_⟩
    · intro ty params' returns' hdef
      rcases (t.def?_add_iff _ _ ty).mp hdef with hold | ⟨hty, hnew⟩
      · obtain ⟨hparts, r, hr, hhas, hlt⟩ := hwf.older hold
        exact ⟨fun p hp => ⟨(hparts p hp).1.mono hgrows, (hparts p hp).2⟩,
          r, hr, hhas.mono hgrows, hlt⟩
      · obtain ⟨rfl, rfl⟩ := TypeDef.function.inj hnew
        subst hty
        have hyounger : ∀ p : TypeId, t.Has p → p.toNat < ((t.defs.size : Int) + 1).toNat := by
          intro p hp
          have := hp.le_size
          omega
        exact ⟨fun p hp => ⟨(hparams p hp).mono hgrows, hyounger p (hparams p hp)⟩,
          returns, rfl, hreturns.mono hgrows, hyounger returns hreturns⟩
    · exact fun hobject => (hwf.object_class hobject).mono hgrows
    · exact hwf.no_function_class

end TypeTable

theorem VariableOrigin.TypedIn.mono (hgrows : t.Grows t') {o : VariableOrigin}
    (htyped : o.TypedIn t) : o.TypedIn t' := by
  cases o with
  | declared d => trivial
  | exception c name type => exact TypeTable.Has.mono hgrows htyped
  | stackTrace c name type => exact TypeTable.Has.mono hgrows htyped

theorem Element.TypedIn.mono (hgrows : t.Grows t') (htyped : e.TypedIn t) :
    e.TypedIn t' := by
  cases e with
  | «class» c => exact TypeTable.HasClass.mono hgrows htyped
  | executable e => exact fun c hc => (htyped c hc).mono hgrows
  | «variable» v => exact ⟨fun c hc => (htyped.1 c hc).mono hgrows, htyped.2.mono hgrows⟩
  | parameter p => exact TypeTable.Has.mono hgrows htyped

structure Element.SoundIn (P : Element → Prop) (t : TypeTable) (e : Element) : Prop where
  typed : e.TypedIn t
  holds : P e

theorem Element.SoundIn.mono (hgrows : t.Grows t') (hsound : e.SoundIn P t) :
    e.SoundIn P t' :=
  ⟨hsound.typed.mono hgrows, hsound.holds⟩

def Names.SoundIn (P : Element → Prop) (t : TypeTable) (names : Names) : Prop :=
  names.All (Element.SoundIn P t)

theorem Names.SoundIn.mono (hgrows : t.Grows t') {names : Names}
    (hsound : Names.SoundIn P t names) : Names.SoundIn P t' names :=
  fun entry hentry => (hsound entry hentry).mono hgrows

def SoundParams (P : Element → Prop) (t : TypeTable) (params : List ParameterElement) : Prop :=
  ∀ p ∈ params, (Element.parameter p).SoundIn P t

theorem SoundParams.mono (hgrows : t.Grows t') {params : List ParameterElement}
    (hsound : SoundParams P t params) : SoundParams P t' params :=
  fun p hp => (hsound p hp).mono hgrows

structure Signature.SoundIn (P : Element → Prop) (t : TypeTable) (s : Signature) : Prop where
  params : SoundParams P t s.params
  returns : t.Has s.returns
  type : t.Has s.type

theorem Signature.SoundIn.mono (hgrows : t.Grows t') {s : Signature} (hsound : s.SoundIn P t) :
    s.SoundIn P t' :=
  ⟨hsound.params.mono hgrows, hsound.returns.mono hgrows, hsound.type.mono hgrows⟩

def NodeMap.All {α : Type} (P : NodeId → α → Prop) (m : NodeMap α) : Prop :=
  ∀ (n : NodeId) (a : α), m[n]? = some a → P n a

namespace NodeMap

variable {α : Type} {P Q : NodeId → α → Prop} {m : NodeMap α} {a : α}

theorem All.imp (himp : ∀ n a, P n a → Q n a) (hall : NodeMap.All P m) : NodeMap.All Q m :=
  fun n a hget => himp n a (hall n a hget)

theorem all_empty (P : NodeId → α → Prop) : NodeMap.All P ({} : NodeMap α) := by
  intro n a hget
  simp at hget

theorem All.insert (hall : NodeMap.All P m) {n : NodeId} (ha : P n a) :
    NodeMap.All P (Std.TreeMap.insert m n a) := by
  intro n' a' hget
  rw [Std.TreeMap.getElem?_insert] at hget
  split at hget
  next heq =>
    obtain rfl := Std.LawfulEqCmp.eq_of_compare heq
    exact Option.some.inj hget ▸ ha
  next => exact hall n' a' hget

end NodeMap

/-- Facts of a workspace in which every number of a type is in the table and
every element has a property; what is declared is found under its own number,
and nothing was asked for that is in no table. -/
structure Facts.Sound (P : Element → Prop) (w : Workspace) (f : Facts) : Prop where
  tables : w.types.Extends f.types
  wellFormed : f.types.WellFormed
  declared : NodeMap.All (fun n e => e.id.node = n ∧ e.SoundIn P f.types) f.declared
  signatures : NodeMap.All (fun _ => Signature.SoundIn P f.types) f.signatures
  variableTypes : NodeMap.All (fun _ => f.types.Has) f.variableTypes
  staticTypes : NodeMap.All (fun _ => f.types.Has) f.staticTypes
  meanings : NodeMap.All (fun _ => Element.SoundIn P f.types) f.meanings
  reads : NodeMap.All (fun _ => Element.SoundIn P f.types) f.reads
  writes : NodeMap.All (fun _ => Element.SoundIn P f.types) f.writes
  operators : NodeMap.All (fun _ e => (Element.executable e).SoundIn P f.types) f.operators
  arguments : NodeMap.All (fun _ p => (Element.parameter p).SoundIn P f.types) f.arguments
  catchTypes : NodeMap.All (fun _ => f.types.Has) f.catchTypes
  faults : f.faults = []

namespace Facts

theorem Sound.withTypes {f : Facts} (hf : f.Sound P w)
    {types : TypeTable} (hext : f.types.Extends types) (hwf : types.WellFormed) :
    ({ f with types } : Facts).Sound P w where
  tables := hf.tables.trans hext
  wellFormed := hwf
  declared := hf.declared.imp fun _ _ h => ⟨h.1, h.2.mono hext.grows⟩
  signatures := hf.signatures.imp fun _ _ h => h.mono hext.grows
  variableTypes := hf.variableTypes.imp fun _ _ h => h.mono hext.grows
  staticTypes := hf.staticTypes.imp fun _ _ h => h.mono hext.grows
  meanings := hf.meanings.imp fun _ _ h => h.mono hext.grows
  reads := hf.reads.imp fun _ _ h => h.mono hext.grows
  writes := hf.writes.imp fun _ _ h => h.mono hext.grows
  operators := hf.operators.imp fun _ _ h => h.mono hext.grows
  arguments := hf.arguments.imp fun _ _ h => h.mono hext.grows
  catchTypes := hf.catchTypes.imp fun _ _ h => h.mono hext.grows
  faults := hf.faults

/-! ## Reading facts -/

section
variable {f : Facts} (hw : w.Typed) (hf : f.Sound P w)
include hw hf

theorem Sound.special : TypeTable.initial.Grows f.types :=
  hw.special.trans hf.tables.grows

theorem Sound.has_dynamic : f.types.Has .dynamic :=
  ⟨.dynamic, hf.special hw _ _ rfl⟩

theorem Sound.coreType (name : String) : f.types.Has (f.coreType name) := by
  unfold Facts.coreType
  cases hcore : f.types.coreType name with
  | none => exact hf.has_dynamic hw
  | some ty =>
    rw [TypeTable.coreType, hf.tables.core] at hcore
    exact (hw.core name ty hcore).has.mono hf.tables.grows

theorem Sound.objectType : f.types.Has f.objectType := by
  unfold Facts.objectType
  cases hobject : f.types.object with
  | none => exact hf.has_dynamic hw
  | some ty => exact (hf.wellFormed.object_class hobject).has

omit hw in
theorem Sound.paramsOf (e : ExecutableElement) :
    SoundParams P f.types (f.paramsOf e) := by
  unfold Facts.paramsOf Facts.signature?
  cases hs : f.signatures[e.id.node]? with
  | none => simp [SoundParams]
  | some s => exact (hf.signatures _ s hs).params

theorem Sound.returnType (e : ExecutableElement) : f.types.Has (f.returnType e) := by
  unfold Facts.returnType Facts.signature?
  cases hs : f.signatures[e.id.node]? with
  | none => exact hf.has_dynamic hw
  | some s => exact (hf.signatures _ s hs).returns

theorem Sound.functionType (e : ExecutableElement) : f.types.Has (f.functionType e) := by
  unfold Facts.functionType Facts.signature?
  cases hs : f.signatures[e.id.node]? with
  | none => exact hf.has_dynamic hw
  | some s => exact (hf.signatures _ s hs).type

theorem Sound.variableType {v : VariableElement}
    (hv : v.origin.TypedIn f.types) : f.types.Has (f.variableType v) := by
  unfold Facts.variableType
  split
  next d horigin =>
    cases htype : f.variableTypes[d.id]? with
    | none => exact hf.has_dynamic hw
    | some ty => exact hf.variableTypes _ ty htype
  next horigin => rwa [horigin] at hv
  next horigin => rwa [horigin] at hv

theorem Sound.typeOf (he : e.TypedIn f.types) : f.types.Has (f.typeOf e) := by
  cases e with
  | «class» c => exact hf.coreType hw "Type"
  | executable e =>
    rw [Facts.typeOf]
    split
    · exact hf.returnType hw e
    · exact hf.functionType hw e
  | «variable» v => exact hf.variableType hw he.2
  | parameter p => exact he

theorem Sound.writtenType (he : e.TypedIn f.types) : f.types.Has (f.writtenType e) := by
  cases e with
  | executable e =>
    rw [Facts.writtenType]
    cases hlast : (f.paramsOf e).getLast? with
    | none => exact hf.has_dynamic hw
    | some p => exact (hf.paramsOf e p (List.mem_of_getLast? hlast)).typed
  | «class» c => exact hf.typeOf hw he
  | «variable» v => exact hf.typeOf hw he
  | parameter p => exact hf.typeOf hw he

end

end Facts

/-! ## Steps that keep facts sound -/

namespace Resolving

/-- From sound facts whose table extends `t`, a step leads to sound facts whose
table is an extension again, and its value has the property there. -/
def Keeps {α : Type} (P : Element → Prop) (w : Workspace) (t : TypeTable) (step : Resolving α)
    (post : TypeTable → α → Prop) : Prop :=
  ∀ f : Facts, f.Sound P w → t.Extends f.types →
    (step.run f).2.Sound P w ∧ f.types.Extends (step.run f).2.types ∧
      post (step.run f).2.types (step.run f).1

abbrev KeepsAll {α : Type} (P : Element → Prop) (w : Workspace) (t : TypeTable)
    (step : Resolving α) : Prop :=
  Keeps P w t step fun _ _ => True

section
variable {α β : Type} {a : α} {step : Resolving α} {post : TypeTable → α → Prop}
  {post' : TypeTable → β → Prop}

theorem Keeps.pure (hpost : ∀ t', t.Extends t' → post t' a) : Keeps P w t (Pure.pure a) post :=
  fun f hf ht => ⟨hf, .refl _, hpost f.types ht⟩

theorem Keeps.done : KeepsAll P w t (Pure.pure a) :=
  .pure fun _ _ => trivial

theorem Keeps.pure_has {ty : TypeId} (hty : t.Has ty) : Keeps P w t (Pure.pure ty) TypeTable.Has :=
  .pure fun _ ht => hty.mono ht.grows

theorem Keeps.bind {next : α → Resolving β} (hstep : Keeps P w t step post)
    (hnext : ∀ a t', t.Extends t' → post t' a → Keeps P w t' (next a) post') :
    Keeps P w t (step >>= next) post' := by
  intro f hf ht
  obtain ⟨hf₁, hext₁, hpost₁⟩ := hstep f hf ht
  obtain ⟨hf₂, hext₂, hpost₂⟩ :=
    hnext (step.run f).1 (step.run f).2.types (ht.trans hext₁) hpost₁ _ hf₁ (.refl _)
  exact ⟨hf₂, hext₁.trans hext₂, hpost₂⟩

theorem Keeps.of_extends (hstep : Keeps P w t step post) (hext : t.Extends t') :
    Keeps P w t' step post :=
  fun f hf ht => hstep f hf (hext.trans ht)

theorem keeps_reading {next : Facts → Resolving α}
    (hnext : ∀ f, t.Extends f.types → f.Sound P w → Keeps P w f.types (next f) post) :
    Keeps P w t (get >>= next) post :=
  fun f hf ht => hnext f ht hf f hf (.refl _)

theorem keeps_modify {update : Facts → Facts}
    (hupdate : ∀ f : Facts, f.Sound P w → t.Extends f.types →
      (update f).Sound P w ∧ (update f).types = f.types) : KeepsAll P w t (modify update) := by
  intro f hf ht
  obtain ⟨htyped, htypes⟩ := hupdate f hf ht
  refine ⟨htyped, ?_, trivial⟩
  show f.types.Extends (update f).types
  rw [htypes]
  exact .refl _

theorem keeps_forM {l : List α} {act : α → Resolving Unit}
    (hact : ∀ a ∈ l, ∀ t', t.Extends t' → KeepsAll P w t' (act a)) : KeepsAll P w t (l.forM act) := by
  induction l generalizing t with
  | nil => exact .done
  | cons a l ih =>
    refine (hact a List.mem_cons_self t (.refl t)).bind fun _ t' ht _ => ?_
    exact ih fun b hb t'' ht'' => hact b (List.mem_cons_of_mem a hb) t'' (ht.trans ht'')

end

section

variable {e : Element} {ty : TypeId} (node : NodeId)

theorem keeps_warn (code : String) (span : Span) (message : Text) :
    KeepsAll P w t (warn code span message) :=
  keeps_modify fun _ hf _ => ⟨{ hf with }, rfl⟩

theorem keeps_notice (n : Notice) : KeepsAll P w t (notice n) :=
  keeps_modify fun _ hf _ => ⟨{ hf with }, rfl⟩

theorem keeps_setDeclared (hid : e.id.node = node) (he : e.SoundIn P t) :
    KeepsAll P w t (setDeclared node e) :=
  keeps_modify fun _ hf ht =>
    ⟨{ hf with declared := hf.declared.insert ⟨hid, he.mono ht.grows⟩ }, rfl⟩

theorem keeps_setSignature {s : Signature} (hs : s.SoundIn P t) :
    KeepsAll P w t (setSignature node s) :=
  keeps_modify fun _ hf ht =>
    ⟨{ hf with signatures := hf.signatures.insert (hs.mono ht.grows) }, rfl⟩

theorem keeps_setVariableType (hty : t.Has ty) : KeepsAll P w t (setVariableType node ty) :=
  keeps_modify fun _ hf ht =>
    ⟨{ hf with variableTypes := hf.variableTypes.insert (hty.mono ht.grows) }, rfl⟩

theorem keeps_setType (hty : t.Has ty) : KeepsAll P w t (setType node ty) :=
  keeps_modify fun _ hf ht =>
    ⟨{ hf with staticTypes := hf.staticTypes.insert (hty.mono ht.grows) }, rfl⟩

theorem keeps_setMeaning (he : e.SoundIn P t) : KeepsAll P w t (setMeaning node e) :=
  keeps_modify fun _ hf ht =>
    ⟨{ hf with meanings := hf.meanings.insert (he.mono ht.grows) }, rfl⟩

theorem keeps_setRead (he : e.SoundIn P t) : KeepsAll P w t (setRead node e) :=
  keeps_modify fun _ hf ht =>
    ⟨{ hf with reads := hf.reads.insert (he.mono ht.grows) }, rfl⟩

theorem keeps_setWrite (he : e.SoundIn P t) : KeepsAll P w t (setWrite node e) :=
  keeps_modify fun _ hf ht =>
    ⟨{ hf with writes := hf.writes.insert (he.mono ht.grows) }, rfl⟩

theorem keeps_setOperator {e : ExecutableElement} (he : (Element.executable e).SoundIn P t) :
    KeepsAll P w t (setOperator node e) :=
  keeps_modify fun _ hf ht =>
    ⟨{ hf with operators := hf.operators.insert (he.mono ht.grows) }, rfl⟩

theorem keeps_setArgument {p : ParameterElement} (hp : (Element.parameter p).SoundIn P t) :
    KeepsAll P w t (setArgument node p) :=
  keeps_modify fun _ hf ht =>
    ⟨{ hf with arguments := hf.arguments.insert (hp.mono ht.grows) }, rfl⟩

theorem keeps_setCatchType (hty : t.Has ty) : KeepsAll P w t (setCatchType node ty) :=
  keeps_modify fun _ hf ht =>
    ⟨{ hf with catchTypes := hf.catchTypes.insert (hty.mono ht.grows) }, rfl⟩

theorem keeps_newFunction {params : List TypeId} {returns : TypeId}
    (hparams : ∀ p ∈ params, t.Has p) (hreturns : t.Has returns) :
    Keeps P w t (newFunction params returns) TypeTable.Has := by
  intro f hf ht
  have hext := f.types.extends_intern (.function params (some returns))
  refine ⟨hf.withTypes hext (hf.wellFormed.newFunction ?_ ?_), hext, ?_⟩
  · exact fun p hp => (hparams p hp).mono ht.grows
  · exact hreturns.mono ht.grows
  · exact ⟨_, f.types.def?_intern _⟩

theorem keeps_callResult (hw : w.Typed) (hty : t.Has ty) :
    Keeps P w t (callResult ty) TypeTable.Has := by
  refine keeps_reading fun f ht₁ hf => ?_
  obtain ⟨d, hdef⟩ := hty.mono ht₁.grows
  have hget : f.types.get ty = .ok d := by rw [TypeTable.get, hdef]
  rw [hget]
  split
  next params returns heq =>
    obtain rfl := Except.ok.inj heq
    obtain ⟨-, r, hr, hhas, -⟩ := hf.wellFormed.older hdef
    exact .pure_has (Option.some.inj hr ▸ hhas)
  next => exact .pure_has (hf.has_dynamic hw)
  next heq => cases heq

theorem keeps_typed {find : Resolving TypeId} (hfind : Keeps P w t find TypeTable.Has) :
    Keeps P w t (typed node find) TypeTable.Has := by
  refine hfind.bind fun ty t₁ _ hty => ?_
  refine (keeps_setType node hty).bind fun _ t₂ ht₂ _ => ?_
  exact .pure_has (hty.mono ht₂.grows)

end

end Resolving

end CheckedThrows
