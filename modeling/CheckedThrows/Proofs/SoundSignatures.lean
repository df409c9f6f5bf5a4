import CheckedThrows.Proofs.Everywhere
import CheckedThrows.Proofs.SoundFacts

/-!
# Signatures keep facts sound

What can be found in a workspace, at its top level, in a class or from inside a
body, is sound.  So the types that are written in declarations are types of the
table, and resolving signatures keeps the facts sound if the parameters have
the property that is asked of elements.
-/

namespace CheckedThrows

variable {d : FunctionDecl}
variable {ds : List Declaration}

/-! ## What declarations bring about -/

/-- The elements that a node in a library brings about where it stands in a
body have a property. -/
def Node.Yields (P : Element → Prop) (library : String) : Node → Prop
  | .varDecl d => P (.variable ⟨.declared d, library, none⟩)
  | .functionDecl d => P (.executable ⟨.declared d, library, none⟩)
  | .param p => ∀ index type, P (.parameter ⟨p, library, index, type⟩)
  | .clause c => ∀ name type, P (.variable ⟨.exception c name type, library, none⟩) ∧
      P (.variable ⟨.stackTrace c name type, library, none⟩)
  | _ => True

structure ClassDecl.Yields (P : Element → Prop) (library : String) (d : ClassDecl) : Prop where
  members : ∀ m ∈ d.members, (Node.ofMember m).AllBelow (Node.Yields P library)
  entries : ∀ m ∈ d.metadata, (Node.metadatum m).All (Node.Yields P library)

/-- All elements of a workspace, and all that its declarations bring about, have
a property.  The class of a declaration is looked up by the number of that
declaration, so what is asked of it must follow from its own having the
property. -/
structure Workspace.Yields (P : Element → Prop) (w : Workspace) : Prop where
  holds : w.Holds P
  topVariables : ∀ l ∈ w.libraries, ∀ d, Declaration.variable d ∈ l.unit.declarations →
    (Node.varDecl d).AllBelow (Node.Yields P l.uri)
  topFunctions : ∀ l ∈ w.libraries, ∀ d, Declaration.function d ∈ l.unit.declarations →
    (Node.functionDecl d).AllBelow (Node.Yields P l.uri)
  classes : ∀ l ∈ w.libraries, ∀ d, Declaration.class d ∈ l.unit.declarations →
    ∀ c, c.decl.id = d.id → P (.class c) → c.decl.Yields P c.library ∧ c.decl.Yields P l.uri

/-! ## What lookups find -/

theorem Workspace.Typed.holds {w : Workspace} (hw : w.Typed) : w.Holds (Element.TypedIn w.types) :=
  ⟨hw.scope, hw.members⟩

theorem Workspace.Holds.sound {P : Element → Prop} {w : Workspace} {t : TypeTable}
    (hP : w.Holds P) (hw : w.Typed) (ht : w.types.Grows t) : w.Holds (Element.SoundIn P t) :=
  (hw.holds.and hP).imp fun _ h => ⟨h.1.mono ht, h.2⟩

namespace BodyContext

structure SoundIn (P : Element → Prop) (t : TypeTable) (ctx : BodyContext) : Prop where
  workspace : ctx.workspace.Typed
  holds : ctx.workspace.Holds P
  grows : ctx.workspace.types.Grows t
  owner : ∀ c ∈ ctx.owner, t.HasClass c.type

section
variable {P : Element → Prop} {t : TypeTable} {ctx : BodyContext}

theorem SoundIn.mono {t' : TypeTable} (hgrows : t.Grows t') (hctx : ctx.SoundIn P t) :
    ctx.SoundIn P t' :=
  ⟨hctx.workspace, hctx.holds, hctx.grows.trans hgrows, fun c hc => (hctx.owner c hc).mono hgrows⟩

theorem SoundIn.sound (hctx : ctx.SoundIn P t) : ctx.workspace.Holds (Element.SoundIn P t) :=
  hctx.holds.sound hctx.workspace hctx.grows

end

end BodyContext

/-! ## Declarations of one kind -/

theorem mem_of_mem_filterMap {α β : Type} {pick : α → Option β} {make : β → α}
    (hpick : ∀ a b, pick a = some b → a = make b) {l : List α} {b : β} (hb : b ∈ l.filterMap pick) :
    make b ∈ l := by
  obtain ⟨a, ha, hab⟩ := List.mem_filterMap.mp hb
  exact hpick a b hab ▸ ha

theorem mem_members_of_toVar? {ms : List Member} {d : VarDecl} :
    d ∈ ms.filterMap Member.toVar? → Member.variable d ∈ ms :=
  mem_of_mem_filterMap (by rintro (_ | _) _ ⟨⟩; rfl)

theorem mem_members_of_toFunction? {ms : List Member} :
    d ∈ ms.filterMap Member.toFunction? → Member.function d ∈ ms :=
  mem_of_mem_filterMap (by rintro (_ | _) _ ⟨⟩; rfl)

theorem mem_of_mem_toVar? {d : VarDecl} :
    d ∈ ds.filterMap Declaration.toVar? → Declaration.variable d ∈ ds :=
  mem_of_mem_filterMap (by rintro (_ | _ | _) _ ⟨⟩; rfl)

theorem mem_of_mem_toClass? {d : ClassDecl} :
    d ∈ ds.filterMap Declaration.toClass? → Declaration.class d ∈ ds :=
  mem_of_mem_filterMap (by rintro (_ | _ | _) _ ⟨⟩; rfl)

theorem mem_of_mem_toFunction? :
    d ∈ ds.filterMap Declaration.toFunction? → Declaration.function d ∈ ds :=
  mem_of_mem_filterMap (by rintro (_ | _ | _) _ ⟨⟩; rfl)

/-! ## Signatures -/

open Resolving

section
variable {P : Element → Prop} {w : Workspace} {t : TypeTable}

theorem Workspace.Typed.has_special (hw : w.Typed) (ht : w.types.Grows t) {ty : TypeId}
    (hspecial : TypeTable.initial.Has ty) : t.Has ty :=
  (hspecial.mono hw.special).mono ht

theorem has_initial_dynamic : TypeTable.initial.Has .dynamic := ⟨_, rfl⟩
theorem has_initial_void : TypeTable.initial.Has .void := ⟨_, rfl⟩
theorem has_initial_never : TypeTable.initial.Has .never := ⟨_, rfl⟩
theorem has_initial_unknown : TypeTable.initial.Has .unknown := ⟨_, rfl⟩

theorem keeps_resolveTypeName (hw : w.Typed) (ht : w.types.Grows t) (uri : String)
    (name : TypeName) : Keeps P w t (resolveTypeName w uri name) TypeTable.Has := by
  unfold resolveTypeName
  split
  · exact .pure_has (hw.has_special ht has_initial_dynamic)
  · exact .pure_has (hw.has_special ht has_initial_void)
  · exact .pure_has (hw.has_special ht has_initial_never)
  · split
    next c hclass =>
      obtain ⟨e, he, hto⟩ := Option.bind_eq_some_iff.mp hclass
      have htyped := hw.holds.lookup he
      cases e with
      | «class» c' =>
        obtain rfl := Option.some.inj hto
        exact .pure_has ((TypeTable.HasClass.has htyped).mono ht)
      | _ => simp [Element.toClass?] at hto
    next =>
      refine (keeps_warn _ _ _).bind fun _ t₁ ht₁ _ => ?_
      exact .pure_has (hw.has_special (ht.trans ht₁.grows) has_initial_unknown)

end

mutual

theorem keeps_resolveType {P : Element → Prop} {w : Workspace} (hw : w.Typed) (uri : String) :
    (ref : TypeRef) → {t : TypeTable} → w.types.Grows t →
      Keeps P w t (resolveType w uri ref) TypeTable.Has
  | .named name, _, ht => keeps_resolveTypeName hw ht uri name
  | .function info returns params nullable, _, ht => by
    refine (keeps_resolveType? hw uri returns ht).bind fun r t₁ ht₁ hr => ?_
    refine (keeps_resolveTypes hw uri params (ht.trans ht₁.grows)).bind fun ps t₂ ht₂ hps => ?_
    exact keeps_newFunction hps (hr.mono ht₂.grows)

theorem keeps_resolveType? {P : Element → Prop} {w : Workspace} (hw : w.Typed) (uri : String) :
    (ref : Option TypeRef) → {t : TypeTable} → w.types.Grows t →
      Keeps P w t (resolveType? w uri ref) TypeTable.Has
  | none, _, ht => .pure_has (hw.has_special ht has_initial_dynamic)
  | some ref, _, ht => keeps_resolveType hw uri ref ht

theorem keeps_resolveTypes {P : Element → Prop} {w : Workspace} (hw : w.Typed) (uri : String) :
    (refs : List TypeRef) → {t : TypeTable} → w.types.Grows t →
      Keeps P w t (resolveTypes w uri refs) fun t tys => ∀ ty ∈ tys, t.Has ty
  | [], _, _ => .pure fun _ _ => by simp
  | ref :: refs, _, ht => by
    refine (keeps_resolveType hw uri ref ht).bind fun ty t₁ ht₁ hty => ?_
    refine (keeps_resolveTypes hw uri refs (ht.trans ht₁.grows)).bind fun tys t₂ ht₂ htys => ?_
    refine .pure fun t₃ ht₃ => List.forall_mem_cons.mpr ⟨?_, ?_⟩
    · exact (hty.mono ht₂.grows).mono ht₃.grows
    · exact fun ty' hty' => (htys ty' hty').mono ht₃.grows

end

section

variable {owner : Option ClassElement} {uri : String}
variable {P : Element → Prop} {w : Workspace} {t : TypeTable} (hw : w.Typed) (ht : w.types.Grows t)

theorem typedIn_formalField? (hw : w.Typed) {name : String}
    {v : VariableElement} (hfield : formalField? w owner name = some v) :
    v.origin.TypedIn w.types := by
  unfold formalField? at hfield
  split at hfield
  next v' hgetter =>
    obtain rfl := Option.some.inj hfield
    obtain ⟨c, _, hgetter⟩ := Option.bind_eq_some_iff.mp hgetter
    obtain ⟨i, hi, hentry⟩ := Option.bind_eq_some_iff.mp hgetter
    have hmembers := hw.members i (Workspace.mem_classes_of_classInfo? hi)
    exact (hmembers.getters _ (mem_of_lookup hentry)).2
  next => simp at hfield

include hw ht

theorem keeps_resolveParamType (uri : String) (owner : Option ClassElement) (p : Param) :
    Keeps P w t (resolveParamType w uri owner p) TypeTable.Has := by
  unfold resolveParamType
  split
  · split
    next v hv =>
      refine keeps_reading fun f ht₁ hf => ?_
      exact .pure_has (hf.variableType hw ((typedIn_formalField? hw hv).mono (ht.trans ht₁.grows)))
    next =>
      refine (keeps_warn _ _ _).bind fun _ t₁ ht₁ _ => ?_
      exact .pure_has (hw.has_special (ht.trans ht₁.grows) has_initial_dynamic)
  · exact keeps_resolveType? hw uri p.type ht

omit hw ht in
theorem keeps_declareParam {p : Param} (hp : (Node.param p).Yields P uri)
    (index : Nat) {ty : TypeId} (hty : t.Has ty) :
    Keeps P w t (declareParam uri p index ty) fun t' e =>
      (Element.parameter e).SoundIn P t' := by
  have hsound : (Element.parameter ⟨p, uri, index, ty⟩).SoundIn P t := ⟨hty, hp index ty⟩
  refine (keeps_setDeclared p.id rfl hsound).bind fun _ t₁ ht₁ _ => ?_
  exact .pure fun t₂ ht₂ => (hsound.mono ht₁.grows).mono ht₂.grows

omit ht in
theorem keeps_declareParams (owner : Option ClassElement) (index : Nat) {params : List Param}
    (hparams : ∀ p ∈ params, (Node.param p).Yields P uri) {t : TypeTable} (ht : w.types.Grows t) :
    Keeps P w t (declareParams w uri owner index params) (SoundParams P) := by
  induction params generalizing index t with
  | nil => exact .pure fun _ _ => by simp [SoundParams]
  | cons p params ih =>
    obtain ⟨hp, hparams⟩ := List.forall_mem_cons.mp hparams
    refine (keeps_resolveParamType hw ht uri owner p).bind fun ty t₁ ht₁ hty => ?_
    refine (keeps_declareParam hp index hty).bind fun e t₂ ht₂ he => ?_
    refine (ih (index + 1) hparams ((ht.trans ht₁.grows).trans ht₂.grows)).bind
      fun es t₃ ht₃ hes => ?_
    refine .pure fun t₄ ht₄ => List.forall_mem_cons.mpr ⟨?_, hes.mono ht₄.grows⟩
    exact (he.mono ht₃.grows).mono ht₄.grows

theorem keeps_resolveSignature (howner : ∀ c ∈ owner, t.HasClass c.type)
    (hd : (Node.functionDecl d).AllBelow (Node.Yields P uri)) :
    Keeps P w t (resolveSignature w uri owner d) fun t' s => s.SoundIn P t' := by
  have hyields : ∀ p ∈ d.params, (Node.param p).Yields P uri :=
    fun p hp => (Node.all_param.mp ((Node.allBelow_functionDecl.mp hd).1 p hp)).1
  refine (keeps_declareParams hw owner 0 hyields ht).bind fun params t₁ ht₁ hparams => ?_
  have hrest : ∀ returns t₂, t₁.Extends t₂ → t₂.Has returns →
      Keeps P w t₂ (do
        let type ← newFunction (params.map ParameterElement.type) returns
        setSignature d.id ⟨params, returns, type⟩
        return ⟨params, returns, type⟩) fun t' (s : Signature) => s.SoundIn P t' := by
    intro returns t₂ ht₂ hreturns
    have hparams := hparams.mono ht₂.grows
    refine (keeps_newFunction ?_ hreturns).bind fun ty t₃ ht₃ hty => ?_
    · intro ty hty
      obtain ⟨p, hp, rfl⟩ := List.mem_map.mp hty
      exact (hparams p hp).typed
    have hs : (Signature.mk params returns ty).SoundIn P t₃ :=
      ⟨hparams.mono ht₃.grows, hreturns.mono ht₃.grows, hty⟩
    refine (keeps_setSignature d.id hs).bind fun _ t₄ ht₄ _ => ?_
    exact .pure fun t₅ ht₅ => (hs.mono ht₄.grows).mono ht₅.grows
  split
  next c _ => exact (Keeps.pure_has ((howner c rfl).mono ht₁.grows).has).bind hrest
  next =>
    exact (Keeps.pure_has (hw.has_special (ht.trans ht₁.grows) has_initial_void)).bind hrest
  next => exact (keeps_resolveType? hw uri d.returns (ht.trans ht₁.grows)).bind hrest

omit hw ht in
theorem keeps_isDeclared (node : NodeId) : KeepsAll P w t (isDeclared node) :=
  keeps_reading fun _ _ _ => .done

theorem keeps_resolveVariableType (uri : String) (d : VarDecl) :
    KeepsAll P w t (resolveVariableType w uri d) := by
  refine (keeps_isDeclared d.id).bind fun declared t₁ ht₁ _ => ?_
  split
  · refine (keeps_resolveType? hw uri d.type (ht.trans ht₁.grows)).bind fun ty t₂ _ hty => ?_
    exact keeps_setVariableType d.id hty
  · exact .done

theorem keeps_resolveFunctionSignature (howner : ∀ c ∈ owner, t.HasClass c.type)
    (hd : (Node.functionDecl d).AllBelow (Node.Yields P uri)) :
    KeepsAll P w t (resolveFunctionSignature w uri owner d) := by
  refine (keeps_isDeclared d.id).bind fun declared t₁ ht₁ _ => ?_
  split
  · refine (keeps_resolveSignature hw (ht.trans ht₁.grows)
      (fun c hc => (howner c hc).mono ht₁.grows) hd).bind fun _ _ _ _ => ?_
    exact .done
  · exact .done

theorem keeps_resolveClassSignatures {c : ClassElement} (hc : t.HasClass c.type)
    (hyields : c.decl.Yields P c.library) : KeepsAll P w t (resolveClassSignatures w c) := by
  refine (keeps_forM fun d _ t' ht' =>
    keeps_resolveVariableType hw (ht.trans ht'.grows) c.library d).bind fun _ t₁ ht₁ _ => ?_
  refine (keeps_forM fun d hd t' ht' => keeps_resolveFunctionSignature hw
    ((ht.trans ht₁.grows).trans ht'.grows) (fun c' hc' => ?_)
    (hyields.members _ (mem_members_of_toFunction? hd))).bind fun _ t₂ ht₂ _ => ?_
  · obtain rfl := Option.some.inj hc'
    exact (hc.mono ht₁.grows).mono ht'.grows
  have hc₂ := ((hc.mono ht₁.grows).mono ht₂.grows).has
  split
  next d _ =>
    refine (keeps_newFunction (by simp) hc₂).bind fun ty t₃ ht₃ hty => ?_
    exact keeps_setSignature d.id ⟨by simp [SoundParams], hc₂.mono ht₃.grows, hty⟩
  next => exact .done

omit hw ht in
theorem Facts.Sound.declaredClass {f : Facts} (hf : f.Sound P w) {node : NodeId}
    {c : ClassElement} (hclass : (f.declared[node]?).bind Element.toClass? = some c) :
    c.decl.id = node ∧ (Element.class c).SoundIn P f.types := by
  obtain ⟨e, he, hto⟩ := Option.bind_eq_some_iff.mp hclass
  cases e with
  | «class» c' => exact Option.some.inj hto ▸ hf.declared _ _ he
  | _ => simp [Element.toClass?] at hto

theorem keeps_resolveDeclarationSignature (hyields : w.Yields P) {l : Library}
    (hl : l ∈ w.libraries) {d : Declaration} (hd : d ∈ l.unit.declarations) :
    KeepsAll P w t (resolveDeclarationSignature w l.uri d) := by
  cases d with
  | «class» d =>
    refine keeps_reading fun f ht₁ hf => ?_
    split
    next c hclass =>
      obtain ⟨hid, hsound⟩ := hf.declaredClass hclass
      exact keeps_resolveClassSignatures hw (ht.trans ht₁.grows) hsound.typed
        (hyields.classes l hl d hd c hid hsound.holds).1
    next => exact .done
  | function d =>
    exact keeps_resolveFunctionSignature hw ht (by simp) (hyields.topFunctions l hl d hd)
  | «variable» d => exact keeps_resolveVariableType hw ht l.uri d

theorem keeps_resolveSignatures (hyields : w.Yields P) : KeepsAll P w t (resolveSignatures w) :=
  keeps_forM fun _ hl _ ht' => keeps_forM fun _ hd _ ht'' =>
    keeps_resolveDeclarationSignature hw ((ht.trans ht'.grows).trans ht''.grows) hyields hl hd

end

end CheckedThrows
