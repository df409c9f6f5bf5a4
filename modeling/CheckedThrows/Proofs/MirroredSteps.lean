import CheckedThrows.Proofs.GrowingFacts
import CheckedThrows.Proofs.MirroredLookups
import CheckedThrows.Proofs.Visits

/-!
# The same steps beside a hidden library

Two runs of the resolution that take the same steps keep the same facts under
other numbers.  Function types enter the tables at different times in the two
runs, so the renaming is chosen by the tables that the runs end with, and a step
is followed as long as it does not lead outside of these.
-/

namespace CheckedThrows

/-- A renaming between two runs that end with the tables `last` and `last'`,
where the second run also has a library named `hidden`. -/
structure Mirror extends Renaming where
  hidden : String
  last : TypeTable
  last' : TypeTable
  dynamic : type .dynamic = .dynamic
  void : type .void = .void
  never : type .never = .never
  unknown : type .unknown = .unknown
  function : ∀ {ty ty' params returns}, last.def? ty = some (.function params returns) →
    last'.def? ty' = some (.function (params.map type) (returns.map type)) → type ty = ty'

instance : Coe Mirror Renaming := ⟨Mirror.toRenaming⟩

theorem TypeTable.def?_of_intern {t : TypeTable} {d d' : TypeDef} {ty : TypeId}
    (hdef : (t.intern d).2.def? ty = some d') :
    t.def? ty = some d' ∨ ty = (t.intern d).1 ∧ d' = d := by
  unfold intern at hdef ⊢
  split at hdef
  · exact .inl hdef
  · exact (t.def?_add_iff d d' ty).mp hdef

def NodeMap.Mirrors {α β : Type} (r : Renaming) (change : α → β) (table : NodeMap α)
    (table' : NodeMap β) : Prop :=
  ∀ n : NodeId, table'[r.node n]? = (table[n]?).map change

theorem NodeMap.Mirrors.insert {α β : Type} {r : Renaming} {change : α → β} {table : NodeMap α}
    {table' : NodeMap β} (htable : NodeMap.Mirrors r change table table') (node : NodeId) (a : α) :
    NodeMap.Mirrors r change (Std.TreeMap.insert table node a)
      (Std.TreeMap.insert table' (r.node node) (change a)) := by
  intro n
  rw [Std.TreeMap.getElem?_insert, Std.TreeMap.getElem?_insert]
  by_cases heq : node = n
  · simp [heq]
  · have hne : r.node node ≠ r.node n := r.node_injective.ne heq
    simp [heq, hne, htable n]

/-- Facts `f'` are those of `f` under other numbers, besides what is known of
further nodes and reported about the hidden library. -/
structure Facts.Mirrors (m : Mirror) (f f' : Facts) : Prop where
  declared : NodeMap.Mirrors m (Element.rename m) f.declared f'.declared
  elsewhere : NodeMap.All (fun _ e => e.library ≠ m.hidden) f.declared
  signatures : NodeMap.Mirrors m (Signature.rename m) f.signatures f'.signatures
  variableTypes : NodeMap.Mirrors m m.type f.variableTypes f'.variableTypes
  staticTypes : NodeMap.Mirrors m m.type f.staticTypes f'.staticTypes
  meanings : NodeMap.Mirrors m (Element.rename m) f.meanings f'.meanings
  reads : NodeMap.Mirrors m (Element.rename m) f.reads f'.reads
  writes : NodeMap.Mirrors m (Element.rename m) f.writes f'.writes
  operators : NodeMap.Mirrors m (ExecutableElement.rename m) f.operators f'.operators
  arguments : NodeMap.Mirrors m (ParameterElement.rename m) f.arguments f'.arguments
  catchTypes : NodeMap.Mirrors m m.type f.catchTypes f'.catchTypes
  warnings : Interleaves (Diagnostic.isElsewhere m.hidden) (Diagnostic.rename m) f.warnings
    f'.warnings
  defs : ∀ ty d, f.types.def? ty = some d → f'.types.def? (m.type ty) = some (d.rename m)
  object : f'.types.object = f.types.object.map m.type
  core : ∀ name, f'.types.coreType name = (f.types.coreType name).map m.type

/-! ## Reading facts -/

namespace Facts.Mirrors

variable {m : Mirror} {f f' : Facts} (hf : f.Mirrors m f')
include hf

theorem signature? (e : ExecutableElement) :
    f'.signature? (e.rename m) = (f.signature? e).map (Signature.rename m) := by
  unfold Facts.signature?
  rw [ExecutableElement.id_rename]
  exact hf.signatures e.id.node

theorem coreType (name : String) : f'.coreType name = m.type (f.coreType name) := by
  unfold Facts.coreType
  rw [hf.core]
  cases f.types.coreType name with
  | none => exact m.dynamic.symm
  | some ty => rfl

theorem objectType : f'.objectType = m.type f.objectType := by
  unfold Facts.objectType
  rw [hf.object]
  cases f.types.object with
  | none => exact m.dynamic.symm
  | some ty => rfl

theorem paramsOf (e : ExecutableElement) :
    f'.paramsOf (e.rename m) = (f.paramsOf e).map (ParameterElement.rename m) := by
  unfold Facts.paramsOf
  rw [hf.signature?]
  cases f.signature? e <;> rfl

theorem returnType (e : ExecutableElement) :
    f'.returnType (e.rename m) = m.type (f.returnType e) := by
  unfold Facts.returnType
  rw [hf.signature?]
  cases f.signature? e with
  | none => exact m.dynamic.symm
  | some s => rfl

theorem functionType (e : ExecutableElement) :
    f'.functionType (e.rename m) = m.type (f.functionType e) := by
  unfold Facts.functionType
  rw [hf.signature?]
  cases f.signature? e with
  | none => exact m.dynamic.symm
  | some s => rfl

theorem variableType (v : VariableElement) :
    f'.variableType (v.rename m) = m.type (f.variableType v) := by
  obtain ⟨origin, library, owner⟩ := v
  cases origin with
  | declared d =>
    have htype := hf.variableTypes d.id
    simp only [VariableElement.rename, VariableOrigin.rename, Facts.variableType, d.id_relabel,
      htype]
    cases f.variableTypes[d.id]? with
    | none => exact m.dynamic.symm
    | some ty => rfl
  | exception c name type => rfl
  | stackTrace c name type => rfl

theorem typeOf (e : Element) : f'.typeOf (e.rename m) = m.type (f.typeOf e) := by
  cases e with
  | «class» c => exact hf.coreType "Type"
  | executable e =>
    simp only [Element.rename, Facts.typeOf, ExecutableElement.kind_rename]
    split
    · exact hf.returnType e
    · exact hf.functionType e
  | «variable» v => exact hf.variableType v
  | parameter p => rfl

theorem writtenType (e : Element) : f'.writtenType (e.rename m) = m.type (f.writtenType e) := by
  cases e with
  | executable e =>
    simp only [Element.rename, Facts.writtenType, hf.paramsOf, List.getLast?_map]
    cases (f.paramsOf e).getLast? with
    | none => exact m.dynamic.symm
    | some p => rfl
  | «class» c => exact hf.typeOf (.class c)
  | «variable» v => exact hf.typeOf (.variable v)
  | parameter p => exact hf.typeOf (.parameter p)

theorem declaredClass? (n : NodeId) :
    (f'.declared[m.node n]?).bind Element.toClass? =
      ((f.declared[n]?).bind Element.toClass?).map (ClassElement.rename m) := by
  rw [hf.declared n]
  cases f.declared[n]? with
  | none => rfl
  | some e => exact e.toClass?_rename m

theorem declaredExecutable? (n : NodeId) :
    (f'.declared[m.node n]?).bind Element.toExecutable? =
      ((f.declared[n]?).bind Element.toExecutable?).map (ExecutableElement.rename m) := by
  rw [hf.declared n]
  cases f.declared[n]? with
  | none => rfl
  | some e => exact e.toExecutable?_rename m

theorem library_of_declaredClass? {n : NodeId} {c : ClassElement}
    (hc : (f.declared[n]?).bind Element.toClass? = some c) : c.library ≠ m.hidden := by
  obtain ⟨e, he, hclass⟩ := Option.bind_eq_some_iff.mp hc
  have hlibrary := hf.elsewhere n e he
  cases e with
  | «class» c' =>
    obtain rfl := Option.some.inj hclass
    exact hlibrary
  | _ => cases hclass

end Facts.Mirrors

/-! ## Steps -/

namespace Resolving

/-- From the same facts under other numbers, steps lead to such facts again and
give values that `change` turns into each other, unless the first one has a fault
or one of them leaves its last table. -/
def Mirrors {α β : Type} (m : Mirror) (change : α → β) (step : Resolving α)
    (step' : Resolving β) : Prop :=
  ∀ f f' : Facts, f.Mirrors m f' → (step.run f).2.faults = [] →
    (step.run f).2.types.Grows m.last → (step'.run f').2.types.Grows m.last' →
    (step.run f).2.Mirrors m (step'.run f').2 ∧ (step'.run f').1 = change (step.run f).1

section
variable {α β γ δ : Type} {m : Mirror} {change : α → β} {change' : γ → δ} {step : Resolving α}
  {step' : Resolving β} {next : α → Resolving γ} {next' : β → Resolving δ}

theorem Mirrors.pure {a : α} {b : β} (hvalue : b = change a) :
    Mirrors m change (Pure.pure a) (Pure.pure b) :=
  fun _ _ hf _ _ _ => ⟨hf, hvalue⟩

theorem Mirrors.andThen (hadds : ∀ a, Adds (next a)) (hadds' : ∀ b, Adds (next' b))
    (hstep : Mirrors m change step step')
    (hnext : ∀ a, Mirrors m change' (next a) (next' (change a))) :
    Mirrors m change' (step >>= next) (step' >>= next') := by
  intro f f' hf hfaults hlast hlast'
  have hgrows := ((hadds (step.run f).1).table (step.run f).2).grows
  have hgrows' := ((hadds' (step'.run f').1).table (step'.run f').2).grows
  obtain ⟨hf₁, hvalue⟩ := hstep f f' hf ((hadds _).faults _ hfaults) (hgrows.trans hlast)
    (hgrows'.trans hlast')
  have hrun : (step' >>= next').run f' = (next' (change (step.run f).1)).run (step'.run f').2 := by
    rw [← hvalue]
    rfl
  rw [hrun] at hlast' ⊢
  exact hnext (step.run f).1 _ _ hf₁ hfaults hlast hlast'

theorem Mirrors.bind [hadds : ∀ a, Adds (next a)] [hadds' : ∀ b, Adds (next' b)]
    (hstep : Mirrors m change step step')
    (hnext : ∀ a, Mirrors m change' (next a) (next' (change a))) :
    Mirrors m change' (step >>= next) (step' >>= next') :=
  .andThen hadds hadds' hstep hnext

theorem Mirrors.reading {next : Facts → Resolving α} {next' : Facts → Resolving β}
    (hnext : ∀ f f', f.Mirrors m f' → Mirrors m change (next f) (next' f')) :
    Mirrors m change (get >>= next) (get >>= next') :=
  fun f f' hf => hnext f f' hf f f' hf

theorem Mirrors.forM {act : α → Resolving Unit} {act' : β → Resolving Unit} [∀ a, Adds (act a)]
    [∀ b, Adds (act' b)] {l : List α} (hact : ∀ a ∈ l, Mirrors m id (act a) (act' (change a))) :
    Mirrors m id (l.forM act) ((l.map change).forM act') := by
  induction l with
  | nil => exact .pure rfl
  | cons a l ih =>
    exact .bind (hact a List.mem_cons_self) fun _ =>
      ih fun b hb => hact b (List.mem_cons_of_mem a hb)

end

/-! ## Single entries -/

section
variable {m : Mirror}
variable (node : NodeId) (type : TypeId) (e : Element)

theorem mirrors_setDeclared (he : e.library ≠ m.hidden) :
    Mirrors m id (setDeclared node e) (setDeclared (m.node node) (e.rename m)) :=
  fun _ _ hf _ _ _ => ⟨{ hf with
    declared := hf.declared.insert node e
    elsewhere := hf.elsewhere.insert he }, rfl⟩

theorem mirrors_setSignature (s : Signature) :
    Mirrors m id (setSignature node s) (setSignature (m.node node) (s.rename m)) :=
  fun _ _ hf _ _ _ => ⟨{ hf with signatures := hf.signatures.insert node s }, rfl⟩

theorem mirrors_setVariableType :
    Mirrors m id (setVariableType node type) (setVariableType (m.node node) (m.type type)) :=
  fun _ _ hf _ _ _ => ⟨{ hf with variableTypes := hf.variableTypes.insert node type }, rfl⟩

theorem mirrors_setType : Mirrors m id (setType node type) (setType (m.node node) (m.type type)) :=
  fun _ _ hf _ _ _ => ⟨{ hf with staticTypes := hf.staticTypes.insert node type }, rfl⟩

theorem mirrors_setMeaning :
    Mirrors m id (setMeaning node e) (setMeaning (m.node node) (e.rename m)) :=
  fun _ _ hf _ _ _ => ⟨{ hf with meanings := hf.meanings.insert node e }, rfl⟩

theorem mirrors_setRead : Mirrors m id (setRead node e) (setRead (m.node node) (e.rename m)) :=
  fun _ _ hf _ _ _ => ⟨{ hf with reads := hf.reads.insert node e }, rfl⟩

theorem mirrors_setWrite : Mirrors m id (setWrite node e) (setWrite (m.node node) (e.rename m)) :=
  fun _ _ hf _ _ _ => ⟨{ hf with writes := hf.writes.insert node e }, rfl⟩

theorem mirrors_setOperator (e : ExecutableElement) :
    Mirrors m id (setOperator node e) (setOperator (m.node node) (e.rename m)) :=
  fun _ _ hf _ _ _ => ⟨{ hf with operators := hf.operators.insert node e }, rfl⟩

theorem mirrors_setArgument (p : ParameterElement) :
    Mirrors m id (setArgument node p) (setArgument (m.node node) (p.rename m)) :=
  fun _ _ hf _ _ _ => ⟨{ hf with arguments := hf.arguments.insert node p }, rfl⟩

theorem mirrors_setCatchType :
    Mirrors m id (setCatchType node type) (setCatchType (m.node node) (m.type type)) :=
  fun _ _ hf _ _ _ => ⟨{ hf with catchTypes := hf.catchTypes.insert node type }, rfl⟩

theorem mirrors_notice (n n' : Notice) : Mirrors m id (notice n) (notice n') :=
  fun _ _ hf _ _ _ => ⟨{ hf with }, rfl⟩

theorem mirrors_warn {code : String} {uri : String} (huri : uri ≠ m.hidden) (place : Extent)
    (message : Text) :
    Mirrors m id (warn code (.ofExtent uri place) message)
      (warn code (.ofExtent uri (m.extent place)) message) := by
  intro f f' hf _ _ _
  have hnew : Interleaves (Diagnostic.isElsewhere m.hidden) (Diagnostic.rename m)
      [warning code (.ofExtent uri place) message]
      [warning code (.ofExtent uri (m.extent place)) message] := by
    rw [← m.span_ofExtent]
    apply Interleaves.same
    intro d hd
    obtain rfl := List.mem_singleton.mp hd
    exact fun heq => huri (Option.some.inj heq)
  exact ⟨{ hf with warnings := hf.warnings.append hnew }, rfl⟩

theorem mirrors_newFunction (params : List TypeId) (returns : TypeId) :
    Mirrors m m.type (newFunction params returns)
      (newFunction (params.map m.type) (m.type returns)) := by
  intro f f' hf _ hlast hlast'
  have hnew : f.types.Extends ((newFunction params returns).run f).2.types :=
    f.types.extends_intern _
  have hnew' : f'.types.Extends ((newFunction (params.map m.type) (m.type returns)).run f').2.types :=
    f'.types.extends_intern _
  have htype := m.function (hlast _ _ (f.types.def?_intern (.function params (some returns))))
    (hlast' _ _ (f'.types.def?_intern (.function (params.map m.type) (some (m.type returns)))))
  refine ⟨{ hf with defs := ?_, object := ?_, core := ?_ }, htype.symm⟩
  · intro ty d hd
    rcases TypeTable.def?_of_intern hd with hold | ⟨rfl, rfl⟩
    · exact hnew'.grows _ _ (hf.defs ty d hold)
    · rw [htype]
      exact f'.types.def?_intern _
  · rw [hnew.object, hnew'.object]
    exact hf.object
  · intro name
    rw [TypeTable.coreType, TypeTable.coreType, hnew.core, hnew'.core]
    exact hf.core name

theorem mirrors_callResult : Mirrors m m.type (callResult type) (callResult (m.type type)) := by
  apply Mirrors.reading
  intro f f' hf
  rw [TypeTable.get, TypeTable.get]
  cases hdef : f.types.def? type with
  | none =>
    intro f f' hf hfaults
    have hnone : f.faults ++ [⟨type⟩] = [] := hfaults
    simp at hnone
  | some d =>
    rw [hf.defs type d hdef]
    cases d with
    | function params returns =>
      cases returns with
      | none => exact .pure m.dynamic.symm
      | some returns => exact .pure rfl
    | _ => exact .pure m.dynamic.symm

theorem mirrors_typed {find find' : Resolving TypeId} (hfind : Mirrors m m.type find find') :
    Mirrors m m.type (typed node find) (typed (m.node node) find') :=
  .bind hfind fun type => .bind (mirrors_setType node type) fun _ => .pure rfl

end

end Resolving

end CheckedThrows
