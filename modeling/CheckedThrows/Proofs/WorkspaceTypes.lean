import CheckedThrows.Proofs.Subtyping
import CheckedThrows.Workspace.Basic
import Mathlib.Data.List.Nodup

/-!
# The types of a workspace

Declaring the units of a workspace gives every class a number of its own, and
nothing that comes later takes it away.  So every class that can be found in a
workspace is a class of its table, which has no function types yet; and if the
core class `Object` names no supertypes, nothing is above it.
-/

namespace CheckedThrows

open List

variable {α : Type} {P : Element → Prop} {w : Workspace} {t : TypeTable} {cs : List ClassElement}
  {l : Library} {e : Element}

theorem mem_of_lookup {β : Type} [BEq α] [LawfulBEq α] {l : List (α × β)} {a : α} {b : β}
    (hlookup : l.lookup a = some b) : (a, b) ∈ l := by
  obtain ⟨l₁, l₂, rfl, _⟩ := lookup_eq_some_iff.mp hlookup
  simp

theorem forall_mem_append_singleton {P : α → Prop} {l : List α} {a : α} (hold : ∀ x ∈ l, P x)
    (hnew : P a) : ∀ x ∈ l ++ [a], P x :=
  forall_mem_append.mpr ⟨hold, forall_mem_singleton.mpr hnew⟩

namespace TypeTable

variable (t : TypeTable) (d : TypeDef)

/-- Every type of `t` is the same type in `t'`. -/
def Grows (t t' : TypeTable) : Prop :=
  ∀ ty d, t.def? ty = some d → t'.def? ty = some d

theorem Grows.refl : t.Grows t := fun _ _ hdef => hdef

theorem Grows.trans {t₁ t₂ t₃ : TypeTable} (h₁₂ : t₁.Grows t₂) (h₂₃ : t₂.Grows t₃) : t₁.Grows t₃ :=
  fun ty d hdef => h₂₃ ty d (h₁₂ ty d hdef)

theorem Has.mono {t t' : TypeTable} {ty : TypeId} (hgrows : t.Grows t') (hhas : t.Has ty) :
    t'.Has ty := by
  obtain ⟨d, hdef⟩ := hhas
  exact ⟨d, hgrows ty d hdef⟩

theorem HasClass.mono {t t' : TypeTable} {ty : TypeId} (hgrows : t.Grows t')
    (hclass : t.HasClass ty) : t'.HasClass ty := by
  obtain ⟨name, library, hdef⟩ := hclass
  exact ⟨name, library, hgrows ty _ hdef⟩

theorem def?_add_iff (e : TypeDef) (ty : Int) :
    (t.add d).2.def? ty = some e ↔ t.def? ty = some e ∨ (ty = t.defs.size + 1 ∧ e = d) := by
  unfold add def?
  by_cases hpos : 0 < ty
  · rw [if_pos hpos, if_pos hpos, Array.getElem?_push]
    by_cases hlast : ty = t.defs.size + 1
    · subst hlast
      simp [eq_comm]
    · rw [if_neg (by omega)]
      simp [hlast]
  · have hlast : ty ≠ t.defs.size + 1 := by omega
    simp [hpos, hlast]

theorem def?_add : (t.add d).2.def? (t.add d).1 = some d :=
  (def?_add_iff t d d _).mpr (.inr ⟨rfl, rfl⟩)

theorem grows_add : t.Grows (t.add d).2 :=
  fun ty e hdef => (def?_add_iff t d e ty).mpr (.inl hdef)

theorem ne_add_of_has {t : TypeTable} {ty : Int} (hhas : t.Has ty) (d : TypeDef) :
    ty ≠ (t.add d).1 := by
  have hle := hhas.le_size
  have hnew : (t.add d).1 = (t.defs.size + 1 : Int) := rfl
  rw [hnew]
  omega

end TypeTable

/-! ## Classes as they are declared -/

structure Registered (t : TypeTable) (cs : List ClassElement) : Prop where
  hasClass : ∀ c ∈ cs, t.HasClass c.type
  distinct : (cs.map ClassElement.type).Nodup

theorem Registered.nil (t : TypeTable) : Registered t [] :=
  ⟨by simp, nodup_nil⟩

theorem Registered.newClass (hreg : Registered t cs) (d : ClassDecl) (uri name : String)
    (library : Option String) :
    Registered (t.newClass name library).2 (cs ++ [⟨d, uri, (t.newClass name library).1⟩]) := by
  constructor
  · apply forall_mem_append_singleton
    · exact fun c hc => (hreg.hasClass c hc).mono (t.grows_add _)
    · exact ⟨name, library, t.def?_add _⟩
  · rw [map_append, nodup_append]
    refine ⟨hreg.distinct, nodup_singleton _, ?_⟩
    intro ty hty ty' hty'
    obtain ⟨c, hc, rfl⟩ := mem_map.mp hty
    obtain rfl := mem_singleton.mp hty'
    exact TypeTable.ne_add_of_has (hreg.hasClass c hc).has (.class name library)

theorem Registered.eq_of_type_eq (hreg : Registered t cs) {c c' : ClassElement} (hc : c ∈ cs)
    (hc' : c' ∈ cs) (htype : c.type = c'.type) : c = c' :=
  inj_on_of_nodup_map hreg.distinct hc hc' htype

structure TypeTable.Unlinked (t : TypeTable) : Prop where
  special : TypeTable.initial.Grows t
  no_functions : ∀ ty params returns, t.def? ty ≠ some (.function params returns)
  edges : t.edges = []
  object : t.object = none
  core : t.core = []

theorem TypeTable.Unlinked.newClass (hunlinked : t.Unlinked) (name : String)
    (library : Option String) : (t.newClass name library).2.Unlinked := by
  refine ⟨hunlinked.special.trans (t.grows_add _), ?_, hunlinked.edges, hunlinked.object,
    hunlinked.core⟩
  intro ty params returns hdef
  rcases (t.def?_add_iff _ _ ty).mp hdef with hold | ⟨_, hnew⟩
  · exact hunlinked.no_functions ty params returns hold
  · simp at hnew

theorem TypeTable.unlinked_initial : TypeTable.initial.Unlinked := by
  refine ⟨.refl _, ?_, rfl, rfl, rfl⟩
  intro ty params returns hdef
  unfold TypeTable.def? at hdef
  split at hdef
  · have hmem := Array.mem_of_getElem? hdef
    simp [TypeTable.initial] at hmem
  · simp at hdef

namespace Element

/-- What the top level of the library of a unit, which declares these classes,
can mean. -/
def IsTopLevel (u : CompilationUnit) (cs : List ClassElement) : Element → Prop
  | .class c => c ∈ cs
  | .executable e => ∃ d, Declaration.function d ∈ u.declarations ∧ e = ⟨.declared d, u.uri, none⟩
  | .variable v => ∃ d, Declaration.variable d ∈ u.declarations ∧ v = ⟨.declared d, u.uri, none⟩
  | .parameter _ => False

theorem IsTopLevel.mono {u : CompilationUnit} {cs' : List ClassElement} (hsub : cs ⊆ cs')
    (htop : e.IsTopLevel u cs) : e.IsTopLevel u cs' := by
  cases e with
  | «class» c => exact hsub htop
  | executable e => exact htop
  | «variable» v => exact htop
  | parameter p => exact htop

end Element

namespace Library

/-- A library with one more declaration, whose element is `e`. -/
def enter (l : Library) (e : Element) (d : Declaration) : Library :=
  { l with
    scope := if (l.scope.lookup (key d)).isSome then l.scope else l.scope ++ [(key d, e)]
    classes := l.classes ++ e.toClass?.toList }

theorem declareAll_cons (l : Library) (t : TypeTable) (d : Declaration) (ds : List Declaration) :
    let step := elementOf l.uri t d
    let rest := (l.enter step.1 d).declareAll step.2 ds
    l.declareAll t (d :: ds) = (rest.1, rest.2.1,
      if (l.scope.lookup (key d)).isSome then
        alreadyDefined rest.1.uri d.name d.info.extent :: rest.2.2
      else rest.2.2) := by
  by_cases htaken : (l.scope.lookup (key d)).isSome <;> simp [declareAll, enter, htaken]

/-- What holds at the start and is kept by each declaration holds at the end. -/
theorem declareAll_induction {motive : Library → TypeTable → Prop} {ds : List Declaration}
    (hstep : ∀ l t, motive l t → ∀ d ∈ ds,
      motive (l.enter (elementOf l.uri t d).1 d) (elementOf l.uri t d).2)
    (hstart : motive l t) : motive (l.declareAll t ds).1 (l.declareAll t ds).2.1 := by
  induction ds generalizing l t with
  | nil => exact hstart
  | cons d ds ih =>
    rw [declareAll_cons]
    exact ih (fun l t hlt d' hd' => hstep l t hlt d' (mem_cons_of_mem d hd'))
      (hstep l t hstart d mem_cons_self)

theorem unit_declareAll (l : Library) (t : TypeTable) (ds : List Declaration) :
    (l.declareAll t ds).1.unit = l.unit :=
  declareAll_induction (motive := fun l' _ => l'.unit = l.unit) (fun _ _ hunit _ _ => hunit) rfl

structure ScopeDeclared (l : Library) : Prop where
  scope : ∀ entry ∈ l.scope, entry.2.IsTopLevel l.unit l.classes
  classes : ∀ c ∈ l.classes, Declaration.class c.decl ∈ l.unit.declarations ∧ c.library = l.uri

/-- A library and a table while declarations are added, where the classes
`before` were declared by other libraries. -/
structure Declaring (before : List ClassElement) (l : Library) (t : TypeTable) : Prop where
  registered : Registered t (before ++ l.classes)
  declared : l.ScopeDeclared
  unlinked : t.Unlinked

theorem Declaring.elementOf {before : List ClassElement} (hdecl : Declaring before l t)
    {d : Declaration} (hd : d ∈ l.unit.declarations) :
    let step := Library.elementOf l.uri t d
    let classes := l.classes ++ step.1.toClass?.toList
    Registered step.2 (before ++ classes) ∧ step.1.IsTopLevel l.unit classes ∧
      (∀ c ∈ classes, Declaration.class c.decl ∈ l.unit.declarations ∧ c.library = l.uri) ∧
      step.2.Unlinked := by
  cases d with
  | «class» d =>
    refine ⟨?_, ?_, ?_, hdecl.unlinked.newClass d.name l.uri⟩
    · have hreg := hdecl.registered.newClass d l.uri d.name (some l.uri)
      rw [append_assoc] at hreg
      exact hreg
    · exact mem_append_right _ mem_cons_self
    · exact forall_mem_append_singleton hdecl.declared.classes ⟨hd, rfl⟩
  | function d =>
    simp only [Library.elementOf, Element.toClass?, Option.toList_none, append_nil]
    exact ⟨hdecl.registered, ⟨d, hd, rfl⟩, hdecl.declared.classes, hdecl.unlinked⟩
  | «variable» d =>
    simp only [Library.elementOf, Element.toClass?, Option.toList_none, append_nil]
    exact ⟨hdecl.registered, ⟨d, hd, rfl⟩, hdecl.declared.classes, hdecl.unlinked⟩

theorem Declaring.enter {before : List ClassElement} (hdecl : Declaring before l t)
    {d : Declaration} (hd : d ∈ l.unit.declarations) :
    Declaring before (l.enter (Library.elementOf l.uri t d).1 d)
      (Library.elementOf l.uri t d).2 := by
  obtain ⟨hreg, htop, hclasses, hunlinked⟩ := hdecl.elementOf hd
  have hscope : ∀ entry ∈ l.scope, entry.2.IsTopLevel l.unit
      (l.classes ++ (Library.elementOf l.uri t d).1.toClass?.toList) :=
    fun entry hmem => (hdecl.declared.scope entry hmem).mono (subset_append_left _ _)
  refine ⟨hreg, ⟨?_, hclasses⟩, hunlinked⟩
  dsimp only [Library.enter]
  split
  · exact hscope
  · exact forall_mem_append_singleton hscope htop

theorem Declaring.declareAll {before : List ClassElement} (hdecl : Declaring before l t) :
    Declaring before (l.declareAll t l.unit.declarations).1
      (l.declareAll t l.unit.declarations).2.1 :=
  (declareAll_induction (motive := fun l' t' => Declaring before l' t' ∧ l'.unit = l.unit)
    (fun _ _ h _ hd => ⟨h.1.enter (h.2 ▸ hd), h.2⟩) ⟨hdecl, rfl⟩).1

end Library

namespace Workspace

def declaredClasses (w : Workspace) : List ClassElement :=
  w.libraries.flatMap Library.classes

structure IsDeclared (w : Workspace) : Prop where
  registered : Registered w.types w.declaredClasses
  scope : ∀ l ∈ w.libraries, l.ScopeDeclared
  unlinked : w.types.Unlinked

theorem IsDeclared.addUnit (hdecl : w.IsDeclared) (u : CompilationUnit) :
    (w.addUnit u).IsDeclared := by
  unfold Workspace.addUnit
  split
  · exact ⟨hdecl.registered, hdecl.scope, hdecl.unlinked⟩
  · have hempty : Library.Declaring w.declaredClasses { unit := u } w.types :=
      ⟨by simpa using hdecl.registered, ⟨by simp, by simp⟩, hdecl.unlinked⟩
    have hadded := hempty.declareAll
    refine ⟨?_, ?_, hadded.unlinked⟩
    · simpa [declaredClasses, Library.ofUnit] using hadded.registered
    · exact forall_mem_append_singleton hdecl.scope hadded.declared

theorem isDeclared_declare (units : List CompilationUnit) : (declare units).IsDeclared := by
  unfold declare
  have hstart : ({} : Workspace).IsDeclared :=
    ⟨Registered.nil _, by simp, TypeTable.unlinked_initial⟩
  generalize ({} : Workspace) = w at hstart
  induction units generalizing w with
  | nil => exact hstart
  | cons u units ih => exact ih _ (hstart.addUnit u)

theorem forall_mem_foldl_addUnit {P : Library → Prop} {units : List CompilationUnit}
    (hw : ∀ l ∈ w.libraries, P l) (hnew : ∀ t, ∀ u ∈ units, P (Library.ofUnit t u).1) :
    ∀ l ∈ (units.foldl addUnit w).libraries, P l := by
  refine List.foldlRecOn (motive := fun w : Workspace => ∀ l ∈ w.libraries, P l) units _ hw
    fun w hw u hu => ?_
  unfold addUnit
  split
  · exact hw
  · exact forall_mem_append_singleton hw (hnew w.types u hu)

theorem forall_mem_declare {P : Library → Prop} {units : List CompilationUnit}
    (hnew : ∀ t, ∀ u ∈ units, P (Library.ofUnit t u).1) : ∀ l ∈ (declare units).libraries, P l :=
  forall_mem_foldl_addUnit (by simp) hnew

theorem mem_or_unit_mem_of_mem_foldl_addUnit {units : List CompilationUnit} :
    ∀ l ∈ (units.foldl addUnit w).libraries, l ∈ w.libraries ∨ l.unit ∈ units := by
  refine forall_mem_foldl_addUnit (fun _ hl => .inl hl) fun t u hu => ?_
  rw [Library.ofUnit, Library.unit_declareAll]
  exact .inr hu

theorem unit_mem_of_mem_declare {units : List CompilationUnit}
    (hl : l ∈ (declare units).libraries) : l.unit ∈ units :=
  (mem_or_unit_mem_of_mem_foldl_addUnit l hl).resolve_left not_mem_nil

end Workspace

/-! ## Linking libraries -/

namespace Library

structure SameDeclarations (l l' : Library) : Prop where
  unit : l'.unit = l.unit
  scope : l'.scope = l.scope
  classes : l'.classes = l.classes

theorem SameDeclarations.trans {l₁ l₂ l₃ : Library} (h₁₂ : l₁.SameDeclarations l₂)
    (h₂₃ : l₂.SameDeclarations l₃) : l₁.SameDeclarations l₃ :=
  ⟨h₂₃.unit.trans h₁₂.unit, h₂₃.scope.trans h₁₂.scope, h₂₃.classes.trans h₁₂.classes⟩

theorem linkDirective_declarations (known : List String) (l : Library) (d : Directive) :
    l.SameDeclarations (l.linkDirective known d).1 := by
  unfold linkDirective
  split
  · split <;> exact ⟨rfl, rfl, rfl⟩
  · exact ⟨rfl, rfl, rfl⟩

theorem link_induction (known : List String) {l : Library}
    {motive : Library × List Diagnostic → Prop} (hstart : motive (l, []))
    (hstep : ∀ linked d, d ∈ l.unit.directives → motive linked →
      motive ((linked.1.linkDirective known d).1, linked.2 ++ (linked.1.linkDirective known d).2)) :
    ∃ linked, motive linked ∧ l.link known = (importCore known linked.1, linked.2) :=
  ⟨_, List.foldlRecOn l.unit.directives _ hstart fun linked hlinked d hd =>
    hstep linked d hd hlinked, rfl⟩

theorem link_declarations (known : List String) (l : Library) :
    l.SameDeclarations (l.link known).1 := by
  obtain ⟨linked, hlinked, hlink⟩ := link_induction known
    (motive := fun linked : Library × List Diagnostic => l.SameDeclarations linked.1)
    ⟨rfl, rfl, rfl⟩ fun linked d _ hlinked =>
      hlinked.trans (linkDirective_declarations known linked.1 d)
  refine hlink ▸ hlinked.trans ?_
  unfold importCore
  split <;> exact ⟨rfl, rfl, rfl⟩

end Library

namespace Workspace

theorem mem_linkDirectives : l ∈ w.linkDirectives.libraries ↔
    ∃ l₀ ∈ w.libraries, (l₀.link (w.libraries.map Library.uri)).1 = l := by
  simp [linkDirectives]

theorem IsDeclared.linkDirectives (hdecl : w.IsDeclared) : w.linkDirectives.IsDeclared := by
  have hclasses : w.linkDirectives.declaredClasses = w.declaredClasses := by
    simp [declaredClasses, Workspace.linkDirectives, flatMap_map,
      (Library.link_declarations _ _).classes]
  refine ⟨?_, ?_, hdecl.unlinked⟩
  · rw [hclasses]
    exact hdecl.registered
  · intro l hl
    obtain ⟨l₀, hl₀, rfl⟩ := mem_linkDirectives.mp hl
    obtain ⟨hunit, hscope, hclasses⟩ :=
      Library.link_declarations (w.libraries.map Library.uri) l₀
    have hdeclared := hdecl.scope l₀ hl₀
    constructor
    · rw [hscope, hunit, hclasses]
      exact hdeclared.scope
    · rw [Library.uri, hunit, hclasses]
      exact hdeclared.classes

end Workspace

/-! ## The core library and class headers -/

namespace TypeTable

variable {t t' : TypeTable} {ty : TypeId}

def SameDefs (t t' : TypeTable) : Prop := t'.defs = t.defs

theorem SameDefs.def? (hsame : t.SameDefs t') (ty : TypeId) : t'.def? ty = t.def? ty := by
  rw [TypeTable.def?, TypeTable.def?, hsame]

theorem SameDefs.grows (hsame : t.SameDefs t') : t.Grows t' := by
  intro ty d hdef
  rw [hsame.def?, hdef]

theorem setSupertypes_same {supers : List TypeId} (hset : t.setSupertypes ty supers = .ok t') :
    t.SameDefs t' ∧ t'.object = t.object ∧ t'.core = t.core := by
  unfold setSupertypes at hset
  split at hset
  · obtain rfl := Except.ok.inj hset
    exact ⟨rfl, rfl, rfl⟩
  · simp at hset

theorem lookup_filter_ne (edges : List (TypeId × α)) {ty' : TypeId} (hne : ty' ≠ ty) :
    (edges.filter fun e => e.1 ≠ ty).lookup ty' = edges.lookup ty' := by
  induction edges with
  | nil => rfl
  | cons e edges ih =>
    rw [filter_cons, lookup_cons]
    by_cases heq : e.1 = ty
    · have hbeq : (ty' == e.1) = false := by simpa [heq] using hne
      rw [if_neg (by simpa using heq), ih, hbeq]
    · rw [if_pos (by simpa using heq), lookup_cons, ih]

theorem supertypes_setSupertypes {supers : List TypeId}
    (hset : t.setSupertypes ty supers = .ok t') (ty' : TypeId) :
    t'.supertypes ty' = if ty' = ty then supers.filter (· ≠ ty) else t.supertypes ty' := by
  unfold setSupertypes at hset
  split at hset
  · obtain rfl := Except.ok.inj hset
    unfold supertypes
    rw [lookup_cons]
    by_cases heq : ty' = ty
    · simp [heq]
    · have hbeq : (ty' == ty) = false := by simpa using heq
      rw [hbeq, if_neg heq, lookup_filter_ne t.edges heq]
  · simp at hset

end TypeTable

namespace Workspace

structure CoreRegistered (w : Workspace) (t : TypeTable) : Prop where
  same : w.types.SameDefs t
  core : ∀ name ty, t.coreType name = some ty → w.types.HasClass ty
  no_function_class : t.coreType "Function" = none
  object : t.object = (w.coreClass? "Object").map ClassElement.type

theorem mem_declaredClasses_of_coreClass? (hdecl : w.IsDeclared) {name : String}
    {c : ClassElement} (hcore : w.coreClass? name = some c) : c ∈ w.declaredClasses := by
  obtain ⟨l, hl, hclass⟩ := Option.bind_eq_some_iff.mp hcore
  obtain ⟨e, he, hto⟩ := Option.bind_eq_some_iff.mp hclass
  have hmem : l ∈ w.libraries := mem_of_find?_eq_some hl
  cases e with
  | «class» c' =>
    obtain rfl := Option.some.inj hto
    have hentry : (name, Element.class c') ∈ l.scope := mem_of_lookup he
    exact mem_flatMap.mpr ⟨l, hmem, (hdecl.scope l hmem).scope _ hentry⟩
  | _ => simp [Element.toClass?] at hto

theorem exists_registered (w : Workspace) {motive : TypeTable → Prop} (hstart : motive w.types)
    (hstep : ∀ t, motive t → ∀ name ∈ wellKnown, ∀ c, w.coreClass? name = some c →
      motive (t.registerCore name c.type)) :
    ∃ t, motive t ∧ w.registerCore.types =
      (w.coreClass? "Object").elim t fun object => t.markObject object.type := by
  have hfold : ∀ register : TypeTable → String → TypeTable,
      (∀ t name, register t name = (w.coreClass? name).elim t fun c => t.registerCore name c.type) →
      motive (wellKnown.foldl register w.types) := by
    intro register hregister
    refine List.foldlRecOn wellKnown register hstart ?_
    intro t ht name hname
    rw [hregister]
    cases hclass : w.coreClass? name with
    | none => exact ht
    | some c => exact hstep t ht name hname c hclass
  unfold Workspace.registerCore
  cases w.coreClass? "Object"
  all_goals
    dsimp only [Option.elim_none, Option.elim_some]
    refine ⟨_, hfold _ ?_, rfl⟩
    intro t name
    cases w.coreClass? name <;> rfl

theorem coreRegistered_registerCore (hdecl : w.IsDeclared) :
    w.CoreRegistered w.registerCore.types := by
  obtain ⟨t, ⟨hsame, hcore, hfunction, hobject⟩, htypes⟩ := w.exists_registered
    (motive := fun t => w.types.SameDefs t ∧
      (∀ name ty, t.coreType name = some ty → w.types.HasClass ty) ∧
      t.coreType "Function" = none ∧ t.object = none)
    ⟨rfl, by simp [TypeTable.coreType, hdecl.unlinked.core],
      by simp [TypeTable.coreType, hdecl.unlinked.core], hdecl.unlinked.object⟩ <| by
    rintro t ⟨hsame, hcore, hfunction, hobject⟩ name hname c hclass
    have hhas := hdecl.registered.hasClass c (mem_declaredClasses_of_coreClass? hdecl hclass)
    refine ⟨hsame, ?_, ?_, hobject⟩
    · intro name' ty hcoreType
      rw [TypeTable.coreType, TypeTable.registerCore, lookup_cons] at hcoreType
      split at hcoreType
      · exact Option.some.inj hcoreType ▸ hhas
      · exact hcore name' ty hcoreType
    · have hne : "Function" ≠ name := fun heq => absurd (heq ▸ hname) (by decide)
      have hbeq : ("Function" == name) = false := by simpa using hne
      rw [TypeTable.coreType, TypeTable.registerCore, lookup_cons, hbeq]
      exact hfunction
  rw [htypes]
  cases hclass : w.coreClass? "Object" with
  | none => exact ⟨hsame, hcore, hfunction, by rw [hclass]; exact hobject⟩
  | some o => exact ⟨hsame, hcore, hfunction, by rw [hclass]; rfl⟩

theorem registerCore_edges (w : Workspace) : w.registerCore.types.edges = w.types.edges := by
  obtain ⟨t, hedges, htypes⟩ := w.exists_registered
    (motive := fun t => t.edges = w.types.edges) rfl fun _ ht _ _ _ _ => ht
  rw [htypes, ← hedges]
  cases w.coreClass? "Object" <;> rfl

theorem registerCore_libraries (w : Workspace) : w.registerCore.libraries = w.libraries := by
  unfold Workspace.registerCore
  split <;> rfl

theorem declaredClasses_registerCore (w : Workspace) :
    w.registerCore.declaredClasses = w.declaredClasses := by
  rw [declaredClasses, declaredClasses, registerCore_libraries]

/-- Class headers change only what is above a class; a class whose header names
nothing keeps having nothing above it.  Linking classes of the table has no
faults. -/
theorem foldl_enterParents (linked : List ClassInfo) (entered : TypeTable × List UnknownType) :
    let t := entered.1
    let t' := (linked.foldl enterParents entered).1
    t.SameDefs t' ∧ t'.object = t.object ∧ t'.core = t.core ∧
      (∀ ty, t.supertypes ty = [] → (∀ c ∈ linked, c.type = ty → c.parents = []) →
        t'.supertypes ty = []) ∧
      ((∀ c ∈ linked, t.HasClass c.type) → (linked.foldl enterParents entered).2 = entered.2) := by
  induction linked generalizing entered with
  | nil => exact ⟨rfl, rfl, rfl, fun _ hnone _ => hnone, fun _ => rfl⟩
  | cons c linked ih =>
    rw [foldl_cons]
    unfold enterParents
    split
    next t₁ hset =>
      obtain ⟨hsame, hobject, hcore⟩ := TypeTable.setSupertypes_same hset
      obtain ⟨hsame', hobject', hcore', hnone', hfaults'⟩ := ih (t₁, entered.2)
      refine ⟨hsame'.trans hsame, hobject'.trans hobject, hcore'.trans hcore, ?_, ?_⟩
      · intro ty hnone hheaders
        refine hnone' ty ?_ fun c' hc' => hheaders c' (mem_cons_of_mem c hc')
        rw [TypeTable.supertypes_setSupertypes hset]
        split
        next heq =>
          rw [hheaders c mem_cons_self heq.symm]
          rfl
        next => exact hnone
      · intro hclasses
        exact hfaults' fun c' hc' => (hclasses c' (mem_cons_of_mem c hc')).mono hsame.grows
    next fault hset =>
      obtain ⟨hsame', hobject', hcore', hnone', -⟩ := ih (entered.1, entered.2 ++ [fault])
      refine ⟨hsame', hobject', hcore', fun ty hnone hheaders =>
        hnone' ty hnone fun c' hc' => hheaders c' (mem_cons_of_mem c hc'), ?_⟩
      intro hclasses
      obtain ⟨name, library, hdef⟩ := hclasses c mem_cons_self
      simp [TypeTable.setSupertypes, hdef, TypeDef.isClass] at hset

end Workspace

/-! ## Members -/

namespace Element

def IsMemberOf (owner : ClassElement) : Element → Prop
  | .executable e =>
    (∃ d, Member.function d ∈ owner.decl.members ∧
      e = ⟨.declared d, owner.library, some owner⟩) ∨ e = Members.implicitConstructor owner
  | .variable v => ∃ d, Member.variable d ∈ owner.decl.members ∧
      v = ⟨.declared d, owner.library, some owner⟩
  | .class _ | .parameter _ => False

end Element

namespace Members

variable {m : Members}

structure All (P : Element → Prop) (m : Members) : Prop where
  methods : ∀ entry ∈ m.methods, P (.executable entry.2)
  getters : ∀ entry ∈ m.getters, P entry.2.toElement
  setters : ∀ entry ∈ m.setters, P entry.2.toElement
  constructors : ∀ entry ∈ m.constructors, P (.executable entry.2)
  accepted : ∀ e ∈ m.accepted, P e

theorem All.imp {Q : Element → Prop} (himp : ∀ e, P e → Q e) (hall : m.All P) : m.All Q :=
  ⟨fun entry h => himp _ (hall.methods entry h), fun entry h => himp _ (hall.getters entry h),
    fun entry h => himp _ (hall.setters entry h),
    fun entry h => himp _ (hall.constructors entry h), fun e h => himp _ (hall.accepted e h)⟩

theorem All.and {Q : Element → Prop} (hP : m.All P) (hQ : m.All Q) : m.All fun e => P e ∧ Q e :=
  ⟨fun entry h => ⟨hP.methods entry h, hQ.methods entry h⟩,
    fun entry h => ⟨hP.getters entry h, hQ.getters entry h⟩,
    fun entry h => ⟨hP.setters entry h, hQ.setters entry h⟩,
    fun entry h => ⟨hP.constructors entry h, hQ.constructors entry h⟩,
    fun e h => ⟨hP.accepted e h, hQ.accepted e h⟩⟩

theorem all_empty (P : Element → Prop) : ({} : Members).All P :=
  ⟨by simp, by simp, by simp, by simp, by simp⟩

theorem mem_insert {name : String} {value : α} {table : NameTable α} {entry : String × α}
    (hmem : entry ∈ NameTable.insert name value table) : entry.2 = value ∨ entry ∈ table := by
  induction table with
  | nil =>
    obtain rfl := mem_singleton.mp hmem
    exact .inl rfl
  | cons head rest ih =>
    rw [NameTable.insert] at hmem
    split at hmem
    · rcases mem_cons.mp hmem with rfl | hrest
      · exact .inl rfl
      · exact .inr (mem_cons_of_mem _ hrest)
    · rcases mem_cons.mp hmem with rfl | hrest
      · exact .inr mem_cons_self
      · rcases ih hrest with hvalue | hold
        · exact .inl hvalue
        · exact .inr (mem_cons_of_mem _ hold)

theorem All.addVariable (hall : m.All P) (owner : ClassElement) (d : VarDecl)
    (hnew : P (.variable ⟨.declared d, owner.library, some owner⟩)) :
    (m.addVariable owner d).All P := by
  unfold Members.addVariable
  refine ⟨hall.methods, forall_mem_append_singleton hall.getters hnew, ?_, hall.constructors,
    forall_mem_append_singleton hall.accepted hnew⟩
  dsimp only
  split
  · intro entry hmem
    rcases mem_insert hmem with hvalue | hold
    · rw [hvalue]
      exact hnew
    · exact hall.setters entry hold
  · exact hall.setters

theorem All.addFunction (hall : m.All P) (owner : ClassElement) (d : FunctionDecl)
    (hnew : P (.executable ⟨.declared d, owner.library, some owner⟩)) :
    (m.addFunction owner d).All P := by
  have haccepted := forall_mem_append_singleton hall.accepted hnew
  unfold Members.addFunction
  split
  · exact ⟨hall.methods, forall_mem_append_singleton hall.getters hnew, hall.setters,
      hall.constructors, haccepted⟩
  · exact ⟨hall.methods, hall.getters, forall_mem_append_singleton hall.setters hnew,
      hall.constructors, haccepted⟩
  · exact ⟨hall.methods, hall.getters, hall.setters,
      forall_mem_append_singleton hall.constructors hnew, haccepted⟩
  · exact ⟨forall_mem_append_singleton hall.methods hnew, hall.getters, hall.setters,
      hall.constructors, haccepted⟩

theorem All.declareAll {owner : ClassElement} (hall : m.All (Element.IsMemberOf owner))
    {ds : List Member} (hds : ∀ d ∈ ds, d ∈ owner.decl.members) :
    (m.declareAll owner ds).1.All (Element.IsMemberOf owner) := by
  induction ds generalizing m with
  | nil => exact hall
  | cons d ds ih =>
    obtain ⟨hd, hrest⟩ := forall_mem_cons.mp hds
    unfold Members.declareAll
    split
    · cases d with
      | «variable» d => exact ih (hall.addVariable owner d ⟨d, hd, rfl⟩) hrest
      | function d => exact ih (hall.addFunction owner d (.inl ⟨d, hd, rfl⟩)) hrest
    · exact ih hall hrest

theorem all_ofClass (owner : ClassElement) : (ofClass owner).1.All (Element.IsMemberOf owner) := by
  have hall := (all_empty (Element.IsMemberOf owner)).declareAll fun d hd => hd
  unfold ofClass
  dsimp only
  split
  · refine ⟨hall.methods, hall.getters, hall.setters, ?_, hall.accepted⟩
    intro entry hmem
    obtain rfl := mem_singleton.mp hmem
    exact .inr rfl
  · exact hall

end Members

/-! ## Workspaces -/

namespace VariableOrigin

def TypedIn (t : TypeTable) : VariableOrigin → Prop
  | .declared _ => True
  | .exception _ _ type | .stackTrace _ _ type => t.Has type

end VariableOrigin

namespace Element

/-- All numbers of types in an element are those of types, and those of classes
are those of classes. -/
def TypedIn (t : TypeTable) : Element → Prop
  | .class c => t.HasClass c.type
  | .executable e => ∀ c ∈ e.owner, t.HasClass c.type
  | .variable v => (∀ c ∈ v.owner, t.HasClass c.type) ∧ v.origin.TypedIn t
  | .parameter p => t.Has p.type

theorem IsTopLevel.typedIn {u : CompilationUnit} (hclasses : ∀ c ∈ cs, t.HasClass c.type)
    (htop : e.IsTopLevel u cs) : e.TypedIn t := by
  cases e with
  | «class» c => exact hclasses c htop
  | executable e =>
    obtain ⟨d, _, rfl⟩ := htop
    simp [TypedIn]
  | «variable» v =>
    obtain ⟨d, _, rfl⟩ := htop
    simp [TypedIn, VariableOrigin.TypedIn]
  | parameter p => exact htop.elim

theorem IsMemberOf.typedIn {owner : ClassElement} (hclass : t.HasClass owner.type)
    (hmember : e.IsMemberOf owner) : e.TypedIn t := by
  cases e with
  | «class» c => exact hmember.elim
  | executable e =>
    rcases hmember with ⟨d, _, rfl⟩ | rfl
    · simpa [TypedIn] using hclass
    · simpa [TypedIn, Members.implicitConstructor] using hclass
  | «variable» v =>
    obtain ⟨d, _, rfl⟩ := hmember
    simpa [TypedIn, VariableOrigin.TypedIn] using hclass
  | parameter p => exact hmember.elim

end Element

namespace Workspace

variable {i : ClassInfo}
variable (units : List CompilationUnit)

structure Typed (w : Workspace) : Prop where
  special : TypeTable.initial.Grows w.types
  wellFormed : w.types.WellFormed
  core : ∀ name ty, w.types.coreType name = some ty → w.types.HasClass ty
  scope : ∀ l ∈ w.libraries, ∀ entry ∈ l.scope, entry.2.TypedIn w.types
  classes : ∀ i ∈ w.classes, w.types.HasClass i.type
  members : ∀ i ∈ w.classes, i.members.All (Element.TypedIn w.types)

theorem mem_classes_linkClasses (hmem : i ∈ w.linkClasses.classes) :
    i.element ∈ w.declaredClasses ∧ i.members = {} ∧
      (i.parents = [] ∨ i = (ClassInfo.link w.libraries (w.coreClass? "Object") i.element).1) := by
  simp only [Workspace.linkClasses, mem_map, mem_flatMap] at hmem
  obtain ⟨_, ⟨l, hl, c, hc, rfl⟩, rfl⟩ := hmem
  have hdeclared : c ∈ w.declaredClasses := mem_flatMap.mpr ⟨l, hl, hc⟩
  unfold linkClass
  split
  · exact ⟨hdeclared, rfl, .inr rfl⟩
  · exact ⟨hdeclared, rfl, .inl rfl⟩

/-- A class with its members, and the reports about these. -/
def withMembers (w : Workspace) (c : ClassInfo) : ClassInfo × List Diagnostic :=
  if (w.libraries.find? c.element.library).any fun l => counts l c.element then
    ({ c with members := (Members.ofClass c.element).1 }, (Members.ofClass c.element).2)
  else (c, [])

theorem classes_declareMembers (w : Workspace) :
    w.declareMembers.classes = w.classes.map fun c => (w.withMembers c).1 := map_map ..

theorem warnings_declareMembers (w : Workspace) :
    w.declareMembers.warnings = w.warnings ++ w.classes.flatMap fun c => (w.withMembers c).2 :=
  congrArg (w.warnings ++ ·) (flatMap_map ..)

theorem withMembers_eq (w : Workspace) (c : ClassInfo) :
    w.withMembers c = (c, []) ∨
      w.withMembers c =
        ({ c with members := (Members.ofClass c.element).1 }, (Members.ofClass c.element).2) := by
  unfold withMembers
  split
  · exact .inr rfl
  · exact .inl rfl

theorem withMembers_header (w : Workspace) (c : ClassInfo) :
    (w.withMembers c).1.element = c.element ∧ (w.withMembers c).1.parents = c.parents := by
  rcases w.withMembers_eq c with heq | heq <;> simp [heq, ClassInfo.parents]

theorem mem_classes_declareMembers (hmem : i ∈ w.declareMembers.classes) :
    ∃ i₀ ∈ w.classes, i.element = i₀.element ∧
      (i.members = i₀.members ∨ i.members = (Members.ofClass i₀.element).1) := by
  rw [classes_declareMembers] at hmem
  obtain ⟨i₀, hi₀, rfl⟩ := mem_map.mp hmem
  refine ⟨i₀, hi₀, (w.withMembers_header i₀).1, ?_⟩
  rcases w.withMembers_eq i₀ with heq | heq <;> simp [heq]

/-- The libraries of a workspace, linked with each other. -/
abbrev linked : Workspace := (declare units).linkDirectives

theorem isDeclared_linked : (linked units).IsDeclared :=
  (isDeclared_declare units).linkDirectives

theorem libraries_ofUnits : (ofUnits units).libraries = (linked units).libraries :=
  registerCore_libraries _

theorem coreClass?_ofUnits (name : String) :
    (ofUnits units).coreClass? name = (linked units).coreClass? name := by
  unfold coreClass?
  rw [libraries_ofUnits]

theorem types_ofUnits :
    let w := (linked units)
    w.CoreRegistered (ofUnits units).types ∧
      ∀ ty, (∀ i ∈ w.registerCore.linkClasses.classes, i.type = ty → i.parents = []) →
        (ofUnits units).types.supertypes ty = [] := by
  intro w
  have hdecl := isDeclared_linked units
  have hcore := coreRegistered_registerCore hdecl
  have hlinked := foldl_enterParents w.registerCore.linkClasses.classes
    (w.registerCore.types, w.registerCore.faults)
  obtain ⟨hsame, hobject, hcoreTypes, hnone, -⟩ := hlinked
  constructor
  · refine ⟨hsame.trans hcore.same, ?_, ?_, hobject.trans hcore.object⟩
    · intro name ty hcoreType
      exact hcore.core name ty (by rw [TypeTable.coreType, ← hcoreTypes]; exact hcoreType)
    · have hfunction := hcore.no_function_class
      rw [TypeTable.coreType, ← hcoreTypes] at hfunction
      exact hfunction
  · intro ty hheaders
    apply hnone ty
    · rw [TypeTable.supertypes, registerCore_edges, hdecl.unlinked.edges]
      rfl
    · exact hheaders

theorem members_ofUnits {units : List CompilationUnit} (hi : i ∈ (ofUnits units).classes) :
    i.element ∈ (linked units).declaredClasses ∧
      i.members.All (Element.IsMemberOf i.element) := by
  obtain ⟨i₀, hi₀, helement, hmembers⟩ := mem_classes_declareMembers hi
  obtain ⟨hdeclared, hempty, -⟩ := mem_classes_linkClasses hi₀
  rw [declaredClasses, registerCore_libraries] at hdeclared
  rw [helement]
  refine ⟨hdeclared, ?_⟩
  rcases hmembers with hnone | hsome
  · rw [hnone, hempty]
    exact Members.all_empty _
  · rw [hsome]
    exact Members.all_ofClass i₀.element

theorem typed_ofUnits : (ofUnits units).Typed := by
  have hdecl := isDeclared_linked units
  obtain ⟨hcore, -⟩ := types_ofUnits units
  have hgrows := hcore.same.grows
  have hclass : ∀ c ∈ (linked units).declaredClasses,
      (ofUnits units).types.HasClass c.type :=
    fun c hc => (hdecl.registered.hasClass c hc).mono hgrows
  refine ⟨hdecl.unlinked.special.trans hgrows, ⟨?_, ?_, hcore.no_function_class⟩, ?_, ?_, ?_, ?_⟩
  · intro ty params returns hdef
    rw [hcore.same.def?] at hdef
    exact absurd hdef (hdecl.unlinked.no_functions ty params returns)
  · intro ty hobject
    rw [hcore.object] at hobject
    obtain ⟨c, hc, rfl⟩ := Option.map_eq_some_iff.mp hobject
    exact hclass c (mem_declaredClasses_of_coreClass? hdecl hc)
  · exact fun name ty hcoreType => (hcore.core name ty hcoreType).mono hgrows
  · intro l hl entry hentry
    rw [libraries_ofUnits] at hl
    exact ((hdecl.scope l hl).scope entry hentry).typedIn fun c hc =>
      hclass c (mem_flatMap.mpr ⟨l, hl, hc⟩)
  · exact fun i hi => hclass i.element (members_ofUnits hi).1
  · intro i hi
    obtain ⟨hdeclared, hall⟩ := members_ofUnits hi
    exact hall.imp fun e hmember => hmember.typedIn (hclass i.element hdeclared)

theorem objectOnTop_ofUnits {units : List CompilationUnit}
    (hheader : ∀ c, (ofUnits units).coreClass? "Object" = some c →
      c.decl.superclass = none ∧ c.decl.interfaces = []) : (ofUnits units).types.ObjectOnTop := by
  have hdecl := isDeclared_linked units
  obtain ⟨hcore, hnone⟩ := types_ofUnits units
  intro ty hobject
  rw [hcore.object] at hobject
  obtain ⟨o, ho, rfl⟩ := Option.map_eq_some_iff.mp hobject
  apply hnone
  intro i hi htype
  obtain ⟨hdeclared, -, hparents⟩ := mem_classes_linkClasses hi
  rw [declaredClasses, registerCore_libraries] at hdeclared
  rcases hparents with hempty | hlink
  · exact hempty
  · obtain ⟨hsuper, hinterfaces⟩ := hheader o (by rw [coreClass?_ofUnits]; exact ho)
    have helement : i.element = o :=
      hdecl.registered.eq_of_type_eq hdeclared (mem_declaredClasses_of_coreClass? hdecl ho) htype
    have hobject : (linked units).registerCore.coreClass? "Object" = some o := by
      rw [coreClass?, registerCore_libraries]
      exact ho
    rw [hlink, helement, hobject]
    simp [ClassInfo.link, ClassInfo.parents, hsuper, hinterfaces]

end Workspace

end CheckedThrows
