import CheckedThrows.Proofs.Exports
import CheckedThrows.Proofs.InsertedLibrary

/-!
# Looking up names beside a hidden library

From every other library, names and members mean the same with and without a
hidden library, under other numbers.  Searches that depend on the size of the
workspace by their fuel have fuel enough in both.
-/

namespace CheckedThrows

open List

theorem total_le_of_interleaves {α β : Type} {keep : β → Bool} {rename : α → β} {l : List α}
    {l' : List β} (hl : Interleaves keep rename l l') {measure : α → Nat} {measure' : β → Nat}
    (hmeasure : ∀ a, measure' (rename a) = measure a) : total measure l ≤ total measure' l' := by
  induction l' generalizing l with
  | nil =>
    have hnone : l = [] := map_eq_nil_iff.mp hl.symm
    subst hnone
    exact Nat.le_refl _
  | cons b l' ih =>
    by_cases hb : keep b = true
    · rw [Interleaves, filter_cons_of_pos hb] at hl
      obtain ⟨a, k, rfl, rfl, hk⟩ := map_eq_cons_iff.mp hl.symm
      rw [total, total, hmeasure]
      exact Nat.add_le_add_left (ih hk.symm) _
    · rw [Interleaves, filter_cons_of_neg hb] at hl
      exact Nat.le_trans (ih hl) (Nat.le_add_left _ _)

theorem findSome?_congr {α β : Type} {f g : α → Option β} {l : List α}
    (hfg : ∀ a ∈ l, f a = g a) : l.findSome? f = l.findSome? g := by
  induction l with
  | nil => rfl
  | cons a l ih =>
    rw [findSome?_cons, findSome?_cons, hfg a mem_cons_self,
      ih fun b hb => hfg b (mem_cons_of_mem a hb)]

/-! ## Libraries -/

namespace Libraries

/-- Libraries `ls'` are those of `ls` under other numbers, and further ones named
`hidden`, which those of `ls` do not refer to. -/
structure Beside (r : Renaming) (hidden : String) (ls ls' : Libraries) : Prop where
  interleaves : Interleaves (Library.isElsewhere hidden) (Library.rename r) ls ls'
  apart : ∀ l ∈ ls, l.IsApartFrom hidden

namespace Beside

variable {uri : String}
variable {r : Renaming} {hidden : String} {ls ls' : Libraries} (hls : ls.Beside r hidden ls')
include hls

theorem find? (huri : uri ≠ hidden) :
    ls'.find? uri = (ls.find? uri).map (Library.rename r) :=
  find?_rename hls.interleaves huri

theorem exporters (fuel : Nat) (seen : List String) {pending : List String}
    (hpending : hidden ∉ pending) :
    ls'.exporters fuel seen pending = (ls.exporters fuel seen pending).map (Library.rename r) := by
  induction fuel generalizing seen pending with
  | zero => rfl
  | succ fuel ih =>
    cases pending with
    | nil => rfl
    | cons uri pending =>
      obtain ⟨huri, hrest⟩ := not_or.mp (mt mem_cons.mpr hpending)
      rw [Libraries.exporters, Libraries.exporters]
      by_cases hseen : uri ∈ seen
      · rw [if_pos hseen, if_pos hseen]
        exact ih seen hrest
      · rw [if_neg hseen, if_neg hseen, hls.find? (Ne.symm huri)]
        cases hl : ls.find? uri with
        | none => exact ih (uri :: seen) hrest
        | some l =>
          have hexports := (hls.apart l (mem_of_find?_eq_some hl)).2
          have happend : hidden ∉ l.exports ++ pending := by
            simp [hexports, hrest]
          exact congrArg (l.rename r :: ·) (ih (uri :: seen) happend)

theorem exporters_enough (huri : uri ≠ hidden) :
    ls'.exporters (ls'.exportCount + 2) [] [uri] =
      (ls.exporters (ls.exportCount + 2) [] [uri]).map (Library.rename r) := by
  have hcount : ls.exportCount ≤ ls'.exportCount :=
    total_le_of_interleaves hls.interleaves fun _ => rfl
  have hpending := ls.pendingExports_le_exportCount []
  have hfuel : ls.exporters (ls'.exportCount + 2) [] [uri] =
      ls.exporters (ls.exportCount + 2) [] [uri] :=
    ls.exporters_congr_fuel (by rw [length_singleton]; omega)
      (by rw [length_singleton]; omega)
  rw [hls.exporters _ [] (by simpa using huri.symm), hfuel]

omit hls in
theorem publicScope_rename (l : Library) :
    (l.rename r).publicScope = Names.rename r l.publicScope := by
  unfold Library.publicScope
  simp only [Library.rename, Names.rename, NameTable.mapValues, filter_map]
  rfl

theorem namespaceOf (huri : uri ≠ hidden) :
    ls'.namespaceOf uri = Names.rename r (ls.namespaceOf uri) := by
  unfold Libraries.namespaceOf
  have hentry : ∀ (names : Names) (entry : String × Element),
      (if (List.lookup entry.1 (Names.rename r names)).isSome then Names.rename r names
        else Names.rename r names ++ [(entry.1, entry.2.rename r)]) =
      Names.rename r (if (names.lookup entry.1).isSome then names else names ++ [entry]) := by
    intro names entry
    rw [Names.rename, NameTable.lookup_mapValues, Option.isSome_map]
    split
    · rfl
    · exact (NameTable.mapValues_append (Element.rename r) names [entry]).symm
  rw [hls.exporters_enough huri, foldl_map]
  have hstart : ([] : Names) = Names.rename r [] := rfl
  rw [hstart]
  apply foldl_hom
  intro names l
  have hpublic : (l.rename r).publicScope =
      l.publicScope.map fun entry => (entry.1, entry.2.rename r) := publicScope_rename l
  rw [hpublic, foldl_map]
  exact foldl_hom _ hentry

theorem lookup (huri : uri ≠ hidden) (name : String) :
    ls'.lookup uri name = (ls.lookup uri name).map (Element.rename r) := by
  unfold Libraries.lookup
  rw [hls.find? huri]
  cases hl : ls.find? uri with
  | none => rfl
  | some l =>
    have himports := (hls.apart l (mem_of_find?_eq_some hl)).1
    have hscope : (l.rename r).scope.lookup name = (l.scope.lookup name).map (Element.rename r) :=
      NameTable.lookup_mapValues _ _ _
    dsimp only [Option.map_some]
    rw [hscope]
    cases l.scope.lookup name with
    | some e => rfl
    | none =>
      rw [map_findSome?]
      apply findSome?_congr
      intro i hi
      have hother : i ≠ hidden := fun heq => himports (heq ▸ hi)
      rw [hls.namespaceOf hother]
      exact NameTable.lookup_mapValues _ _ _

theorem classNamed? (huri : uri ≠ hidden) (name : String) :
    ls'.classNamed? uri name = (ls.classNamed? uri name).map (ClassElement.rename r) := by
  unfold Libraries.classNamed?
  rw [hls.lookup huri]
  cases ls.lookup uri name with
  | none => rfl
  | some e => exact e.toClass?_rename r

theorem typeNamed? (huri : uri ≠ hidden) (name : String) :
    ls'.typeNamed? uri name = (ls.typeNamed? uri name).map r.type := by
  unfold Libraries.typeNamed?
  rw [hls.find? huri]
  cases hl : ls.find? uri with
  | none => rfl
  | some l =>
    obtain ⟨himports, hexports⟩ := hls.apart l (mem_of_find?_eq_some hl)
    rw [map_findSome?]
    apply findSome?_congr
    intro i hi
    have hother : i ≠ hidden := by
      rintro rfl
      simp only [Library.rename, cons_append, mem_cons, mem_append] at hi
      rcases hi with hself | himport | hexport
      · exact huri hself.symm
      · exact himports himport
      · exact hexports hexport
    rw [hls.namespaceOf hother, Names.rename, NameTable.lookup_mapValues, Function.comp_apply]
    cases (ls.namespaceOf i).lookup name with
    | none => rfl
    | some e => cases e <;> rfl

end Beside

end Libraries

/-! ## Members -/

namespace Members

variable (r : Renaming) (m : Members) (owner : ClassElement)

theorem isFree_rename (d : Member) : (m.rename r).isFree (d.relabel r) = m.isFree d := by
  cases d with
  | «variable» d => simp [Member.relabel, isFree, rename, VarDecl.relabel_eq]
  | function d =>
    simp only [Member.relabel, isFree, rename, FunctionDecl.relabel_eq, NameTable.lookup_mapValues]
    cases d.kind <;> simp

theorem addVariable_rename (d : VarDecl) :
    (m.rename r).addVariable (owner.rename r) (d.relabel r) = (m.addVariable owner d).rename r := by
  have hv : (⟨.declared (d.relabel r), owner.library, some (owner.rename r)⟩ :
      VariableElement) = VariableElement.rename r ⟨.declared d, owner.library, some owner⟩ := rfl
  have hname : (d.relabel r).name = d.name := by rw [VarDecl.relabel_eq]
  have hmodifiers : (d.relabel r).modifiers = d.modifiers := by rw [VarDecl.relabel_eq]
  simp only [addVariable, ClassElement.library_rename, hv, hname, hmodifiers, rename,
    NameTable.mapValues_append, map_append]
  split
  · rw [NameTable.mapValues_insert]
    rfl
  · rfl

theorem addFunction_rename (d : FunctionDecl) :
    (m.rename r).addFunction (owner.rename r) (d.relabel r) = (m.addFunction owner d).rename r := by
  have he : (⟨.declared (d.relabel r), owner.library, some (owner.rename r)⟩ :
      ExecutableElement) = ExecutableElement.rename r ⟨.declared d, owner.library, some owner⟩ :=
    rfl
  have hname : (d.relabel r).name = d.name := by rw [FunctionDecl.relabel_eq]
  have hkind : (d.relabel r).kind = d.kind := by rw [FunctionDecl.relabel_eq]
  simp only [addFunction, ClassElement.library_rename, he, hname, hkind]
  cases d.kind <;> simp [rename, NameTable.mapValues, Property.rename, Element.rename]

theorem declareAll_rename (ds : List Member) :
    declareAll (owner.rename r) (m.rename r) (ds.map (Member.relabel r)) =
      ((declareAll owner m ds).1.rename r,
        (declareAll owner m ds).2.map (Diagnostic.rename r)) := by
  induction ds generalizing m with
  | nil => rfl
  | cons d ds ih =>
    have hname : (d.relabel r).name = d.name := by
      cases d <;> simp [Member.relabel, Member.name, FunctionDecl.relabel_eq, VarDecl.relabel_eq]
    have hextent : (d.relabel r).info.extent = r.extent d.info.extent := by
      cases d <;> simp [Member.relabel, Member.info, FunctionDecl.relabel_eq,
        VarDecl.relabel_eq, NodeInfo.relabel]
    simp only [map_cons, declareAll, isFree_rename, hname, hextent]
    by_cases hfree : m.isFree d
    · rw [if_pos hfree, if_pos hfree, ← ih]
      cases d with
      | «variable» d => exact congrArg (declareAll _ · _) (addVariable_rename r m owner d)
      | function d => exact congrArg (declareAll _ · _) (addFunction_rename r m owner d)
    · have hwarning : (alreadyDefined owner.library d.name d.info.extent).rename r =
          alreadyDefined owner.library d.name (r.extent d.info.extent) :=
        Library.alreadyDefined_rename _ _ _
      rw [if_neg hfree, if_neg hfree, ih, map_cons, hwarning]
      rfl

theorem ofClass_rename :
    ofClass (owner.rename r) =
      ((ofClass owner).1.rename r, (ofClass owner).2.map (Diagnostic.rename r)) := by
  have hall : declareAll (owner.rename r) {} (owner.decl.members.map (Member.relabel r)) =
      ((declareAll owner {} owner.decl.members).1.rename r,
        (declareAll owner {} owner.decl.members).2.map (Diagnostic.rename r)) :=
    declareAll_rename r {} owner owner.decl.members
  have hempty : ∀ m : Members, (m.rename r).constructors.isEmpty = m.constructors.isEmpty := by
    intro m
    simp [rename, NameTable.mapValues]
  unfold ofClass
  have hmembers : (owner.rename r).decl.members = owner.decl.members.map (Member.relabel r) :=
    rfl
  rw [hmembers, hall]
  dsimp only
  rw [hempty]
  split <;> rfl

end Members

/-! ## Classes -/

section
variable {r : Renaming} {hidden : String} {ls ls' : Libraries} (hls : ls.Beside r hidden ls')
include hls

theorem ClassInfo.headerClass_beside {uri : String} (huri : uri ≠ hidden) (t : TypeName) :
    headerClass ls' uri (t.relabel r) =
      ((headerClass ls uri t).1.map (ClassElement.rename r),
        (headerClass ls uri t).2.map (Diagnostic.rename r)) := by
  have hname : (t.relabel r).name = t.name := rfl
  have hextent : (t.relabel r).info.extent = r.extent t.info.extent := rfl
  unfold headerClass
  rw [hname, hextent, hls.classNamed? huri]
  cases ls.classNamed? uri t.name with
  | some c => rfl
  | none => simp [Diagnostic.rename, warning, r.span_ofExtent]

theorem ClassInfo.link_beside (object : Option ClassElement) {c : ClassElement}
    (hc : c.library ≠ hidden) :
    link ls' (object.map (ClassElement.rename r)) (c.rename r) =
      ((link ls object c).1.rename r, (link ls object c).2.map (Diagnostic.rename r)) := by
  have hheader := fun t => headerClass_beside hls hc t
  have hnamed : (c.rename r).decl.superclass.map (headerClass ls' c.library) =
      (c.decl.superclass.map (headerClass ls c.library)).map fun found =>
        (found.1.map (ClassElement.rename r), found.2.map (Diagnostic.rename r)) := by
    show (c.decl.superclass.map (TypeName.relabel r)).map _ = _
    cases c.decl.superclass with
    | none => rfl
    | some t => exact congrArg some (hheader t)
  have hinterfaces : (c.rename r).decl.interfaces.map (headerClass ls' c.library) =
      (c.decl.interfaces.map (headerClass ls c.library)).map fun found =>
        (found.1.map (ClassElement.rename r), found.2.map (Diagnostic.rename r)) := by
    show (c.decl.interfaces.map (TypeName.relabel r)).map _ = _
    rw [map_map, map_map]
    exact map_congr_left fun t _ => hheader t
  have hobject : (object.map (ClassElement.rename r)).filter
        (fun o => o.type ≠ (c.rename r).type) =
      (object.filter fun o => o.type ≠ c.type).map (ClassElement.rename r) := by
    rw [Option.filter_map]
    congr 2
    funext o
    simp [r.type_injective.eq_iff]
  simp only [link, ClassElement.library_rename, hnamed, hinterfaces, hobject]
  refine Prod.ext ?_ ?_
  · simp only [ClassInfo.rename, Option.bind_map, filterMap_map, map_filterMap]
    congr 1
    simp [Option.map_or, Function.comp_def]
  · dsimp only
    rw [map_append, map_flatMap, flatMap_map]
    cases c.decl.superclass.map (headerClass ls c.library) <;> rfl

omit hls in
theorem Library.declared?_rename (l : Library) (n : NodeId) :
    (l.rename r).declared? (r.node n) = (l.declared? n).map (Element.rename r) := by
  unfold declared?
  simp only [Library.rename, Names.rename, NameTable.mapValues, find?_map, Option.map_map]
  congr 1
  apply find?_congr
  intro entry _
  simp [ElementId.rename, r.node_injective.eq_iff]

omit hls in
theorem Workspace.counts_rename (l : Library) (c : ClassElement) :
    counts (l.rename r) (c.rename r) = counts l c := by
  have hid : (c.rename r).decl.id = r.node c.decl.id := rfl
  unfold counts
  rw [hid, Library.declared?_rename, Option.isSome_map]

omit hls in
theorem Library.classNamed?_rename (l : Library) (name : String) :
    (l.rename r).classNamed? name = (l.classNamed? name).map (ClassElement.rename r) := by
  have hscope : (l.rename r).scope.lookup name = (l.scope.lookup name).map (Element.rename r) :=
    NameTable.lookup_mapValues _ _ _
  unfold classNamed?
  rw [hscope]
  cases l.scope.lookup name with
  | none => rfl
  | some e => exact e.toClass?_rename r

end

namespace Workspace

variable {r : Renaming} {hidden : String} {w w' : Workspace}

theorem element_linkClass (l : Library) (c : ClassElement) : (w.linkClass l c).1.element = c := by
  unfold linkClass
  split <;> rfl

theorem coreClass?_beside (hw : w.libraries.Beside r hidden w'.libraries)
    (hcore : Library.coreUri ≠ hidden) (name : String) :
    w'.coreClass? name = (w.coreClass? name).map (ClassElement.rename r) := by
  unfold coreClass?
  rw [hw.find? hcore]
  cases w.libraries.find? Library.coreUri with
  | none => rfl
  | some l => exact l.classNamed?_rename name

theorem interleaves_linkClass (hw : w.libraries.Beside r hidden w'.libraries)
    (hcore : Library.coreUri ≠ hidden)
    (hclasses : ∀ l ∈ w.libraries, ∀ c ∈ l.classes, c.library = l.uri)
    (hclasses' : ∀ l ∈ w'.libraries, ∀ c ∈ l.classes, c.library = l.uri) :
    Interleaves (fun linked => linked.1.isElsewhere hidden)
      (fun linked => (linked.1.rename r, linked.2.map (Diagnostic.rename r)))
      (w.libraries.flatMap fun l => l.classes.map (w.linkClass l))
      (w'.libraries.flatMap fun l => l.classes.map (w'.linkClass l)) := by
  apply hw.interleaves.flatMap
  · intro l hl
    have huri : l.uri ≠ hidden := of_decide_eq_true (hw.interleaves.keep_rename hl)
    have hlink : ∀ c ∈ l.classes, w'.linkClass (l.rename r) (c.rename r) =
        ((w.linkClass l c).1.rename r, (w.linkClass l c).2.map (Diagnostic.rename r)) := by
      intro c hc
      have hlibrary : c.library ≠ hidden := by rwa [hclasses l hl c hc]
      unfold linkClass
      rw [counts_rename, coreClass?_beside hw hcore]
      split
      · exact ClassInfo.link_beside hw _ hlibrary
      · rfl
    have hmap : (l.rename r).classes.map (w'.linkClass (l.rename r)) =
        (l.classes.map (w.linkClass l)).map fun linked =>
          (linked.1.rename r, linked.2.map (Diagnostic.rename r)) := by
      show (l.classes.map (ClassElement.rename r)).map _ = _
      rw [map_map, map_map]
      exact map_congr_left hlink
    rw [hmap]
    apply Interleaves.of_kept
    intro linked hmem
    obtain ⟨c, hc, rfl⟩ := mem_map.mp hmem
    simp [ClassInfo.isElsewhere, ClassInfo.rename, element_linkClass, hclasses l hl c hc, huri]
  · intro l hl hhidden linked hmem
    obtain ⟨c, hc, rfl⟩ := mem_map.mp hmem
    have huri : l.uri = hidden := by simpa [Library.isElsewhere] using hhidden
    simp [ClassInfo.isElsewhere, element_linkClass, hclasses' l hl c hc, huri]

/-! ## What is above a class -/

theorem supertypes_foldl_enterParents {linked : List ClassInfo}
    {entered : TypeTable × List UnknownType} (hclasses : ∀ c ∈ linked, entered.1.HasClass c.type)
    (hdistinct : (linked.map ClassInfo.type).Nodup) (ty : TypeId) :
    (linked.foldl enterParents entered).1.supertypes ty =
      ((linked.find? fun c => c.type = ty).map fun c =>
        (c.parents.map ClassElement.type).filter (· ≠ ty)).getD (entered.1.supertypes ty) := by
  induction linked generalizing entered with
  | nil => rfl
  | cons c linked ih =>
    obtain ⟨hfirst, hrest⟩ := forall_mem_cons.mp hclasses
    rw [map_cons, nodup_cons] at hdistinct
    obtain ⟨name, library, hdef⟩ := hfirst
    obtain ⟨t, hset⟩ : ∃ t, entered.1.setSupertypes c.type (c.parents.map ClassElement.type) =
        .ok t := by
      simp [TypeTable.setSupertypes, hdef, TypeDef.isClass]
    have hstep : enterParents entered c = (t, entered.2) := by
      simp [enterParents, hset]
    have hsame := (TypeTable.setSupertypes_same hset).1
    have hrest' : ∀ c' ∈ linked, t.HasClass c'.type :=
      fun c' hc' => (hrest c' hc').mono hsame.grows
    rw [foldl_cons, hstep, ih hrest' hdistinct.2, find?_cons,
      TypeTable.supertypes_setSupertypes hset]
    by_cases heq : c.type = ty
    · have hnone : (linked.find? fun c => c.type = ty) = none := by
        rw [find?_eq_none]
        intro c' hc' htype
        apply hdistinct.1
        have hboth : c'.type = c.type := by rw [heq]; simpa using htype
        exact mem_map.mpr ⟨c', hc', hboth⟩
      simp [hnone, heq]
    · simp [heq, Ne.symm heq]

theorem elements_linkClasses (w : Workspace) :
    w.linkClasses.classes.map ClassInfo.element = w.declaredClasses := by
  simp [linkClasses, declaredClasses, map_flatMap, element_linkClass, Function.comp_def]

theorem parentTypes_declareMembers (w : Workspace) (ty : TypeId) :
    w.declareMembers.parentTypes ty = w.parentTypes ty := by
  have htype : ∀ c, (w.withMembers c).1.type = c.type := fun c =>
    congrArg ClassElement.type (w.withMembers_header c).1
  simp only [parentTypes, classInfo?, classes_declareMembers, find?_map, Function.comp_def,
    htype, Option.map_map, (w.withMembers_header _).2]

theorem supertypes_ofUnits (units : List CompilationUnit) (ty : TypeId) :
    (ofUnits units).types.supertypes ty = ((ofUnits units).parentTypes ty).filter (· ≠ ty) := by
  have hdecl := isDeclared_linked units
  have hdistinct : ((linked units).registerCore.linkClasses.classes.map
      ClassInfo.type).Nodup := by
    have hnodup := hdecl.registered.distinct
    rw [← declaredClasses_registerCore, ← elements_linkClasses, map_map] at hnodup
    exact hnodup
  have hnone : (linked units).registerCore.types.supertypes ty = [] := by
    rw [TypeTable.supertypes, registerCore_edges, hdecl.unlinked.edges]
    rfl
  have hsuper : (ofUnits units).types.supertypes ty =
      (((linked units).registerCore.linkClasses.classes.find? fun c =>
        c.type = ty).map fun c => (c.parents.map ClassElement.type).filter (· ≠ ty)).getD
          ((linked units).registerCore.types.supertypes ty) :=
    supertypes_foldl_enterParents (fun c hc => (hasClass_linked units c hc).1) hdistinct ty
  rw [hsuper, hnone, ofUnits, parentTypes_declareMembers, parentTypes, classInfo?]
  cases List.find? (fun c => c.type = ty)
    (linked units).registerCore.linkClasses.classes <;> rfl

/-! ## Workspaces -/

/-- Workspace `w'` is `w` under other numbers, with further classes and warnings
of a hidden library. -/
structure Mirrors (r : Renaming) (hidden : String) (w w' : Workspace) : Prop where
  libraries : w.libraries.Beside r hidden w'.libraries
  classes : Interleaves (ClassInfo.isElsewhere hidden) (ClassInfo.rename r) w.classes w'.classes
  warnings : Interleaves (Diagnostic.isElsewhere hidden) (Diagnostic.rename r) w.warnings
    w'.warnings
  apart : ∀ c ∈ w'.classes, c.element.library = hidden → ∀ ty, c.type ≠ r.type ty
  defs : ∀ ty d, w.types.def? ty = some d → w'.types.def? (r.type ty) = some (d.rename r)
  object : w'.types.object = w.types.object.map r.type
  core : ∀ name, w'.types.coreType name = (w.types.coreType name).map r.type

theorem core_registerCore (hw : w.libraries.Beside r hidden w'.libraries)
    (hcore : Library.coreUri ≠ hidden)
    (hstart : w'.types.core = NameTable.mapValues r.type w.types.core) :
    w'.registerCore.types.core = NameTable.mapValues r.type w.registerCore.types.core := by
  have hfold : ∀ register register' : TypeTable → String → TypeTable,
      (∀ t name, register t name = (w.coreClass? name).elim t fun c => t.registerCore name c.type) →
      (∀ t name, register' t name =
        (w'.coreClass? name).elim t fun c => t.registerCore name c.type) →
      ∀ (names : List String) (t t' : TypeTable), t'.core = NameTable.mapValues r.type t.core →
        (names.foldl register' t').core =
          NameTable.mapValues r.type (names.foldl register t).core := by
    intro register register' hregister hregister' names
    induction names with
    | nil => exact fun _ _ ht => ht
    | cons name names ih =>
      intro t t' ht
      apply ih
      rw [hregister, hregister', coreClass?_beside hw hcore]
      cases w.coreClass? name with
      | none => exact ht
      | some c => exact congrArg ((name, r.type c.type) :: ·) ht
  unfold registerCore
  rw [coreClass?_beside hw hcore]
  cases w.coreClass? "Object"
  all_goals
    refine hfold _ _ ?_ ?_ wellKnown _ _ hstart
    · intro t name
      cases w.coreClass? name <;> rfl
    · intro t name
      cases w'.coreClass? name <;> rfl

/-- Classes with reports about them, where each report is about the library of
the class: the reports are those of the first workspace and others about the
hidden library. -/
theorem interleaves_reports {reported reported' : List (ClassInfo × List Diagnostic)}
    (hreported : Interleaves (fun c => c.1.isElsewhere hidden)
      (fun c => (c.1.rename r, c.2.map (Diagnostic.rename r))) reported reported')
    (hfile : ∀ c ∈ reported', ∀ d ∈ c.2, d.span.file = some c.1.element.library) :
    Interleaves (Diagnostic.isElsewhere hidden) (Diagnostic.rename r) (reported.flatMap (·.2))
      (reported'.flatMap (·.2)) := by
  apply hreported.flatMap
  · intro c hc
    apply Interleaves.same
    intro d hd
    have helsewhere : c.1.element.library ≠ hidden :=
      of_decide_eq_true (hreported.keep_rename hc)
    have hown : (d.rename r).span.file = some c.1.element.library :=
      hfile _ (hreported.rename_mem hc) _ (mem_map_of_mem hd)
    have hfile : d.span.file = some c.1.element.library := by
      rw [← hown]
      exact (r.file_span d.span).symm
    rw [hfile]
    simpa using helsewhere
  · intro c hc hhidden d hd
    have hlibrary : c.1.element.library = hidden := by
      simpa [ClassInfo.isElsewhere] using hhidden
    simp [Diagnostic.isElsewhere, hfile c hc d hd, hlibrary]

theorem interleaves_linkClasses (hw : w.libraries.Beside r hidden w'.libraries)
    (hcore : Library.coreUri ≠ hidden) (hscope : ∀ l ∈ w.libraries, l.ScopeDeclared)
    (hscope' : ∀ l ∈ w'.libraries, l.ScopeDeclared)
    (hwarnings : Interleaves (Diagnostic.isElsewhere hidden) (Diagnostic.rename r) w.warnings
      w'.warnings) :
    Interleaves (ClassInfo.isElsewhere hidden) (ClassInfo.rename r) w.linkClasses.classes
        w'.linkClasses.classes ∧
      Interleaves (Diagnostic.isElsewhere hidden) (Diagnostic.rename r) w.linkClasses.warnings
        w'.linkClasses.warnings := by
  have hlinked := interleaves_linkClass hw hcore
    (fun l hl c hc => ((hscope l hl).classes c hc).2)
    (fun l hl c hc => ((hscope' l hl).classes c hc).2)
  constructor
  · exact hlinked.map (fun _ _ => rfl) fun _ _ => rfl
  · refine hwarnings.append (interleaves_reports hlinked ?_)
    intro linked hmem d hd
    obtain ⟨l, -, hclass⟩ := mem_flatMap.mp hmem
    obtain ⟨c, -, rfl⟩ := mem_map.mp hclass
    rw [element_linkClass]
    exact (isDeclarative_of_mem_linkClass hd).file

theorem interleaves_declareMembers (hw : w.libraries.Beside r hidden w'.libraries)
    (hclasses : Interleaves (ClassInfo.isElsewhere hidden) (ClassInfo.rename r) w.classes
      w'.classes)
    (hwarnings : Interleaves (Diagnostic.isElsewhere hidden) (Diagnostic.rename r) w.warnings
      w'.warnings) :
    Interleaves (ClassInfo.isElsewhere hidden) (ClassInfo.rename r) w.declareMembers.classes
        w'.declareMembers.classes ∧
      Interleaves (Diagnostic.isElsewhere hidden) (Diagnostic.rename r) w.declareMembers.warnings
        w'.declareMembers.warnings := by
  have hdeclared : Interleaves (fun c => c.1.isElsewhere hidden)
      (fun c => (c.1.rename r, c.2.map (Diagnostic.rename r))) (w.classes.map w.withMembers)
      (w'.classes.map w'.withMembers) := by
    apply hclasses.map
    · intro c hc
      have helsewhere : c.element.library ≠ hidden :=
        of_decide_eq_true (hclasses.keep_rename hc)
      have hany : ((w'.libraries.find? c.element.library).any fun l =>
          counts l (c.element.rename r)) =
            (w.libraries.find? c.element.library).any fun l => counts l c.element := by
        rw [hw.find? helsewhere]
        cases w.libraries.find? c.element.library with
        | none => rfl
        | some l => exact counts_rename l c.element
      have hparts : (c.rename r).element = c.element.rename r := rfl
      rw [withMembers, withMembers, hparts, ClassElement.library_rename, hany, Members.ofClass_rename]
      split <;> rfl
    · intro c _
      simp only [ClassInfo.isElsewhere, withMembers_header]
  have hfile : ∀ c ∈ w'.classes.map w'.withMembers, ∀ d ∈ c.2,
      d.span.file = some c.1.element.library := by
    intro c hc d hd
    obtain ⟨c₀, -, rfl⟩ := mem_map.mp hc
    rw [(w'.withMembers_header c₀).1]
    exact (isDeclarative_of_mem_withMembers d hd).file
  exact ⟨hdeclared.map (fun _ _ => rfl) fun _ _ => rfl,
    hwarnings.append (interleaves_reports hdeclared hfile)⟩

theorem mirrors_ofUnits {before after : List CompilationUnit} {x : Option CompilationUnit}
    (hx : ∀ u ∈ x, u.uri = hidden) (hothers : ∀ u ∈ before ++ after, u.uri ≠ hidden)
    (hcore : Library.coreUri ≠ hidden)
    (hmentions : ∀ u ∈ before ++ after, ¬u.Mentions hidden) {m : Nat}
    (hr : r.Inserts (declare before).types.defs.size m (declare (before ++ after)).types.defs.size)
    (hm : (declare (before.map (CompilationUnit.relabel r) ++ x.toList)).types.defs.size =
      (declare before).types.defs.size + m) :
    (ofUnits (before ++ after)).Mirrors r hidden (ofUnits (r.unitsBeside before x after)) := by
  obtain ⟨hdeclared, htables, hclasses⟩ := declaresBeside_declare hx hothers hr hm
  generalize hunits : before ++ after = units at *
  generalize hunits' : r.unitsBeside before x after = units' at *
  have hunknown : hidden ∉ (declare units).libraries.map Library.uri := by
    intro hmem
    obtain ⟨l, hl, huri⟩ := mem_map.mp hmem
    exact hothers l.unit (unit_mem_of_mem_declare hl) huri
  have hlinked := hdeclared.linkDirectives hcore
    fun l hl => hmentions l.unit (unit_mem_of_mem_declare hl)
  have hbeside : (linked units).libraries.Beside r hidden
      (linked units').libraries :=
    ⟨hlinked.libraries, isApartFrom_linkDirectives (isApartFrom_declare hidden units) hunknown⟩
  have hbesideCore : (linked units).registerCore.libraries.Beside r hidden
      (linked units').registerCore.libraries := by
    rw [registerCore_libraries, registerCore_libraries]
    exact hbeside
  have hscope : ∀ units, ∀ l ∈ (linked units).registerCore.libraries,
      l.ScopeDeclared := by
    intro units
    rw [registerCore_libraries]
    exact (isDeclared_linked units).scope
  have hwarnings : Interleaves (Diagnostic.isElsewhere hidden) (Diagnostic.rename r)
      (linked units).registerCore.warnings
      (linked units').registerCore.warnings := by
    rw [warnings_registerCore, warnings_registerCore]
    exact hlinked.warnings
  obtain ⟨hlinkedClasses, hlinkedWarnings⟩ :=
    interleaves_linkClasses hbesideCore hcore (hscope units) (hscope units') hwarnings
  have hbesideLinked : (linked units).registerCore.linkClasses.libraries.Beside
      r hidden (linked units').registerCore.linkClasses.libraries := hbesideCore
  obtain ⟨hallClasses, hallWarnings⟩ :=
    interleaves_declareMembers hbesideLinked hlinkedClasses hlinkedWarnings
  obtain ⟨hsame, -⟩ := types_ofUnits units
  obtain ⟨hsame', -⟩ := types_ofUnits units'
  refine ⟨hbesideCore, hallClasses, hallWarnings, ?_, ?_, ?_, ?_⟩
  · intro c hc hlibrary
    obtain ⟨hmem, -⟩ := members_ofUnits hc
    obtain ⟨l, hl, hcl⟩ := mem_flatMap.mp hmem
    obtain ⟨l₀, hl₀, rfl⟩ := mem_linkDirectives.mp hl
    rw [(Library.link_declarations _ l₀).classes] at hcl
    have huri := (((isDeclared_declare units').scope l₀ hl₀).classes _ hcl).2
    exact hclasses l₀ hl₀ (huri.symm.trans hlibrary) c.element hcl
  · intro ty d hdef
    rw [hsame.same.def?] at hdef
    rw [hsame'.same.def?]
    exact htables.defs ty d hdef
  · rw [hsame.object, hsame'.object, coreClass?_beside hbeside hcore]
    cases (linked units).coreClass? "Object" <;> rfl
  · intro name
    have hcores : (linked units').registerCore.types.core =
        NameTable.mapValues r.type (linked units).registerCore.types.core := by
      apply core_registerCore hbeside hcore
      rw [(isDeclared_linked units').unlinked.core,
        (isDeclared_linked units).unlinked.core]
      rfl
    have hentered : ∀ units, (ofUnits units).types.core =
        (linked units).registerCore.types.core :=
      fun units => (foldl_enterParents _ _).2.2.1
    rw [TypeTable.coreType, TypeTable.coreType, hentered, hentered, hcores]
    exact NameTable.lookup_mapValues _ _ _

end Workspace

end CheckedThrows
