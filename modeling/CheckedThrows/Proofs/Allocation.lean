import CheckedThrows.Proofs.SoundBodies

/-!
# Types that are in the table

Whatever number of a type a program keeps, in an element, in a table of facts or
above a class, is the number of a type of its table.  So no step of linking or
resolving ever asks for a type that is not there.
-/

namespace CheckedThrows

open List

variable {c : ClassElement}

/-- The table knows both ends of every edge. -/
def TypeTable.Closed (t : TypeTable) : Prop :=
  ∀ edge ∈ t.edges, t.Has edge.1 ∧ ∀ above ∈ edge.2, t.Has above

theorem TypeTable.Closed.setSupertypes {t t' : TypeTable} (ht : t.Closed) {ty : TypeId}
    {supers : List TypeId} (hty : t.Has ty) (hsupers : ∀ above ∈ supers, t.Has above)
    (hset : t.setSupertypes ty supers = .ok t') : t'.Closed := by
  unfold TypeTable.setSupertypes at hset
  split at hset
  · obtain rfl := Except.ok.inj hset
    intro edge hedge
    rcases mem_cons.mp hedge with rfl | hold
    · exact ⟨hty, fun above habove => hsupers above (mem_filter.mp habove).1⟩
    · exact ht edge (mem_filter.mp hold).1
  · cases hset

namespace Workspace

theorem closed_foldl_enterParents {linked : List ClassInfo}
    {entered : TypeTable × List UnknownType} (ht : entered.1.Closed)
    (hclasses : ∀ i ∈ linked, entered.1.HasClass i.type ∧
      ∀ c ∈ i.parents, entered.1.HasClass c.type) :
    (linked.foldl enterParents entered).1.Closed := by
  induction linked generalizing entered with
  | nil => exact ht
  | cons i linked ih =>
    obtain ⟨hclass, hparents⟩ := hclasses i mem_cons_self
    rw [foldl_cons]
    unfold enterParents
    split
    next t hset =>
      obtain ⟨hsame, -, -⟩ := TypeTable.setSupertypes_same hset
      apply ih
      · apply ht.setSupertypes hclass.has _ hset
        exact forall_mem_map.mpr fun c hc => (hparents c hc).has
      · intro i' hi'
        obtain ⟨hclass', hparents'⟩ := hclasses i' (mem_cons_of_mem i hi')
        exact ⟨hclass'.mono hsame.grows, fun c hc => (hparents' c hc).mono hsame.grows⟩
    next => exact ih ht fun i' hi' => hclasses i' (mem_cons_of_mem i hi')

theorem mem_declaredClasses_of_headerClass {w : Workspace} (hdecl : w.IsDeclared) {uri : String}
    {t : TypeName}
    (hheader : (ClassInfo.headerClass w.libraries uri t).1 = some c) : c ∈ w.declaredClasses := by
  unfold ClassInfo.headerClass at hheader
  split at hheader
  next c' hnamed =>
    obtain rfl := Option.some.inj hheader
    obtain ⟨e, hlookup, hto⟩ := Option.bind_eq_some_iff.mp hnamed
    obtain ⟨l, hl, hentry⟩ := Libraries.mem_scope_of_lookup hlookup
    cases e with
    | «class» c₀ =>
      obtain rfl := Option.some.inj hto
      exact mem_flatMap.mpr ⟨l, hl, (hdecl.scope l hl).scope _ hentry⟩
    | _ => cases hto
  next => cases hheader

theorem mem_declaredClasses_of_parents {w : Workspace} (hdecl : w.IsDeclared) {i : ClassInfo}
    (hi : i ∈ w.registerCore.linkClasses.classes) (hc : c ∈ i.parents) :
    c ∈ w.declaredClasses := by
  obtain ⟨-, -, hparents⟩ := mem_classes_linkClasses hi
  rcases hparents with hempty | hlink
  · rw [hempty] at hc
    cases hc
  · rw [hlink, registerCore_libraries, coreClass?, registerCore_libraries] at hc
    rcases mem_append.mp hc with hsuper | hinterface
    · rcases Option.or_eq_some_iff.mp (Option.mem_toList.mp hsuper) with hnamed | ⟨-, hobject⟩
      · obtain ⟨named, hnamed, hfound⟩ := Option.bind_eq_some_iff.mp hnamed
        obtain ⟨t, -, rfl⟩ := Option.map_eq_some_iff.mp hnamed
        exact mem_declaredClasses_of_headerClass hdecl hfound
      · exact mem_declaredClasses_of_coreClass? hdecl (Option.filter_eq_some_iff.mp hobject).1
    · obtain ⟨named, hnamed, hfound⟩ := mem_filterMap.mp hinterface
      obtain ⟨t, -, rfl⟩ := mem_map.mp hnamed
      exact mem_declaredClasses_of_headerClass hdecl hfound

section
variable (units : List CompilationUnit)

theorem hasClass_linked :
    ∀ i ∈ (linked units).registerCore.linkClasses.classes,
      (linked units).registerCore.types.HasClass i.type ∧
        ∀ c ∈ i.parents, (linked units).registerCore.types.HasClass c.type := by
  intro i hi
  have hdecl := isDeclared_linked units
  have hgrows := (coreRegistered_registerCore hdecl).same.grows
  obtain ⟨hdeclared, -, -⟩ := mem_classes_linkClasses hi
  rw [declaredClasses, registerCore_libraries] at hdeclared
  refine ⟨(hdecl.registered.hasClass i.element hdeclared).mono hgrows, fun c hc => ?_⟩
  exact (hdecl.registered.hasClass c (mem_declaredClasses_of_parents hdecl hi hc)).mono hgrows

theorem closed_ofUnits : (ofUnits units).types.Closed := by
  apply closed_foldl_enterParents _ (hasClass_linked units)
  have hdecl := isDeclared_linked units
  intro edge hedge
  rw [registerCore_edges, hdecl.unlinked.edges] at hedge
  cases hedge

theorem faults_ofUnits : (ofUnits units).faults = [] := by
  have hlinked := foldl_enterParents
    (linked units).registerCore.linkClasses.classes
    ((linked units).registerCore.types,
      (linked units).registerCore.faults)
  have hnone : (linked units).registerCore.faults = [] := by
    have hadd : ∀ (w : Workspace) (u : CompilationUnit), (w.addUnit u).faults = w.faults := by
      intro w u
      unfold addUnit
      split <;> rfl
    have hdeclare : (declare units).faults = [] :=
      List.foldlRecOn (motive := fun w : Workspace => w.faults = []) units _ rfl
        fun w hw u _ => (hadd w u).trans hw
    unfold registerCore
    split <;> exact hdeclare
  obtain ⟨-, -, -, -, hfaults⟩ := hlinked
  exact (hfaults fun i hi => (hasClass_linked units i hi).1).trans hnone

theorem hasClass_parents {i : ClassInfo} (hi : i ∈ (ofUnits units).classes)
    (hc : c ∈ i.parents) : (ofUnits units).types.HasClass c.type := by
  rw [ofUnits, classes_declareMembers] at hi
  obtain ⟨i₀, hi₀, rfl⟩ := mem_map.mp hi
  rw [(withMembers_header _ i₀).2] at hc
  have hdecl := isDeclared_linked units
  obtain ⟨hcore, -⟩ := types_ofUnits units
  exact (hdecl.registered.hasClass c (mem_declaredClasses_of_parents hdecl hi₀ hc)).mono hcore.same.grows

end

end Workspace

/-- Every type that a program keeps is in its table. -/
structure Program.Allocated (p : Program) : Prop where
  workspace : p.workspace.Typed
  parents : ∀ i ∈ p.workspace.classes, ∀ c ∈ i.parents, p.workspace.types.HasClass c.type
  facts : p.facts.Sound (fun _ => True) p.workspace
  edges : p.types.Closed

theorem Program.allocated_ofUnits (units : List CompilationUnit) : (ofUnits units).Allocated := by
  have hfacts := Program.typed_ofUnits units
  refine ⟨Workspace.typed_ofUnits units, fun i hi c hc => Workspace.hasClass_parents units hi hc,
    hfacts, ?_⟩
  intro edge hedge
  rw [Program.types, hfacts.tables.edges] at hedge
  obtain ⟨hbelow, habove⟩ := Workspace.closed_ofUnits units edge hedge
  exact ⟨hbelow.mono hfacts.tables.grows, fun ty hty => (habove ty hty).mono hfacts.tables.grows⟩

theorem Program.faults_ofUnits (units : List CompilationUnit) : (ofUnits units).faults = [] := by
  have hworkspace : (ofUnits units).workspace.faults = [] := Workspace.faults_ofUnits units
  rw [Program.faults, hworkspace, (Program.typed_ofUnits units).faults]
  rfl

end CheckedThrows
