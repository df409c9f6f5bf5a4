import CheckedThrows.Proofs.MirroredLookups
import CheckedThrows.Proofs.TypeOrder

/-!
# The hierarchy of a class

Members are inherited along the classes that the headers name, and subtyping
follows the edges of the type table.  Both are breadth-first searches over the
same graph, and find the same in the same order.  Only the class `Object` may
come in addition, at the end of the supertypes of a class that does not lead to
it.
-/

namespace CheckedThrows

open List

variable {c d : ClassInfo}

namespace Workspace

theorem elements_declareMembers (w : Workspace) :
    w.declareMembers.classes.map ClassInfo.element = w.classes.map ClassInfo.element := by
  simp only [declareMembers, map_map]
  apply map_congr_left
  intro c _
  simp only [Function.comp_apply]
  split <;> rfl

section
variable (units : List CompilationUnit)

theorem elements_ofUnits :
    (ofUnits units).classes.map ClassInfo.element =
      (linked units).declaredClasses := by
  rw [ofUnits, elements_declareMembers, elements_linkClasses, declaredClasses_registerCore]

theorem nodup_types_ofUnits : ((ofUnits units).classes.map ClassInfo.type).Nodup := by
  have hnodup := (isDeclared_linked units).registered.distinct
  rw [← elements_ofUnits, map_map] at hnodup
  exact hnodup

variable {units}

theorem eq_of_type_eq (hc : c ∈ (ofUnits units).classes) (hd : d ∈ (ofUnits units).classes)
    (htype : c.type = d.type) : c = d :=
  inj_on_of_nodup_map (nodup_types_ofUnits units) hc hd htype

theorem classInfo?_eq_some_iff {ty : TypeId} :
    (ofUnits units).classInfo? ty = some c ↔ c ∈ (ofUnits units).classes ∧ c.type = ty := by
  constructor
  · intro hfind
    exact ⟨mem_of_find?_eq_some hfind, by simpa using find?_some hfind⟩
  · rintro ⟨hc, rfl⟩
    have hsome : ((ofUnits units).classInfo? c.type).isSome = true :=
      find?_isSome.mpr ⟨c, hc, by simp⟩
    obtain ⟨d, hd⟩ := Option.isSome_iff_exists.mp hsome
    have htype : d.type = c.type := by simpa using find?_some hd
    rw [hd, eq_of_type_eq (mem_of_find?_eq_some hd) hc htype]

theorem exists_class_of_mem_parentTypes {ty parent : TypeId}
    (hparent : parent ∈ (ofUnits units).parentTypes ty) :
    ∃ c ∈ (ofUnits units).classes, c.type = parent := by
  have hdecl := isDeclared_linked units
  rw [ofUnits, parentTypes_declareMembers, parentTypes] at hparent
  cases hinfo : (linked units).registerCore.linkClasses.classInfo? ty with
  | none => simp [hinfo] at hparent
  | some i =>
    rw [hinfo] at hparent
    obtain ⟨c, hc, rfl⟩ := mem_map.mp hparent
    have hmem := mem_declaredClasses_of_parents hdecl (mem_of_find?_eq_some hinfo) hc
    rw [← elements_ofUnits] at hmem
    obtain ⟨j, hj, rfl⟩ := mem_map.mp hmem
    exact ⟨j, hj, rfl⟩

/-! ## The two searches -/

theorem breadthFirst_parentTypes (ty : TypeId) :
    breadthFirst (ofUnits units).parentTypes ((ofUnits units).parentCount + 2) [] [ty] =
      ty :: (ofUnits units).types.reachable ty := by
  have hbound := (ofUnits units).boundsEdges_parentTypes
  have hsuper : (ofUnits units).types.supertypes =
      fun a => ((ofUnits units).parentTypes a).filter (· ≠ a) :=
    funext (supertypes_ofUnits units)
  have hqueue : ((ofUnits units).parentTypes ty).filter (· ∉ [ty]) =
      (ofUnits units).types.supertypes ty := by
    rw [supertypes_ofUnits]
    exact filter_congr fun a _ => by simp
  have hspent := hbound [] ty (by simp)
  have hcount := (ofUnits units).pendingParents_le_parentCount []
  have hless := length_filter_le (fun a => decide (a ∉ [ty])) ((ofUnits units).parentTypes ty)
  have hedges := (ofUnits units).types.pendingEdges_le_edgeCount [ty]
  rw [hqueue] at hless
  calc
    _ = ty :: breadthFirst (ofUnits units).parentTypes ((ofUnits units).parentCount + 1) [ty]
          ((ofUnits units).parentTypes ty) := rfl
    _ = ty :: breadthFirst (ofUnits units).parentTypes
          ((ofUnits units).parentCount + (ofUnits units).types.edgeCount + 1) [ty]
          ((ofUnits units).types.supertypes ty) := by
        rw [← hqueue, breadthFirst_filter hbound (by omega)]
        exact congrArg _ (breadthFirst_congr_fuel hbound (by omega) (by omega))
    _ = ty :: breadthFirst (ofUnits units).types.supertypes
          ((ofUnits units).parentCount + (ofUnits units).types.edgeCount + 1) [ty]
          ((ofUnits units).types.supertypes ty) := by
        nth_rewrite 2 [hsuper]
        rw [breadthFirst_irreflexive hbound (by omega)]
    _ = _ :=
        congrArg _ (breadthFirst_congr_fuel (ofUnits units).types.boundsEdges_supertypes (by omega)
          (by omega))

theorem map_type_filterMap_classInfo? {types : List TypeId}
    (hclasses : ∀ ty ∈ types, ∃ c ∈ (ofUnits units).classes, c.type = ty) :
    (types.filterMap (ofUnits units).classInfo?).map ClassInfo.type = types := by
  induction types with
  | nil => rfl
  | cons ty types ih =>
    obtain ⟨hfirst, hrest⟩ := forall_mem_cons.mp hclasses
    obtain ⟨c, hc, htype⟩ := hfirst
    rw [filterMap_cons_some (classInfo?_eq_some_iff.mpr ⟨hc, htype⟩), map_cons, htype,
      ih hrest]

theorem types_hierarchy (hc : c ∈ (ofUnits units).classes) :
    ((ofUnits units).hierarchy c.element).map ClassInfo.type =
      c.type :: (ofUnits units).types.reachable c.type := by
  have hfound : ∀ ty ∈ c.type :: (ofUnits units).types.reachable c.type,
      ∃ d ∈ (ofUnits units).classes, d.type = ty := by
    intro ty hty
    rcases mem_cons.mp hty with rfl | hreach
    · exact ⟨c, hc, rfl⟩
    · rw [TypeTable.mem_reachable_iff] at hreach
      obtain ⟨below, -, hedge⟩ := Relation.TransGen.tail'_iff.mp hreach.2
      rw [Edge, supertypes_ofUnits] at hedge
      exact exists_class_of_mem_parentTypes (mem_of_mem_filter hedge)
  have hsearch := @breadthFirst_parentTypes units c.type
  rw [hierarchy, show c.element.type = c.type from rfl, hsearch,
    map_type_filterMap_classInfo? hfound]

theorem mem_hierarchy_iff (hc : c ∈ (ofUnits units).classes) (hd : d ∈ (ofUnits units).classes) :
    d ∈ (ofUnits units).hierarchy c.element ↔
      d.type ∈ c.type :: (ofUnits units).types.reachable c.type := by
  rw [← types_hierarchy hc]
  constructor
  · exact mem_map_of_mem
  · intro hmem
    obtain ⟨e, he, htype⟩ := mem_map.mp hmem
    obtain ⟨ty, -, hinfo⟩ := mem_filterMap.mp he
    obtain ⟨hclass, -⟩ := classInfo?_eq_some_iff.mp hinfo
    rwa [← eq_of_type_eq hclass hd htype]

/-- A class leads to another if it is that class, or its header names one that
leads to it. -/
def LeadsTo (w : Workspace) (sub sup : TypeId) : Prop :=
  Relation.ReflTransGen (Edge w.parentTypes) sub sup

theorem mem_cons_reachable_iff {sub sup : TypeId} :
    sup ∈ sub :: (ofUnits units).types.reachable sub ↔ (ofUnits units).LeadsTo sub sup := by
  have hedge : ∀ a b, Edge (ofUnits units).types.supertypes a b ↔
      Edge (ofUnits units).parentTypes a b ∧ b ≠ a := by
    intro a b
    rw [Edge, Edge, supertypes_ofUnits, mem_filter, decide_eq_true_eq]
  have hpaths : Relation.ReflTransGen (Edge (ofUnits units).types.supertypes) sub sup ↔
      (ofUnits units).LeadsTo sub sup := by
    constructor
    · intro hpath
      exact Relation.ReflTransGen.mono (fun a b hab => ((hedge a b).mp hab).1) _ _ hpath
    · intro hlead
      induction hlead with
      | refl => exact .refl
      | @tail a b _ hab ih =>
        by_cases heq : b = a
        · rwa [heq]
        · exact ih.tail ((hedge a b).mpr ⟨hab, heq⟩)
  rw [← hpaths, mem_cons, TypeTable.mem_reachable_iff, Relation.reflTransGen_iff_eq_or_transGen]
  by_cases heq : sup = sub <;> simp [heq]

end

end Workspace

namespace Program

section
variable {units : List CompilationUnit}

theorem reachable_ofUnits (ty : TypeId) :
    (ofUnits units).types.reachable ty = (Workspace.ofUnits units).types.reachable ty := by
  have hedges : (ofUnits units).types.edges = (Workspace.ofUnits units).types.edges :=
    (Program.typed_ofUnits units).tables.edges
  have hsuper : (ofUnits units).types.supertypes = (Workspace.ofUnits units).types.supertypes := by
    funext a
    rw [TypeTable.supertypes, TypeTable.supertypes, hedges]
  rw [TypeTable.reachable, TypeTable.reachable, TypeTable.edgeCount, TypeTable.edgeCount, hedges,
    hsuper]

theorem hasClass_of_mem_classes (hc : c ∈ (Workspace.ofUnits units).classes) :
    (ofUnits units).types.HasClass c.type :=
  ((Workspace.typed_ofUnits units).classes c hc).mono (Program.typed_ofUnits units).tables.grows

theorem allSupertypes_eq (hc : c ∈ (Workspace.ofUnits units).classes) :
    (∀ object, (ofUnits units).types.object = some object →
        ¬(Workspace.ofUnits units).LeadsTo c.type object →
        (ofUnits units).types.allSupertypes c.type =
          .ok ((ofUnits units).types.reachable c.type ++ [object])) ∧
      ((∀ object, (ofUnits units).types.object = some object →
          (Workspace.ofUnits units).LeadsTo c.type object) →
        (ofUnits units).types.allSupertypes c.type =
          .ok ((ofUnits units).types.reachable c.type)) := by
  obtain ⟨name, library, hdef⟩ := hasClass_of_mem_classes hc
  unfold TypeTable.allSupertypes
  constructor
  · intro object hobject hlead
    rw [← Workspace.mem_cons_reachable_iff, ← reachable_ofUnits] at hlead
    simp [hobject, hlead, TypeTable.get, hdef, TypeDef.isClass, bind, Except.bind, pure,
      Except.pure]
  · intro hlead
    cases hobject : (ofUnits units).types.object with
    | none => rfl
    | some object =>
      have hmem := hlead object hobject
      rw [← Workspace.mem_cons_reachable_iff, ← reachable_ofUnits] at hmem
      simp [hmem]

theorem isSubtype_classes_iff (hc : c ∈ (Workspace.ofUnits units).classes)
    (hd : d ∈ (Workspace.ofUnits units).classes) :
    (ofUnits units).types.isSubtype c.type d.type = true ↔
      d.type ∈ c.type :: (ofUnits units).types.reachable c.type ∨
        (ofUnits units).types.object = some d.type := by
  have hwf : (ofUnits units).types.WellFormed := (Program.typed_ofUnits units).wellFormed
  obtain ⟨name, library, hcDef⟩ := hasClass_of_mem_classes hc
  obtain ⟨name', library', hdDef⟩ := hasClass_of_mem_classes hd
  rw [TypeTable.isSubtype_iff hwf]
  constructor
  · rintro (heq | ⟨cDef, dDef, hcDef', hdDef', hrelated⟩)
    · exact .inl (heq ▸ mem_cons_self)
    · obtain rfl := Option.some.inj (hcDef.symm.trans hcDef')
      obtain rfl := Option.some.inj (hdDef.symm.trans hdDef')
      rcases hrelated with htop | hobject | hnever | ⟨-, -, hreach⟩ | ⟨_, _, _, _, hfunction, -⟩
      · cases htop
      · exact .inr hobject
      · cases hnever
      · exact .inl (mem_cons_of_mem _ hreach)
      · cases hfunction
  · rintro (hmem | hobject)
    · rcases mem_cons.mp hmem with heq | hreach
      · exact .inl heq.symm
      · exact .inr ⟨_, _, hcDef, hdDef, .inr (.inr (.inr (.inl ⟨rfl, rfl, hreach⟩)))⟩
    · exact .inr ⟨_, _, hcDef, hdDef, .inr (.inl hobject)⟩

end

/-- Members are inherited from the classes that are supertypes, in the same
order.  Only `Object` may be a supertype in addition, and it is the last one. -/
theorem hierarchy_agrees_with_supertypes (units : List CompilationUnit) :
    (∀ c ∈ (ofUnits units).workspace.classes, ∃ above,
      ((ofUnits units).workspace.hierarchy c.element).map ClassInfo.type = c.type :: above ∧
      (∀ object, (ofUnits units).types.object = some object →
        ¬(ofUnits units).workspace.LeadsTo c.type object →
        (ofUnits units).types.allSupertypes c.type = .ok (above ++ [object])) ∧
      ((∀ object, (ofUnits units).types.object = some object →
          (ofUnits units).workspace.LeadsTo c.type object) →
        (ofUnits units).types.allSupertypes c.type = .ok above)) ∧
    ∀ c ∈ (ofUnits units).workspace.classes, ∀ d ∈ (ofUnits units).workspace.classes,
      ((ofUnits units).types.isSubtype c.type d.type = true ↔
        d ∈ (ofUnits units).workspace.hierarchy c.element ∨
          (ofUnits units).types.object = some d.type) := by
  constructor
  · intro c hc
    refine ⟨(ofUnits units).types.reachable c.type, ?_, allSupertypes_eq hc⟩
    rw [reachable_ofUnits]
    exact Workspace.types_hierarchy hc
  · intro c hc d hd
    rw [isSubtype_classes_iff hc hd, reachable_ofUnits]
    exact or_congr_left (Workspace.mem_hierarchy_iff hc hd).symm

/-! A class that extends itself, and two classes that extend each other, one of
which also has the first as an interface: none of them leads to `Object`. -/

namespace LoopExample

def core : CompilationUnit where
  id := 1
  extent := none
  uri := "dart:core"
  directives := []
  declarations := [.class ⟨.bare 2, "Object", [], none, [], false, []⟩]
  comments := []

def unit : CompilationUnit where
  id := 3
  extent := none
  uri := "a.dart"
  directives := []
  declarations := [
    .class ⟨.bare 4, "A", [], some (.bare 5 "A"), [], false, []⟩,
    .class ⟨.bare 6, "B", [], some (.bare 7 "C"), [.bare 8 "A"], false, []⟩,
    .class ⟨.bare 9, "C", [], some (.bare 10 "B"), [], false, []⟩]
  comments := []

theorem found :
    (Workspace.ofUnits [core, unit]).classes.map ClassInfo.type = [5, 6, 7, 8] ∧
      (Program.ofUnits [core, unit]).types.object = some 5 ∧
      (Workspace.ofUnits [core, unit]).types.reachable 7 = [8, 6] ∧
      (Program.ofUnits [core, unit]).types.isSubtype 7 6 = true := by
  decide +kernel

end LoopExample

open LoopExample in
theorem loops_agree_with_supertypes :
    ∃ c ∈ (ofUnits [core, unit]).workspace.classes,
      ∃ d ∈ (ofUnits [core, unit]).workspace.classes, c.type = 7 ∧ d.type = 6 ∧
        ((ofUnits [core, unit]).workspace.hierarchy c.element).map ClassInfo.type = [7, 8, 6] ∧
        (ofUnits [core, unit]).types.allSupertypes 7 = .ok [8, 6, 5] ∧
        d ∈ (ofUnits [core, unit]).workspace.hierarchy c.element := by
  obtain ⟨hclasses, hobject, hreach, hsub⟩ := found
  have hclass : ∀ ty ∈ [5, 6, 7, 8], ∃ c ∈ (ofUnits [core, unit]).workspace.classes,
      c.type = ty := by
    intro ty hty
    exact mem_map.mp (hclasses ▸ hty)
  obtain ⟨c, hc, hctype⟩ := hclass 7 (by decide)
  obtain ⟨d, hd, hdtype⟩ := hclass 6 (by decide)
  obtain ⟨hsame, hsubtypes⟩ := hierarchy_agrees_with_supertypes [core, unit]
  obtain ⟨above, hfound, hwithObject, -⟩ := hsame c hc
  have htypes := hfound.symm.trans (Workspace.types_hierarchy hc)
  rw [hctype, hreach, List.cons.injEq] at htypes
  have hlead : ¬(Workspace.ofUnits [core, unit]).LeadsTo c.type 5 := by
    rw [← Workspace.mem_cons_reachable_iff, hctype, hreach]
    decide
  have hsuper := hwithObject 5 hobject hlead
  rw [hctype, htypes.2] at hfound hsuper
  refine ⟨c, hc, d, hd, hctype, hdtype, hfound, hsuper, ?_⟩
  rcases (hsubtypes c hc d hd).mp (by rw [hctype, hdtype, hsub]) with hmem | htop
  · exact hmem
  · rw [hobject, hdtype] at htop
    cases htop

end Program

end CheckedThrows
