import CheckedThrows.Proofs.WorkspaceTypes
import CheckedThrows.Resolution.Facts

/-!
# Declarations that count

Of several declarations of one name the first counts, and each of the others is
reported.  So a declaration for which there is no such report is found under
its own number among the elements of the workspace.  The reports of a workspace
are about declarations, directives and headers; none is about a name in a body.
-/

namespace CheckedThrows

open List

variable (uri : String) {l : Library}

def declarationCodes : List String :=
  ["duplicate_library", "duplicate_definition", "uri_does_not_exist", "undefined_class"]

/-- A report that a workspace gives before any body is looked at. -/
def Diagnostic.IsDeclarative (d : Diagnostic) : Prop :=
  ∃ code ∈ declarationCodes, ∃ span message, d = warning code span message

/-- Such a report about a place in file `uri`. -/
structure Diagnostic.IsDeclarativeIn (uri : String) (d : Diagnostic) : Prop where
  declarative : d.IsDeclarative
  file : d.span.file = some uri

namespace Library

theorem node_elementOf (t : TypeTable) (d : Declaration) :
    (elementOf uri t d).1.id.node = d.id := by
  cases d <;> rfl

theorem isDeclarative_alreadyDefined (name : String) (place : Extent) :
    (alreadyDefined uri name place).IsDeclarativeIn uri :=
  ⟨⟨_, by decide, _, _, rfl⟩, rfl⟩

def Finds (l : Library) (warnings : List Diagnostic) (d : Declaration) : Prop :=
  alreadyDefined l.uri d.name d.info.extent ∈ warnings ∨ ∃ entry ∈ l.scope, entry.2.id.node = d.id

/-- Library `l'` and the reports come about by adding declarations to `l`. -/
structure Adds (l : Library) (ds : List Declaration) (l' : Library)
    (warnings : List Diagnostic) : Prop where
  unit : l'.unit = l.unit
  scope : l.scope ⊆ l'.scope
  classes : l.classes ⊆ l'.classes
  finds : ∀ d ∈ ds, l'.Finds warnings d
  classOf : ∀ d, Declaration.class d ∈ ds → ∃ c ∈ l'.classes, c.decl = d
  warnings : ∀ d ∈ warnings, d.IsDeclarativeIn l.uri

theorem Finds.mono {warnings warnings' : List Diagnostic} {d : Declaration}
    (hfinds : l.Finds warnings d) (hsub : warnings ⊆ warnings') : l.Finds warnings' d :=
  hfinds.imp_left fun hreport => hsub hreport

theorem mem_classes_elementOf (t : TypeTable) (d : ClassDecl) :
    ∃ c ∈ (elementOf uri t (.class d)).1.toClass?.toList, c.decl = d :=
  ⟨⟨d, uri, (t.newClass d.name uri).1⟩, mem_singleton.mpr rfl, rfl⟩

theorem adds_declareAll (l : Library) (t : TypeTable) (ds : List Declaration) :
    l.Adds ds (l.declareAll t ds).1 (l.declareAll t ds).2.2 := by
  induction ds generalizing l t with
  | nil =>
    exact ⟨rfl, List.Subset.refl _, List.Subset.refl _, by simp, by simp, by simp [declareAll]⟩
  | cons d ds ih =>
    have hrest := ih (l.enter (elementOf l.uri t d).1 d) (elementOf l.uri t d).2
    rw [declareAll_cons]
    refine ⟨hrest.unit, ?_, fun c hc => hrest.classes (mem_append_left _ hc), ?_, ?_, ?_⟩
    · intro entry hentry
      apply hrest.scope
      dsimp only [enter]
      split
      · exact hentry
      · exact mem_append_left _ hentry
    · intro d' hd'
      rcases mem_cons.mp hd' with rfl | hmem
      · by_cases htaken : (l.scope.lookup (key d')).isSome
        · rw [if_pos htaken]
          exact .inl mem_cons_self
        · refine .inr ⟨(key d', _), hrest.scope ?_, node_elementOf l.uri t d'⟩
          simp [enter, htaken]
      · apply (hrest.finds d' hmem).mono
        split
        · exact subset_cons_self _ _
        · exact List.Subset.refl _
    · intro c hc
      rcases mem_cons.mp hc with rfl | hmem
      · obtain ⟨c', hc', hdecl⟩ := mem_classes_elementOf l.uri t c
        exact ⟨c', hrest.classes (mem_append_right _ hc'), hdecl⟩
      · exact hrest.classOf c hmem
    · dsimp only
      split
      · have huri : uri _ = l.uri := congrArg CompilationUnit.uri hrest.unit
        rw [huri]
        exact forall_mem_cons.mpr ⟨isDeclarative_alreadyDefined _ _ _, hrest.warnings⟩
      · exact hrest.warnings

theorem isDeclarative_of_mem_linkDirective {known : List String} {d : Directive} :
    ∀ report ∈ (l.linkDirective known d).2, report.IsDeclarativeIn l.uri := by
  intro report hreport
  unfold linkDirective at hreport
  split at hreport
  · split at hreport <;> simp at hreport
  · obtain rfl := mem_singleton.mp hreport
    exact ⟨⟨_, by decide, _, _, rfl⟩, rfl⟩

theorem isDeclarative_of_mem_link {known : List String} {d : Diagnostic}
    (hd : d ∈ (l.link known).2) : d.IsDeclarativeIn l.uri := by
  obtain ⟨linked, ⟨-, hreports⟩, hlink⟩ := link_induction known
    (motive := fun linked : Library × List Diagnostic =>
      linked.1.unit = l.unit ∧ ∀ d ∈ linked.2, d.IsDeclarativeIn l.uri) ⟨rfl, by simp⟩ <| by
    rintro linked directive - ⟨hunit, hreports⟩
    have hsame := (linkDirective_declarations known linked.1 directive).unit
    have huri : linked.1.uri = l.uri := congrArg CompilationUnit.uri hunit
    exact ⟨hsame.trans hunit, forall_mem_append.mpr
      ⟨hreports, huri ▸ isDeclarative_of_mem_linkDirective⟩⟩
  rw [hlink] at hd
  exact hreports d hd

end Library

/-! ## Members -/

namespace Members

variable (owner : ClassElement) (m : Members)

def Finds (m : Members) (owner : ClassElement) (warnings : List Diagnostic) (d : Member) : Prop :=
  alreadyDefined owner.library d.name d.info.extent ∈ warnings ∨ ∃ e ∈ m.accepted, e.id.node = d.id

def IsPlain (e : Element) : Prop :=
  e.id.role = .declared ∧ e.toClass? = none

theorem accepted_addVariable (d : VarDecl) :
    (m.addVariable owner d).accepted =
      m.accepted ++ [.variable ⟨.declared d, owner.library, some owner⟩] := rfl

theorem accepted_addFunction (d : FunctionDecl) :
    (m.addFunction owner d).accepted =
      m.accepted ++ [.executable ⟨.declared d, owner.library, some owner⟩] := by
  unfold addFunction
  split <;> rfl

structure Adds (owner : ClassElement) (m : Members) (ds : List Member) (m' : Members)
    (warnings : List Diagnostic) : Prop where
  accepted : m.accepted ⊆ m'.accepted
  finds : ∀ d ∈ ds, m'.Finds owner warnings d
  plain : (∀ e ∈ m.accepted, IsPlain e) → ∀ e ∈ m'.accepted, IsPlain e
  warnings : ∀ d ∈ warnings, d.IsDeclarativeIn owner.library

theorem Adds.cons {owner : ClassElement} {m m' : Members} {d : Member} {e : Element}
    {ds : List Member} {warnings : List Diagnostic} {next : Members}
    (hnext : next.accepted = m.accepted ++ [e]) (hplain : IsPlain e) (hid : e.id.node = d.id)
    (hrest : next.Adds owner ds m' warnings) : m.Adds owner (d :: ds) m' warnings := by
  refine ⟨?_, ?_, ?_, hrest.warnings⟩
  · intro e' he'
    exact hrest.accepted (hnext ▸ mem_append_left _ he')
  · intro d' hd'
    rcases mem_cons.mp hd' with rfl | hmem
    · exact .inr ⟨e, hrest.accepted (hnext ▸ mem_append_right _ mem_cons_self), hid⟩
    · exact hrest.finds d' hmem
  · intro hm
    apply hrest.plain
    rw [hnext]
    exact forall_mem_append_singleton hm hplain

theorem adds_declareAll (ds : List Member) :
    m.Adds owner ds (m.declareAll owner ds).1 (m.declareAll owner ds).2 := by
  induction ds generalizing m with
  | nil => exact ⟨List.Subset.refl _, by simp, fun h => h, by simp [declareAll]⟩
  | cons d ds ih =>
    unfold declareAll
    split
    · cases d with
      | «variable» v => exact .cons (accepted_addVariable owner m v) ⟨rfl, rfl⟩ rfl (ih _)
      | function f => exact .cons (accepted_addFunction owner m f) ⟨rfl, rfl⟩ rfl (ih _)
    · have hrest := ih m
      refine ⟨hrest.accepted, ?_, hrest.plain, ?_⟩
      · intro d' hd'
        rcases mem_cons.mp hd' with rfl | hmem
        · exact .inl mem_cons_self
        · exact (hrest.finds d' hmem).imp_left (mem_cons_of_mem _)
      · exact forall_mem_cons.mpr
          ⟨Library.isDeclarative_alreadyDefined _ _ _, hrest.warnings⟩

theorem adds_ofClass :
    ({} : Members).Adds owner owner.decl.members (ofClass owner).1 (ofClass owner).2 := by
  have hadds := adds_declareAll owner {} owner.decl.members
  unfold ofClass
  dsimp only
  split
  · exact ⟨hadds.accepted, hadds.finds, hadds.plain, hadds.warnings⟩
  · exact hadds

end Members

/-! ## Workspaces -/

namespace Workspace

variable {w : Workspace} {l : Library}
variable (units : List CompilationUnit)

/-- Libraries that differ in their uris, whose declarations are found or
reported. -/
structure Counted (w : Workspace) : Prop where
  distinct : (w.libraries.map Library.uri).Nodup
  finds : ∀ l ∈ w.libraries, ∀ d ∈ l.unit.declarations, l.Finds w.warnings d
  classOf : ∀ l ∈ w.libraries, ∀ d, Declaration.class d ∈ l.unit.declarations →
    ∃ c ∈ l.classes, c.decl = d
  warnings : ∀ d ∈ w.warnings, d.IsDeclarative

theorem find?_eq_none_iff {ls : Libraries} {uri : String} :
    ls.find? uri = none ↔ uri ∉ ls.map Library.uri := by
  simp only [Libraries.find?, find?_eq_none, decide_eq_true_eq, mem_map, not_exists,
    not_and]

theorem Counted.addUnit (hw : w.Counted) (u : CompilationUnit) : (w.addUnit u).Counted := by
  unfold Workspace.addUnit
  split
  next =>
    refine ⟨hw.distinct, ?_, hw.classOf, ?_⟩
    · exact fun l hl d hd => (hw.finds l hl d hd).mono (subset_append_left _ _)
    · exact forall_mem_append_singleton hw.warnings ⟨_, by decide, _, _, rfl⟩
  next hnone =>
    have hadds := Library.adds_declareAll { unit := u } w.types u.declarations
    have hunit : (Library.ofUnit w.types u).1.unit = u := hadds.unit
    have hfree : u.uri ∉ w.libraries.map Library.uri := by
      rw [← find?_eq_none_iff]
      simpa using hnone
    refine ⟨?_, ?_, ?_, ?_⟩
    · rw [map_append, nodup_append]
      refine ⟨hw.distinct, by simp, ?_⟩
      intro uri huri uri' huri' heq
      obtain rfl : uri' = u.uri := by
        simpa [Library.uri, hunit] using huri'
      exact hfree (heq ▸ huri)
    · apply forall_mem_append_singleton
      · exact fun l hl d hd => (hw.finds l hl d hd).mono (subset_append_left _ _)
      · exact fun d hd => (hadds.finds d (hunit ▸ hd)).mono (subset_append_right _ _)
    · exact forall_mem_append_singleton hw.classOf fun d hd => hadds.classOf d (hunit ▸ hd)
    · exact forall_mem_append.mpr
        ⟨hw.warnings, fun d hd => (hadds.warnings d hd).declarative⟩

theorem counted_declare : (declare units).Counted :=
  List.foldlRecOn (motive := Counted) units _ ⟨by simp, by simp, by simp, by simp⟩
    fun _ hw u _ => hw.addUnit u

theorem Counted.linkDirectives (hw : w.Counted) : w.linkDirectives.Counted := by
  have hlibrary : ∀ l ∈ w.linkDirectives.libraries, ∃ l₀ ∈ w.libraries, l₀.SameDeclarations l := by
    intro l hl
    obtain ⟨l₀, hl₀, rfl⟩ := mem_linkDirectives.mp hl
    exact ⟨l₀, hl₀, Library.link_declarations _ l₀⟩
  have huris : w.linkDirectives.libraries.map Library.uri = w.libraries.map Library.uri := by
    simp [Workspace.linkDirectives, Library.uri, (Library.link_declarations _ _).unit]
  refine ⟨huris ▸ hw.distinct, ?_, ?_, ?_⟩
  · intro l hl d hd
    obtain ⟨l₀, hl₀, hsame⟩ := hlibrary l hl
    have hfinds : l₀.Finds w.linkDirectives.warnings d :=
      (hw.finds l₀ hl₀ d (hsame.unit ▸ hd)).mono (subset_append_left _ _)
    simp only [Library.Finds, Library.uri, hsame.unit, hsame.scope]
    exact hfinds
  · intro l hl d hd
    obtain ⟨l₀, hl₀, hsame⟩ := hlibrary l hl
    rw [hsame.classes]
    exact hw.classOf l₀ hl₀ d (hsame.unit ▸ hd)
  · refine forall_mem_append.mpr ⟨hw.warnings, fun d hd => ?_⟩
    obtain ⟨linked, hlinked, hmem⟩ := mem_flatMap.mp hd
    obtain ⟨l, -, rfl⟩ := mem_map.mp hlinked
    exact (Library.isDeclarative_of_mem_link hmem).declarative

theorem warnings_registerCore (w : Workspace) : w.registerCore.warnings = w.warnings := by
  unfold registerCore
  split <;> rfl

theorem isDeclarative_of_mem_linkClass {c : ClassElement}
    {d : Diagnostic} (hd : d ∈ (w.linkClass l c).2) : d.IsDeclarativeIn c.library := by
  have hheader : ∀ t, ∀ d ∈ (ClassInfo.headerClass w.libraries c.library t).2,
      d.IsDeclarativeIn c.library := by
    intro t d hd
    unfold ClassInfo.headerClass at hd
    split at hd
    · simp at hd
    · obtain rfl := mem_singleton.mp hd
      exact ⟨⟨_, by decide, _, _, rfl⟩, rfl⟩
  unfold linkClass at hd
  split at hd
  · rcases mem_append.mp hd with hsuper | hinterface
    · cases hsuperclass : c.decl.superclass with
      | none => simp [hsuperclass] at hsuper
      | some t => exact hheader t d (by simpa [hsuperclass] using hsuper)
    · obtain ⟨found, hfound, hmem⟩ := mem_flatMap.mp hinterface
      obtain ⟨t, -, rfl⟩ := mem_map.mp hfound
      exact hheader t d hmem
  · simp at hd

theorem warnings_linkClasses (w : Workspace) :
    ∃ more, w.linkClasses.warnings = w.warnings ++ more ∧ ∀ d ∈ more, d.IsDeclarative := by
  refine ⟨_, rfl, ?_⟩
  intro d hd
  simp only [mem_flatMap, mem_map] at hd
  obtain ⟨_, ⟨l, -, c, -, rfl⟩, hmem⟩ := hd
  exact (isDeclarative_of_mem_linkClass hmem).declarative

theorem isDeclarative_of_mem_withMembers {c : ClassInfo} :
    ∀ d ∈ (w.withMembers c).2, d.IsDeclarativeIn c.element.library := by
  rcases w.withMembers_eq c with heq | heq
  · simp [heq]
  · rw [heq]
    exact (Members.adds_ofClass c.element).warnings

theorem warnings_ofUnits :
    ∃ more, (ofUnits units).warnings = (linked units).warnings ++ more ∧
      ∀ d ∈ more, d.IsDeclarative := by
  obtain ⟨headers, hheaders, hheader⟩ :=
    warnings_linkClasses (linked units).registerCore
  rw [ofUnits, warnings_declareMembers, hheaders, warnings_registerCore, append_assoc]
  refine ⟨_, rfl, forall_mem_append.mpr ⟨hheader, fun d hd => ?_⟩⟩
  obtain ⟨c, -, hmem⟩ := mem_flatMap.mp hd
  exact (isDeclarative_of_mem_withMembers d hmem).declarative

theorem counted_ofUnits : (ofUnits units).Counted := by
  have hlinked := (counted_declare units).linkDirectives
  obtain ⟨more, hwarnings, hmore⟩ := warnings_ofUnits units
  have hlibraries := libraries_ofUnits units
  refine ⟨hlibraries ▸ hlinked.distinct, ?_, ?_, ?_⟩
  · intro l hl d hd
    rw [hwarnings]
    exact (hlinked.finds l (hlibraries ▸ hl) d hd).mono (subset_append_left _ _)
  · exact fun l hl => hlinked.classOf l (hlibraries ▸ hl)
  · rw [hwarnings]
    exact forall_mem_append.mpr ⟨hlinked.warnings, hmore⟩

theorem libraries_subset_foldl_addUnit (w : Workspace) :
    w.libraries ⊆ (units.foldl addUnit w).libraries := by
  induction units generalizing w with
  | nil => exact List.Subset.refl _
  | cons u units ih =>
    apply List.Subset.trans _ (ih (w.addUnit u))
    unfold addUnit
    split
    · exact List.Subset.refl _
    · exact subset_append_left _ _

theorem exists_library {before after : List CompilationUnit} {u : CompilationUnit}
    (hfirst : u.uri ∉ before.map CompilationUnit.uri) :
    ∃ l ∈ (ofUnits (before ++ u :: after)).libraries, l.unit = u := by
  have hnone : (declare before).libraries.find? u.uri = none := by
    rw [find?_eq_none_iff]
    intro hmem
    obtain ⟨l, hl, huri⟩ := mem_map.mp hmem
    exact hfirst (huri ▸ mem_map_of_mem (unit_mem_of_mem_declare hl))
  obtain ⟨l, hl, hunit⟩ : ∃ l ∈ ((declare before).addUnit u).libraries, l.unit = u := by
    unfold addUnit
    rw [hnone]
    refine ⟨_, mem_append_right _ mem_cons_self, ?_⟩
    exact (Library.adds_declareAll _ _ _).unit
  have hdeclared : l ∈ (declare (before ++ u :: after)).libraries := by
    rw [declare, foldl_append, foldl_cons]
    exact libraries_subset_foldl_addUnit after _ hl
  refine ⟨(l.link ((declare (before ++ u :: after)).libraries.map Library.uri)).1, ?_,
    (Library.link_declarations _ l).unit.trans hunit⟩
  rw [libraries_ofUnits]
  exact mem_map_of_mem (mem_map_of_mem hdeclared)

theorem Counted.find?_uri (hw : w.Counted) (hl : l ∈ w.libraries) :
    w.libraries.find? l.uri = some l := by
  have hdistinct := hw.distinct
  generalize w.libraries = ls at hl hdistinct
  induction ls with
  | nil => simp at hl
  | cons l' ls ih =>
    obtain ⟨hnew, hrest⟩ := nodup_cons.mp hdistinct
    rcases mem_cons.mp hl with rfl | hmem
    · simp [Libraries.find?]
    · have hne : l'.uri ≠ l.uri := fun heq => hnew (heq ▸ mem_map_of_mem hmem)
      have hfound := ih hmem hrest
      simp only [Libraries.find?] at hfound ⊢
      rw [find?_cons_of_neg (by simpa using hne)]
      exact hfound

theorem exists_members {c : ClassInfo} (hc : c ∈ w.classes)
    (hcounts : ((w.libraries.find? c.element.library).any fun l => counts l c.element) = true) :
    ∃ i ∈ w.declareMembers.classes, i.element = c.element ∧
      i.members = (Members.ofClass c.element).1 ∧
      (Members.ofClass c.element).2 ⊆ w.declareMembers.warnings := by
  have hwith : w.withMembers c = ({ c with members := (Members.ofClass c.element).1 },
      (Members.ofClass c.element).2) := if_pos hcounts
  rw [classes_declareMembers, warnings_declareMembers]
  refine ⟨(w.withMembers c).1, mem_map_of_mem hc, by rw [hwith], by rw [hwith], ?_⟩
  intro d hd
  refine mem_append_right _ (mem_flatMap.mpr ⟨c, hc, ?_⟩)
  rw [hwith]
  exact hd

theorem exists_members_ofUnits {units : List CompilationUnit}
    (hl : l ∈ (ofUnits units).libraries) {c : ClassElement} (hc : c ∈ l.classes)
    (hentry : ∃ entry ∈ l.scope, entry.2.id.node = c.decl.id) :
    ∃ i ∈ (ofUnits units).classes, i.element = c ∧ i.members = (Members.ofClass c).1 ∧
      (Members.ofClass c).2 ⊆ (ofUnits units).warnings := by
  have hcounted := counted_ofUnits units
  let w := (linked units).registerCore.linkClasses
  have hlibraries : w.libraries = (ofUnits units).libraries := rfl
  have hlibrary : c.library = l.uri := by
    rw [libraries_ofUnits] at hl
    exact ((isDeclared_linked units).scope l hl |>.classes c hc).2
  have hcounts : counts l c = true := by
    obtain ⟨entry, hmem, hid⟩ := hentry
    simp only [counts, Library.declared?, Option.isSome_map, find?_isSome]
    exact ⟨entry, hmem, by simpa using hid⟩
  let header := ((linked units).registerCore.linkClass l c).1
  have helement : header.element = c := by
    simp only [header, linkClass, hcounts, if_true]
    rfl
  have hheader : header ∈ w.classes := by
    refine mem_map_of_mem (mem_flatMap.mpr ⟨l, ?_, mem_map_of_mem hc⟩)
    exact hl
  have hany : ((w.libraries.find? header.element.library).any fun l =>
      counts l header.element) = true := by
    rw [helement, hlibrary, hlibraries, hcounted.find?_uri hl]
    exact hcounts
  obtain ⟨i, hi, hsame, hmembers, hwarnings⟩ := exists_members hheader hany
  rw [helement] at hsame hmembers hwarnings
  exact ⟨i, hi, hsame, hmembers, hwarnings⟩

theorem exists_class {units : List CompilationUnit} (hl : l ∈ (ofUnits units).libraries)
    {d : ClassDecl} (hd : Declaration.class d ∈ l.unit.declarations)
    (hentry : ∃ entry ∈ l.scope, entry.2.id.node = d.id) :
    ∃ i ∈ (ofUnits units).classes, i.element.decl = d ∧ i.element.library = l.uri ∧
      ∀ m ∈ d.members, i.members.Finds i.element (ofUnits units).warnings m := by
  obtain ⟨c, hc, rfl⟩ := (counted_ofUnits units).classOf l hl d hd
  obtain ⟨i, hi, rfl, hmembers, hwarnings⟩ := exists_members_ofUnits hl hc hentry
  have hlibrary : i.element.library = l.uri := by
    rw [libraries_ofUnits] at hl
    exact ((isDeclared_linked units).scope l hl |>.classes i.element hc).2
  refine ⟨i, hi, rfl, hlibrary, fun m hm => ?_⟩
  rw [Members.Finds, hmembers]
  exact ((Members.adds_ofClass i.element).finds m hm).imp_left fun hreport => hwarnings hreport

end Workspace

/-! ## What is declared from the start -/

namespace Facts

theorem isSome_declared_initial {w : Workspace} {e : Element} (he : e ∈ w.accepted) :
    ((initial w).declared[e.id.node]?).isSome := by
  have hfold : ∀ (es : List Element) (declared : NodeMap Element),
      (e ∈ es ∨ (declared[e.id.node]?).isSome) →
      ((es.foldl (fun declared e => declared.insert e.id.node e) declared)[e.id.node]?).isSome := by
    intro es
    induction es with
    | nil => exact fun _ h => h.resolve_left (not_mem_nil)
    | cons e' es ih =>
      intro declared h
      apply ih
      rw [Std.TreeMap.getElem?_insert]
      rcases h with hmem | hold
      · rcases mem_cons.mp hmem with rfl | hrest
        · exact .inr (by simp)
        · exact .inl hrest
      · right
        split
        · rfl
        · exact hold
  exact hfold w.accepted {} (.inl he)

end Facts

end CheckedThrows
