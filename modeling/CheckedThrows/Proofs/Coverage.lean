import CheckedThrows.Proofs.Allocation
import CheckedThrows.Proofs.CountedDeclarations
import CheckedThrows.Proofs.Extents
import CheckedThrows.Proofs.VisitedPrograms
import Mathlib.Algebra.Order.BigOperators.Group.List
import Mathlib.Algebra.Order.Group.Nat

/-!
# Resolution reaches everything

Going through the units of a program gives every expression a type and reports
an undefined name once at most.  Left out are only declarations that do not
count because their name is taken, and these are reported.
-/

namespace CheckedThrows

open List Resolving

/-! ## The facts to begin with -/

def Workspace.keeps (w : Workspace) (n : NodeId) : Bool :=
  ((Facts.initial w).declared[n]?).isSome

theorem Workspace.plain_accepted {units : List CompilationUnit} {e : Element}
    (he : e ∈ (ofUnits units).accepted) :
    e.id.role = .declared ∧ ∀ c ∈ e.toClass?, c ∈ (ofUnits units).declaredClasses := by
  rcases mem_append.mp he with hscope | hmember
  · obtain ⟨l, hl, hentry⟩ := mem_flatMap.mp hscope
    obtain ⟨entry, hmem, rfl⟩ := mem_map.mp hentry
    have htop := hl
    rw [libraries_ofUnits] at htop
    have htop := ((isDeclared_linked units).scope l htop).scope entry hmem
    cases helement : entry.2 with
    | «class» c =>
      rw [helement] at htop
      refine ⟨rfl, fun c' hc' => ?_⟩
      obtain rfl := Option.some.inj hc'
      exact mem_flatMap.mpr ⟨l, hl, htop⟩
    | executable x =>
      rw [helement] at htop
      obtain ⟨d, -, rfl⟩ := htop
      exact ⟨rfl, nofun⟩
    | «variable» v =>
      rw [helement] at htop
      obtain ⟨d, -, rfl⟩ := htop
      exact ⟨rfl, nofun⟩
    | parameter p =>
      rw [helement] at htop
      exact htop.elim
  · obtain ⟨i, hi, haccepted⟩ := mem_flatMap.mp hmember
    obtain ⟨i₀, hi₀, -, hmembers⟩ := mem_classes_declareMembers hi
    obtain ⟨-, hempty, -⟩ := mem_classes_linkClasses hi₀
    have hplain : Members.IsPlain e := by
      rcases hmembers with hsame | hown
      · rw [hsame, hempty] at haccepted
        cases haccepted
      · rw [hown] at haccepted
        exact (Members.adds_ofClass i₀.element).plain (by simp) e haccepted
    exact ⟨hplain.1, by simp [hplain.2]⟩

theorem Facts.ready_initial (units : List CompilationUnit) :
    (Facts.initial (Workspace.ofUnits units)).Ready units (Workspace.ofUnits units)
      (Workspace.ofUnits units).keeps where
  sound := sound_initial (Workspace.typed_ofUnits units) (Workspace.holds_rootedIn units)
  plain := (all_declared_initial fun _ he => Workspace.plain_accepted he).imp fun _ _ h => h.2
  declared := fun _ hn => hn

/-! ## Going through all units -/

theorem Facts.VisitedAll.after {ls : List Library} {marks marks' : Library → Multiset Mark}
    {f g h : Facts} (hfirst : f.VisitedAll ls marks g) (hsecond : g.VisitedAll ls marks' h)
    (hnames : ∀ l place, (marks l).count (.name place) = 0) : f.VisitedAll ls marks' h := by
  refine ⟨fun n hn => hsecond.typed n (hfirst.typed n hn), hsecond.covered, ?_⟩
  obtain ⟨new, hnew, hwarn, hcount⟩ := hfirst.warnings
  obtain ⟨new', hnew', hwarn', hcount'⟩ := hsecond.warnings
  refine ⟨new ++ new', by rw [hnew', hnew, append_assoc], ?_, ?_⟩
  · intro d hd
    exact (mem_append.mp hd).elim (hwarn d) (hwarn' d)
  · intro uri place
    have hnone : new.countP (Diagnostic.isUndefinedName uri place) = 0 := by
      have hle := hcount uri place
      simpa [hnames] using hle
    rw [countP_append, hnone, Nat.zero_add]
    exact hcount' uri place

section
variable {units : List CompilationUnit} (hunits : Numbered units)
  (hshape : ∀ u ∈ units, (Node.unit u).All Node.WellShaped)
include hunits hshape

theorem Program.visitedAll_ofUnits :
    (Facts.initial (Workspace.ofUnits units)).VisitedAll (Workspace.ofUnits units).libraries
      (libraryMarks (Workspace.ofUnits units).keeps) (Program.ofUnits units).facts := by
  obtain ⟨hready, ht, hsignatures⟩ := visitedAll_forM
    (fun l hl => passes_resolveSignatures hunits hl) (Facts.ready_initial units) (.refl _)
  obtain ⟨-, -, hbodies⟩ := visitedAll_forM
    (fun l hl => passes_resolveLibrary hunits hshape hl) hready ht
  have hnames : ∀ (l : Library) (place : Extent),
      ((l.unit.declarations.map fun d => writesOf (Node.ofDeclaration d).marks).sum).count
        (.name place) = 0 := by
    intro l place
    induction l.unit.declarations with
    | nil => simp
    | cons d ds ih => simp [count_name_writesOf, ih]
  obtain ⟨htyped, hcovered, hwarnings⟩ := hsignatures.after hbodies hnames
  exact ⟨htyped, hcovered, hwarnings⟩

end

/-! ## Names -/

theorem count_sum_map_congr {α : Type} {f g : α → Multiset Mark} {mark : Mark}
    (hcount : ∀ a, (f a).count mark = (g a).count mark) (l : List α) :
    ((l.map f).sum).count mark = ((l.map g).sum).count mark := by
  induction l with
  | nil => rfl
  | cons a l ih =>
    rw [map_cons, map_cons, sum_cons, sum_cons, Multiset.count_add,
      Multiset.count_add, hcount, ih]

theorem count_name_memberMarks (kept : NodeId → Bool) (m : Member) (place : Extent) :
    (memberMarks kept m).count (.name place) = (Node.ofMember m).marks.count (.name place) := by
  cases m with
  | «variable» d => rfl
  | function d => exact count_name_marksIf _ _ place

theorem Node.marks_class (d : ClassDecl) :
    (Node.class d).marks = metadataMarks d.metadata +
      (d.members.map fun m => (Node.ofMember m).marks).sum + headerMarks d := by
  rw [marks_eq]
  simp only [children, ownMarks, headerMarks, metadataMarks, map_append, map_map,
    sum_append, Function.comp_def, id]
  abel

theorem count_name_declarationMarks (kept : NodeId → Bool) (d : Declaration) (place : Extent) :
    (declarationMarks kept d).count (.name place) =
      (Node.ofDeclaration d).marks.count (.name place) := by
  cases d with
  | «class» d =>
    show (marksIf _ _).count _ = (Node.class d).marks.count _
    rw [count_name_marksIf, classMarks, Node.marks_class]
    simp only [Multiset.count_add, count_sum_map_congr fun m => count_name_memberMarks kept m place]
  | function d => exact count_name_marksIf _ _ place
  | «variable» d => rfl

theorem count_name_libraryMarks_le (kept : NodeId → Bool) (l : Library) (place : Extent) :
    (libraryMarks kept l).count (.name place) ≤ (Node.unit l.unit).marks.count (.name place) := by
  rw [libraryMarks, count_sum_map_congr fun d => count_name_declarationMarks kept d place,
    Node.marks_eq]
  simp only [Node.children, map_append, map_map, sum_append, Function.comp_def,
    Multiset.count_add]
  omega

/-! ## Expressions -/

namespace Program

def reportsDuplicate (p : Program) (uri : String) (place : Extent) : Bool :=
  p.warnings.any fun d => d.code = some "duplicate_definition" && d.span = .ofExtent uri place

/-- Whether a node is a class or a function that does not count because its name
is taken. -/
def rejects (p : Program) (uri : String) : Node → Bool
  | .class d => p.reportsDuplicate uri d.info.extent
  | .stmt (.function d) => p.reportsDuplicate uri d.info.extent
  | _ => false

theorem reportsDuplicate_of_mem {p : Program} {uri name : String} {place : Extent}
    (hmem : Library.alreadyDefined uri name place ∈ p.workspace.warnings) :
    p.reportsDuplicate uri place = true := by
  rw [reportsDuplicate, any_eq_true]
  exact ⟨_, mem_append_left _ hmem, by simp [Library.alreadyDefined, warning]⟩

end Program

theorem Place.Reaches.node_mem_nodes {keep : Node → Bool} {p q : Place}
    (hreach : Reaches keep p q) : q.node ∈ p.node.nodes := by
  have hall : Reaches (fun _ => true) p q := hreach.mono fun _ _ => rfl
  have hwalk : q ∈ walkFrom (fun _ => true) [p] :=
    (mem_walkFrom_iff _ _ q).mpr ⟨p, mem_singleton_self p, hall⟩
  have hnodes := mem_map_of_mem (f := node) hwalk
  rw [walkFrom_nodes] at hnodes
  simpa using hnodes

theorem Node.type_mem_marks {n : Node} {e : Expr} (he : Node.expr e ∈ n.nodes) :
    Mark.type e.id ∈ n.marks := by
  refine mem_marks.mpr ⟨.expr e, he, ?_⟩
  cases e <;> simp [ownMarks, Expr.id, Expr.info]

section
variable {units : List CompilationUnit} {l : Library} (hl : l ∈ (Workspace.ofUnits units).libraries)
include hl

theorem keeps_of_not_reportsDuplicate {d : Declaration} (hd : d ∈ l.unit.declarations)
    (hreport : (Program.ofUnits units).reportsDuplicate l.uri d.info.extent = false) :
    (Workspace.ofUnits units).keeps d.id = true ∧ ∃ entry ∈ l.scope, entry.2.id.node = d.id := by
  rcases (Workspace.counted_ofUnits units).finds l hl d hd with hmem | ⟨entry, hentry, hid⟩
  · have htrue : (Program.ofUnits units).reportsDuplicate l.uri d.info.extent = true :=
      Program.reportsDuplicate_of_mem hmem
    rw [htrue] at hreport
    cases hreport
  · have haccepted : entry.2 ∈ (Workspace.ofUnits units).accepted :=
      mem_append_left _ (mem_flatMap.mpr ⟨l, hl, mem_map_of_mem hentry⟩)
    have hkept := Facts.isSome_declared_initial haccepted
    rw [hid] at hkept
    exact ⟨hkept, entry, hentry, hid⟩

theorem keeps_member {d : ClassDecl} (hd : Declaration.class d ∈ l.unit.declarations)
    (hentry : ∃ entry ∈ l.scope, entry.2.id.node = d.id) {m : Member} (hm : m ∈ d.members)
    (hreport : (Program.ofUnits units).reportsDuplicate l.uri m.info.extent = false) :
    (Workspace.ofUnits units).keeps m.id = true := by
  obtain ⟨i, hi, rfl, hlibrary, hfinds⟩ := Workspace.exists_class hl hd hentry
  rcases hfinds m hm with hmem | ⟨e, he, hid⟩
  · rw [hlibrary] at hmem
    have htrue : (Program.ofUnits units).reportsDuplicate l.uri m.info.extent = true :=
      Program.reportsDuplicate_of_mem hmem
    rw [htrue] at hreport
    cases hreport
  · have haccepted : e ∈ (Workspace.ofUnits units).accepted :=
      mem_append_right _ (mem_flatMap.mpr ⟨i, hi, he⟩)
    rw [← hid]
    exact Facts.isSome_declared_initial haccepted

theorem type_mem_classMarks {d : ClassDecl} (hd : Declaration.class d ∈ l.unit.declarations)
    (hentry : ∃ entry ∈ l.scope, entry.2.id.node = d.id) {p q : Place} (hp : p.node = .class d)
    (hreach : Place.Reaches (fun n => !(Program.ofUnits units).rejects l.uri n) p q) {e : Expr}
    (he : q.node = .expr e) :
    Mark.type e.id ∈ classMarks (Workspace.ofUnits units).keeps d := by
  rcases hreach.eq_or_child with rfl | ⟨c, hc, hkeep, hbelow⟩
  · rw [hp] at he
    cases he
  · have hmem := hbelow.node_mem_nodes
    rw [he] at hmem
    have htype := Node.type_mem_marks hmem
    obtain ⟨child, hchild, rfl⟩ := Place.mem_children_iff.mp hc
    rw [hp] at hchild
    simp only [Node.children, mem_append, mem_map] at hchild
    simp only [classMarks, metadataMarks, Multiset.mem_add, mem_sum_map]
    rcases hchild with ((⟨m, hm, rfl⟩ | ⟨t, -, rfl⟩) | ⟨t, -, rfl⟩) | ⟨m, hm, rfl⟩
    · refine .inl (.inr ⟨m, hm, ?_⟩)
      cases m with
      | «variable» v => exact htype
      | function f =>
        have hkept : (Workspace.ofUnits units).keeps f.id = true :=
          keeps_member hl hd hentry hm ((Bool.not_eq_true' _).mp hkeep)
        rw [memberMarks, hkept]
        exact htype
    · exact absurd htype (Node.type_notMem_marks_type _ _)
    · exact absurd htype (Node.type_notMem_marks_type _ _)
    · exact .inl (.inl ⟨m, hm, htype⟩)

theorem type_mem_libraryMarks {q : Place} (hreach : Place.Reaches
      (fun n => !(Program.ofUnits units).rejects l.uri n) (.root (.unit l.unit)) q)
    {e : Expr} (he : q.node = .expr e) :
    Mark.type e.id ∈ libraryMarks (Workspace.ofUnits units).keeps l := by
  rcases hreach.eq_or_child with rfl | ⟨c, hc, hkeep, hbelow⟩
  · cases he
  · have hmem := hbelow.node_mem_nodes
    rw [he] at hmem
    have htype := Node.type_mem_marks hmem
    obtain ⟨child, hchild, rfl⟩ := Place.mem_children_iff.mp hc
    simp only [Place.node, Node.children, mem_append, mem_map] at hchild
    rw [libraryMarks, mem_sum_map]
    rcases hchild with ⟨d, -, rfl⟩ | ⟨d, hd, rfl⟩
    · have hnone : (Node.directive d).nodesBelow = [] := rfl
      rw [Place.node_child, Node.nodes_eq, hnone] at hmem
      cases mem_singleton.mp hmem
    · refine ⟨d, hd, ?_⟩
      cases d with
      | «variable» d => exact htype
      | function d =>
        have hkept : (Workspace.ofUnits units).keeps d.id = true :=
          (keeps_of_not_reportsDuplicate hl hd ((Bool.not_eq_true' _).mp hkeep)).1
        rw [declarationMarks, hkept]
        exact htype
      | «class» d =>
        obtain ⟨hkeeps, hentry⟩ :=
          keeps_of_not_reportsDuplicate hl hd ((Bool.not_eq_true' _).mp hkeep)
        have hkept : (Workspace.ofUnits units).keeps d.id = true := hkeeps
        rw [declarationMarks, hkept]
        exact type_mem_classMarks hl hd hentry rfl hbelow he

end

/-! ## The warnings of a program -/

theorem Diagnostic.IsDeclarative.isUndefinedName {d : Diagnostic} (hd : d.IsDeclarative)
    (uri : String) (place : Extent) : d.isUndefinedName uri place = false := by
  obtain ⟨code, hcode, span, message, rfl⟩ := hd
  have hother : code ≠ "undefined_identifier" := by
    rintro rfl
    simp [declarationCodes] at hcode
  simp [Diagnostic.isUndefinedName, warning, hother]

section
variable {units : List CompilationUnit} (hunits : Numbered units)
include hunits

theorem Program.warning_ofUnits (hshape : ∀ u ∈ units, (Node.unit u).All Node.WellShaped)
    {d : Diagnostic} (hd : d ∈ (ofUnits units).warnings) :
    ∃ code ∈ declarationCodes ++ "undefined_identifier" :: bodyCodes,
      ∃ span message, d = warning code span message := by
  rcases mem_append.mp hd with hworkspace | hfacts
  · obtain ⟨code, hcode, span, message, rfl⟩ :=
      (Workspace.counted_ofUnits units).warnings d hworkspace
    exact ⟨code, mem_append_left _ hcode, span, message, rfl⟩
  · obtain ⟨new, hnew, hwarn, -⟩ := (visitedAll_ofUnits hunits hshape).warnings
    rw [hnew] at hfacts
    obtain ⟨l, -, code, hcode, place, message, rfl⟩ := hwarn d hfacts
    exact ⟨code, mem_append_right _ hcode, _, message, rfl⟩

theorem Program.countP_isUndefinedName_le (hproper : ∀ u ∈ units, u.Proper) (uri : String)
    (place : Extent) :
    (ofUnits units).warnings.countP (Diagnostic.isUndefinedName uri place) ≤ 1 := by
  have hcounted := Workspace.counted_ofUnits units
  have hdeclarations : (ofUnits units).workspace.warnings.countP
      (Diagnostic.isUndefinedName uri place) = 0 := by
    rw [countP_eq_zero]
    intro d hd
    simp [(hcounted.warnings d hd).isUndefinedName uri place]
  obtain ⟨new, hnew, -, hcount⟩ :=
    (visitedAll_ofUnits hunits fun u hu => (hproper u hu).shaped).warnings
  rw [warnings, countP_append, hdeclarations, Nat.zero_add, hnew]
  refine Nat.le_trans (hcount uri place) ?_
  -- At most one library has this uri, and an extent occurs at most once in it.
  have hone : ((Workspace.ofUnits units).libraries.filter fun l => l.uri = uri).length ≤ 1 := by
    rw [← countP_eq_length_filter]
    have hcountUri := nodup_iff_count_le_one.mp hcounted.distinct uri
    rwa [count_eq_countP, countP_map] at hcountUri
  refine Nat.le_trans (sum_le_card_nsmul _ 1 ?_) (by simpa using hone)
  intro count hmem
  obtain ⟨l, hl, rfl⟩ := mem_map.mp hmem
  have hunit := (Workspace.library_ofUnits (mem_filter.mp hl).1).1
  exact Nat.le_trans (count_name_libraryMarks_le _ l place) ((hproper l.unit hunit).count_name_le _)

end

/-- Resolving parsed units has no fault, keeps only types of the table, gives a
type to every expression of a unit that counts, declarations that are reported as
duplicates left out, and reports the name at a place as undefined once at most. -/
theorem resolution_total_complete {next : NodeId} {sources : List Source}
    {parsed : List (Source × Except Diagnostic CompilationUnit)}
    (hparsed : Source.parseAll next sources = .ok parsed) {units : List CompilationUnit}
    (hunits : units ⊆ parsed.filterMap Loaded.unitOf?) :
    (Program.ofUnits units).faults = [] ∧ (Program.ofUnits units).Allocated ∧
    (∀ d ∈ (Program.ofUnits units).warnings,
      d.code ≠ some "unsupported" ∧ d.code ≠ some "nested_class") ∧
    (∀ before u after, units = before ++ u :: after → u.uri ∉ before.map CompilationUnit.uri →
      ∀ p ∈ Place.walkFrom (fun n => !(Program.ofUnits units).rejects u.uri n) [.root (.unit u)],
        ∀ e, p.node = .expr e → ((Program.ofUnits units).staticType? e.id).isSome) ∧
    ∀ uri place,
      (Program.ofUnits units).warnings.countP (Diagnostic.isUndefinedName uri place) ≤ 1 := by
  have hnumbered := (Source.numberedFrom_parseAll hparsed).numbered.of_subset hunits
  have hproper : ∀ u ∈ units, u.Proper := fun u hu => Source.proper_parseAll hparsed u (hunits hu)
  have hshape : ∀ u ∈ units, (Node.unit u).All Node.WellShaped := fun u hu => (hproper u hu).shaped
  refine ⟨Program.faults_ofUnits units, Program.allocated_ofUnits units, ?_, ?_,
    Program.countP_isUndefinedName_le hnumbered hproper⟩
  · intro d hd
    obtain ⟨code, hcode, span, message, rfl⟩ := Program.warning_ofUnits hnumbered hshape hd
    have hother : code ≠ "unsupported" ∧ code ≠ "nested_class" := by
      constructor <;> rintro rfl <;> exact absurd hcode (by decide)
    exact ⟨fun h => hother.1 (Option.some.inj h), fun h => hother.2 (Option.some.inj h)⟩
  · rintro before u after rfl hfirst p hp e he
    have hlibrary : ∃ l ∈ (Workspace.ofUnits (before ++ u :: after)).libraries, l.unit = u :=
      Workspace.exists_library hfirst
    obtain ⟨l, hl, rfl⟩ := hlibrary
    obtain ⟨root, hroot, hreach⟩ := (Place.mem_walkFrom_iff _ _ p).mp hp
    obtain rfl := mem_singleton.mp hroot
    exact (Program.visitedAll_ofUnits hnumbered hshape).covered l hl e.id
      (type_mem_libraryMarks hl hreach he)

namespace TwiceDeclared

def text : Source := ⟨"lib/a.dart", "f() => a; f() => b; var x = c;"⟩

def hasValue : Declaration → Bool
  | .variable d => d.init.isSome
  | _ => false

theorem hasValue_text :
    ((Source.parseAll 1 [text]).toOption.map fun parsed =>
      (parsed.filterMap Loaded.unitOf?).map fun u => u.declarations.map hasValue) =
      some [[false, false, true]] := by
  decide +kernel

theorem value_typed_beside_duplicate :
    ∃ parsed u, Source.parseAll 1 [text] = .ok parsed ∧
      parsed.filterMap Loaded.unitOf? = [u] ∧ ∃ d e, Declaration.variable d ∈ u.declarations ∧
      d.init = some e ∧ (Program.ofUnits [u]).faults = [] ∧ (Program.ofUnits [u]).Allocated ∧
      ((Program.ofUnits [u]).staticType? e.id).isSome ∧
      (Program.ofUnits [u]).warnings.countP
        (Diagnostic.isUndefinedName u.uri e.info.extent) ≤ 1 := by
  have hvalues := hasValue_text
  cases hparsed : Source.parseAll 1 [text] with
  | error fault =>
    rw [hparsed] at hvalues
    cases hvalues
  | ok parsed =>
    rw [hparsed] at hvalues
    obtain ⟨u, rest, hunits, hu, hrest⟩ :=
      map_eq_cons_iff.mp (Option.some.inj hvalues)
    obtain rfl : rest = [] := map_eq_nil_iff.mp hrest
    have htrue : true ∈ u.declarations.map hasValue := by simp [hu]
    obtain ⟨declaration, hd, hvalue⟩ := mem_map.mp htrue
    cases declaration with
    | «class» _ | function _ => cases hvalue
    | «variable» d =>
      obtain ⟨e, he⟩ := Option.isSome_iff_exists.mp hvalue
      have hsubset : [u] ⊆ parsed.filterMap Loaded.unitOf? := by
        rw [hunits]
        exact List.Subset.refl _
      obtain ⟨hfaults, hallocated, -, htyped, hnames⟩ :=
        resolution_total_complete hparsed hsubset
      refine ⟨parsed, u, rfl, hunits, d, e, hd, he, hfaults, hallocated, ?_, hnames _ _⟩
      have hvariable : Place.child (.root (.unit u)) .other (.varDecl d) ∈
          (Place.root (.unit u)).children :=
        Place.mem_children_iff.mpr ⟨(.other, .varDecl d),
          mem_append_right _ (mem_map_of_mem hd), rfl⟩
      have hinit : Place.child (.child (.root (.unit u)) .other (.varDecl d)) .other (.expr e) ∈
          (Place.child (.root (.unit u)) .other (.varDecl d)).children := by
        refine Place.mem_children_iff.mpr ⟨(.other, .expr e), ?_, rfl⟩
        simp [Node.children, Node.stmtChildren, he]
      have hplace := (Place.mem_walkFrom_iff
        (fun n => !(Program.ofUnits [u]).rejects u.uri n) [.root (.unit u)] _).mpr
        ⟨_, mem_cons_self, .child (.child .self hvariable rfl) hinit rfl⟩
      exact htyped [] u [] rfl not_mem_nil _ hplace e rfl

end TwiceDeclared

end CheckedThrows
