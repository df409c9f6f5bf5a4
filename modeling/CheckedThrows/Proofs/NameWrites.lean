import CheckedThrows.Proofs.MirroredPrograms

/-!
# Names that are written

Where neither a block nor a class binds a name that is written, a setter of the
library itself comes first, a setter that is imported comes before a variable of
the library itself, and an imported variable comes last.
-/

namespace CheckedThrows

def Libraries.imported? (ls : Libraries) (l : Library) (name : String) : Option Element :=
  l.imports.findSome? fun i => (ls.namespaceOf i).lookup name

theorem Libraries.lookup_eq {ls : Libraries} {l : Library} (hl : ls.find? l.uri = some l)
    (name : String) : ls.lookup l.uri name = (l.scope.lookup name).or (ls.imported? l name) := by
  simp only [lookup, imported?, hl]
  cases l.scope.lookup name <;> rfl

namespace Workspace

section
variable {units : List CompilationUnit} {l : Library} (hl : l ∈ (ofUnits units).libraries)
  {name : String} {e : Element}
include hl

theorem library_of_own (hown : l.scope.lookup name = some e) : e.library = l.uri := by
  obtain ⟨-, hscope⟩ := library_ofUnits hl
  exact (hscope.scope (name, e) (mem_of_lookup hown)).library hscope

theorem library_of_imported (hown : l.scope.lookup name = none)
    (himported : (ofUnits units).libraries.imported? l name = some e) : e.library ≠ l.uri := by
  obtain ⟨i, -, hnamespace⟩ := List.exists_of_findSome?_eq_some himported
  obtain ⟨l', hl', hentry⟩ := Libraries.mem_namespaceOf (mem_of_lookup hnamespace)
  obtain ⟨-, hscope⟩ := library_ofUnits hl'
  have hlibrary : e.library = l'.uri := (hscope.scope _ hentry).library hscope
  intro huri
  have hsame : l' = l := List.inj_on_of_nodup_map (counted_ofUnits units).distinct hl' hl
    (hlibrary.symm.trans huri)
  subst hsame
  exact bne_iff_ne.mp (List.lookup_eq_none_iff.mp hown _ hentry) rfl

end

end Workspace

namespace BodyContext

section
variable {units : List CompilationUnit} {l : Library}
  (hl : l ∈ (Workspace.ofUnits units).libraries) {ctx : BodyContext}
  (hworkspace : ctx.workspace = .ofUnits units) (hlibrary : ctx.library = l.uri) {scope : Names}
  {x : String} (hscope : scope.lookup x = none) (hmember : ctx.writeMember? x = none)
include hl hworkspace hlibrary hscope hmember

theorem lookupWrite_eq :
    ctx.lookupWrite scope x =
      ((l.scope.lookup (x ++ "=")).or ((Workspace.ofUnits units).libraries.imported? l (x ++ "="))).or
        (((l.scope.lookup x).or ((Workspace.ofUnits units).libraries.imported? l x)).filter
          fun e => e.toVar?.isSome) := by
  have hfind := (Workspace.counted_ofUnits units).find?_uri hl
  simp only [lookupWrite, hscope, hmember, hworkspace, hlibrary, Libraries.lookup_eq hfind]
  generalize (l.scope.lookup (x ++ "=")).or _ = setter
  cases setter <;> rfl

/-- Where neither a block nor a class binds a name that is written, there are three
cases.  A setter of the library itself is what is written.  If it has none, then one
of an import is written, even if the library itself declares a variable of that
name.  If there is no setter at all, it is the variable that the name means, own
declarations before imported ones.  So a library that declares the setter or the
variable always finds something to write, and this is its own unless it declares the
variable only and an import has the setter. -/
theorem library_of_lookupWrite :
    (∀ e, ctx.lookupWrite scope x = some e ∧ e.library = l.uri ↔
      l.scope.lookup (x ++ "=") = some e ∨
        l.scope.lookup (x ++ "=") = none ∧
        (Workspace.ofUnits units).libraries.imported? l (x ++ "=") = none ∧
        l.scope.lookup x = some e ∧ e.toVar?.isSome) ∧
    (∀ e, ctx.lookupWrite scope x = some e ∧ e.library ≠ l.uri ↔
      l.scope.lookup (x ++ "=") = none ∧
        ((Workspace.ofUnits units).libraries.imported? l (x ++ "=") = some e ∨
          (Workspace.ofUnits units).libraries.imported? l (x ++ "=") = none ∧
          l.scope.lookup x = none ∧
          (Workspace.ofUnits units).libraries.imported? l x = some e ∧ e.toVar?.isSome)) ∧
    ((l.scope.lookup (x ++ "=")).isSome ∨ ((l.scope.lookup x).bind Element.toVar?).isSome →
      ∃ e, ctx.lookupWrite scope x = some e ∧
        (e.library = l.uri ↔ (l.scope.lookup (x ++ "=")).isSome ∨
          (Workspace.ofUnits units).libraries.imported? l (x ++ "=") = none)) := by
  rw [lookupWrite_eq hl hworkspace hlibrary hscope hmember]
  have hown : ∀ {name e}, l.scope.lookup name = some e → e.library = l.uri :=
    Workspace.library_of_own hl
  have himported : ∀ {name e}, l.scope.lookup name = none →
      (Workspace.ofUnits units).libraries.imported? l name = some e → e.library ≠ l.uri :=
    Workspace.library_of_imported hl
  cases hsetter : l.scope.lookup (x ++ "=") with
  | some setter =>
    have hlibrary := hown hsetter
    simp only [Option.some_or]
    grind
  | none =>
    cases hother : (Workspace.ofUnits units).libraries.imported? l (x ++ "=") with
    | some setter =>
      have hlibrary := himported hsetter hother
      simp only [Option.none_or, Option.some_or]
      grind
    | none =>
      cases hvariable : l.scope.lookup x with
      | some e =>
        have hlibrary := hown hvariable
        simp only [Option.none_or, Option.some_or, Option.filter_some, Option.bind_some]
        grind
      | none =>
        simp only [Option.none_or, Option.filter_eq_some_iff]
        have hlibrary := fun e => himported (e := e) hvariable
        grind

end

end BodyContext

namespace ImportedSetter

def variableUnit : CompilationUnit where
  extent := none
  uri := "a.dart"
  directives := [⟨.bare 1, .imports, Text.ofString "b.dart"⟩]
  declarations := [.variable ⟨.bare 2, "x", .topLevel, none, none, {}, []⟩]
  comments := []

def setterUnit : CompilationUnit where
  extent := none
  uri := "b.dart"
  directives := []
  declarations := [.function ⟨.bare 3, "x", .setter, none,
    [⟨.bare 4, "value", none, false, []⟩], none, none, {}, []⟩]
  comments := []

def context : BodyContext where
  workspace := .ofUnits [variableUnit, setterUnit]
  library := "a.dart"

/-- The setter is written, though it is imported and the variable is not. -/
theorem imported_setter_before_own_variable :
    (context.workspace.libraries.find? "a.dart").any
        (fun l => ((l.scope.lookup "x").bind Element.toVar?).isSome) = true ∧
      context.writeMember? "x" = none ∧
      (context.lookupWrite [] "x").map Element.library = some "b.dart" := by
  refine ⟨?_, rfl, ?_⟩
  · cbv
  · cbv

theorem own_variable_not_written :
    ∃ l ∈ (Workspace.ofUnits [variableUnit, setterUnit]).libraries, l.uri = "a.dart" ∧
      ((l.scope.lookup "x").bind Element.toVar?).isSome ∧
      ∃ e, context.lookupWrite [] "x" = some e ∧ e.library ≠ l.uri := by
  have hnames : ((Workspace.ofUnits [variableUnit, setterUnit]).libraries.find? "a.dart").any
      (fun l => ((l.scope.lookup "x").bind Element.toVar?).isSome &&
        ((l.scope.lookup ("x" ++ "=")).isNone &&
          ((Workspace.ofUnits [variableUnit, setterUnit]).libraries.imported? l
            ("x" ++ "=")).isSome)) = true := by
    cbv
  cases hfind : (Workspace.ofUnits [variableUnit, setterUnit]).libraries.find? "a.dart" with
  | none =>
    rw [hfind] at hnames
    cases hnames
  | some l =>
    rw [hfind, Option.any_some, Bool.and_eq_true, Bool.and_eq_true] at hnames
    obtain ⟨hvariable, hnone, himported⟩ := hnames
    have hl : l ∈ (Workspace.ofUnits [variableUnit, setterUnit]).libraries :=
      List.mem_of_find?_eq_some hfind
    have huri : l.uri = "a.dart" := by simpa using List.find?_some hfind
    obtain ⟨-, -, hfound⟩ := @BodyContext.library_of_lookupWrite _ l hl context rfl huri.symm []
      "x" rfl rfl
    obtain ⟨e, he, hlibrary⟩ := hfound (.inr hvariable)
    refine ⟨l, hl, huri, hvariable, e, he, fun heq => ?_⟩
    rcases hlibrary.mp heq with hsome | hother
    · rw [Option.isNone_iff_eq_none.mp hnone] at hsome
      cases hsome
    · rw [hother] at himported
      cases himported

end ImportedSetter

end CheckedThrows
