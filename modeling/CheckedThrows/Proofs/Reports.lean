import CheckedThrows.Proofs.Escape
import CheckedThrows.Proofs.ExitCodes
import CheckedThrows.Proofs.WorkspaceReports

/-!
# What a run reports

The diagnostics of a run are the syntax errors of the given sources, then unit by
unit the warnings raised there that its comments do not suppress, then unit by
unit the findings that these do not suppress.
-/

namespace CheckedThrows

open List Report

variable {s : Source} {given : List Source}

/-! ## Programs -/

theorem Resolving.run_forM_eq_foldl {ι : Type} (act : ι → Resolving Unit) (is : List ι) (f : Facts) :
    ((is.forM act).run f).2 = is.foldl (fun f i => ((act i).run f).2) f := by
  induction is generalizing f with
  | nil => rfl
  | cons i is ih => exact ih _

namespace Program

def signatureReports (w : Workspace) : List Report :=
  stepReports Facts.warnings Library.unit
    (fun f l => ((l.unit.declarations.forM (resolveDeclarationSignature w l.uri)).run f).2)
    (.initial w) w.libraries

def bodyReports (w : Workspace) : List Report :=
  stepReports Facts.warnings Library.unit (fun f l => ((resolveLibrary w l).run f).2)
    ((resolveSignatures w).run (.initial w)).2 w.libraries

def reports (units : List CompilationUnit) : List Report :=
  let w := Workspace.ofUnits units
  Workspace.reports units ++ signatureReports w ++ bodyReports w

section
variable {units : List CompilationUnit} {w : Workspace} {kept : NodeId → Bool} {t : TypeTable}

theorem stepReports_of_passes {act : Library → Resolving Unit} {marks : Library → Multiset Mark}
    {ls : List Library} (hact : ∀ l ∈ ls, Resolving.Passes units w kept t l.uri (marks l) (act l))
    {f : Facts} (hf : f.Ready units w kept) (ht : t.Extends f.types) :
    let reports := stepReports Facts.warnings Library.unit (fun f l => ((act l).run f).2) f ls
    ((ls.forM act).run f).2.warnings = f.warnings ++ reports.map Report.warning ∧
      ∀ r ∈ reports, (∃ l ∈ ls, r.unit = l.unit) ∧ r.IsOwn := by
  rw [Resolving.run_forM_eq_foldl]
  have hstep : ∀ f : Facts, f.Ready units w kept ∧ t.Extends f.types → ∀ l ∈ ls,
      (((act l).run f).2.Ready units w kept ∧ t.Extends ((act l).run f).2.types) ∧
        AddsOwn Facts.warnings Library.unit (fun f l => ((act l).run f).2) f l := by
    rintro f ⟨hf, ht⟩ l hl
    obtain ⟨hready, hvisited⟩ := hact l hl f hf ht
    obtain ⟨new, hnew, hwarn, -⟩ := hvisited.warnings
    refine ⟨⟨hready, ht.trans hvisited.table⟩, new, hnew, fun d hd => ?_⟩
    obtain ⟨code, -, place, message, rfl⟩ := hwarn d hd
    rfl
  exact stepReports_spec hstep ⟨hf, ht⟩

end

theorem reports_spec {units : List CompilationUnit} (hunits : Numbered units)
    (hshape : ∀ u ∈ units, (Node.unit u).All Node.WellShaped) :
    (reports units).map Report.warning = (ofUnits units).warnings ∧
      ∀ r ∈ reports units, r.unit ∈ units ∧ r.IsOwn := by
  have hready := Facts.ready_initial units
  obtain ⟨hsignatures, hownSignatures⟩ := stepReports_of_passes
    (fun l hl => passes_resolveSignatures hunits hl) hready (.refl _)
  obtain ⟨hready, ht, -⟩ := visitedAll_forM
    (fun l hl => passes_resolveSignatures hunits hl) hready (.refl _)
  obtain ⟨hbodies, hownBodies⟩ := stepReports_of_passes
    (fun l hl => passes_resolveLibrary hunits hshape hl) hready ht
  have hlibrary : ∀ r : Report, (∃ l ∈ (Workspace.ofUnits units).libraries, r.unit = l.unit) →
      r.unit ∈ units := by
    rintro r ⟨l, hl, hunit⟩
    rw [hunit]
    exact (Workspace.library_ofUnits hl).1
  constructor
  · have hfacts : (ofUnits units).facts.warnings =
        (signatureReports (Workspace.ofUnits units)).map Report.warning ++
          (bodyReports (Workspace.ofUnits units)).map Report.warning := by
      refine hbodies.trans ?_
      rw [hsignatures]
      rfl
    rw [reports, warnings, hfacts, map_append, map_append, append_assoc,
      ← Workspace.ofUnits_warnings]
    rfl
  · intro r hr
    rcases mem_append.mp hr with hr | hr
    · rcases mem_append.mp hr with hr | hr
      · exact Workspace.own_of_mem_reports hr
      · exact ⟨hlibrary r (hownSignatures r hr).1, (hownSignatures r hr).2⟩
    · exact ⟨hlibrary r (hownBodies r hr).1, (hownBodies r hr).2⟩

end Program

/-! ## Sources -/

def Source.error? : Except Diagnostic CompilationUnit → Option Diagnostic
  | .error d => some d
  | .ok _ => none

def Source.rejection? (s : Source) : Option Diagnostic :=
  s.parse.toOption.bind error?

theorem nodup_uris_putSource {sources : List Source} (h : (sources.map Source.uri).Nodup)
    (s : Source) : ((putSource sources s).map Source.uri).Nodup := by
  unfold putSource
  split
  next =>
    have hsame : (sources.map fun old => if old.uri = s.uri then s else old).map Source.uri =
        sources.map Source.uri := by
      rw [map_map]
      apply map_congr_left
      intro old _
      by_cases huri : old.uri = s.uri <;> simp [huri]
    rwa [hsame]
  next hnew =>
    rw [map_append, map_singleton, nodup_append]
    refine ⟨h, nodup_singleton _, ?_⟩
    intro uri huri uri' huri' heq
    obtain rfl := mem_singleton.mp huri'
    obtain ⟨old, hold, rfl⟩ := mem_map.mp huri
    apply hnew
    rw [any_eq_true]
    exact ⟨old, hold, by simpa using heq⟩

theorem nodup_uris_distinctSources (given : List Source) :
    ((distinctSources given).map Source.uri).Nodup :=
  List.foldlRecOn given putSource (motive := fun kept => (kept.map Source.uri).Nodup)
    nodup_nil fun _ h s _ => nodup_uris_putSource h s

theorem mem_putSource {sources : List Source} {s' : Source} (h : s' ∈ putSource sources s) :
    s' ∈ sources ∨ s' = s := by
  unfold putSource at h
  split at h
  · obtain ⟨old, hold, rfl⟩ := mem_map.mp h
    by_cases huri : old.uri = s.uri
    · exact .inr (if_pos huri)
    · rw [if_neg huri]
      exact .inl hold
  · simpa using h

theorem mem_of_mem_distinctSources (h : s ∈ distinctSources given) : s ∈ given := by
  have hall : ∀ s ∈ distinctSources given, s ∈ given := by
    refine List.foldlRecOn given putSource (motive := fun kept => ∀ s ∈ kept, s ∈ given) (by simp) ?_
    intro kept hkept s hs s' hs'
    rcases mem_putSource hs' with hold | rfl
    · exact hkept s' hold
    · exact hs
  exact hall s h

theorem Bundled.uri_ne_of_mem_besides {b : Source} (hb : b ∈ besides given)
    (hs : s ∈ given) : b.uri ≠ s.uri := by
  have hnone := (mem_filter.mp hb).2
  simp only [Bool.not_eq_true', any_eq_false, decide_eq_true_eq] at hnone
  exact fun heq => hnone s hs heq.symm

theorem Bundled.nodup_uris_beside (hgiven : (given.map Source.uri).Nodup) :
    ((besides given ++ given).map Source.uri).Nodup := by
  have hlibraries : (libraries.map Source.uri).Nodup := by decide
  rw [map_append, nodup_append]
  refine ⟨hlibraries.sublist (filter_sublist.map _), hgiven, ?_⟩
  intro uri huri uri' huri' heq
  obtain ⟨b, hb, rfl⟩ := mem_map.mp huri
  obtain ⟨s, hs, rfl⟩ := mem_map.mp huri'
  exact uri_ne_of_mem_besides hb hs heq

namespace Source

variable {next : NodeId} {sources : List Source}
  {parsed : List (Source × Except Diagnostic CompilationUnit)}

theorem map_fst_parseAll (hparse : parseAll next sources = .ok parsed) :
    parsed.map Prod.fst = sources := by
  induction sources generalizing next parsed with
  | nil =>
    cases hparse
    rfl
  | cons s sources ih =>
    obtain ⟨outcome, after, rest, -, hrest, rfl⟩ := parseAll_cons hparse
    rw [map_cons, ih hrest]

theorem uri_of_unitOf? (hparse : parseAll next sources = .ok parsed) :
    ∀ entry ∈ parsed, ∀ u ∈ Loaded.unitOf? entry, u.uri = entry.1.uri := by
  intro entry hentry u hu
  have htells := tells_parseAll hparse entry hentry
  obtain ⟨s, outcome⟩ := entry
  cases outcome with
  | error d => cases hu
  | ok v =>
    obtain rfl := Option.some.inj hu
    exact htells

theorem nodup_uris_units (hparse : parseAll next sources = .ok parsed)
    (hsources : (sources.map Source.uri).Nodup) :
    ((parsed.filterMap Loaded.unitOf?).map CompilationUnit.uri).Nodup := by
  have hsub : ((parsed.filterMap Loaded.unitOf?).map CompilationUnit.uri).Sublist
      (parsed.map fun entry => entry.1.uri) := by
    have huris := uri_of_unitOf? hparse
    clear hparse
    induction parsed with
    | nil => exact .slnil
    | cons entry parsed ih =>
      have hrest := ih fun e he => huris e (mem_cons_of_mem entry he)
      cases hunit : Loaded.unitOf? entry with
      | none =>
        rw [filterMap_cons_none hunit]
        exact hrest.cons _
      | some u =>
        have huri := huris entry mem_cons_self u hunit
        rw [filterMap_cons_some hunit, map_cons, map_cons, huri]
        exact hrest.cons_cons _
  rw [← map_fst_parseAll hparse, map_map] at hsources
  exact hsources.sublist hsub

theorem file_of_rejection? {d : Diagnostic} (hrejection : s.rejection? = some d) :
    d.span.file = some s.uri := by
  obtain ⟨outcome, houtcome, herror⟩ := Option.bind_eq_some_iff.mp hrejection
  have hparse : s.parse = .ok outcome := by
    cases hresult : s.parse with
    | error fault =>
      rw [hresult] at houtcome
      cases houtcome
    | ok result =>
      rw [hresult] at houtcome
      cases houtcome
      rfl
  have htells := parse_tells hparse
  cases outcome with
  | error d' =>
    obtain rfl := Option.some.inj herror
    exact htells.2.2.2
  | ok u => cases herror

theorem rejection?_of_parseFrom {after : NodeId} {outcome : Except Diagnostic CompilationUnit}
    (hparse : s.parseFrom next = .ok (outcome, after)) :
    s.rejection? = error? outcome := by
  unfold parseFrom at hparse
  unfold rejection?
  cases hresult : s.parse with
  | error fault =>
    rw [hresult] at hparse
    cases hparse
  | ok result =>
    rw [hresult] at hparse
    cases result <;> cases hparse <;> rfl

theorem rejection?_of_parseAll (hparse : parseAll next sources = .ok parsed) :
    ∀ entry ∈ parsed, entry.1.rejection? = error? entry.2 := by
  intro entry hentry
  obtain ⟨-, start, after, hfrom⟩ := parseFrom_of_mem_parseAll hparse entry hentry
  exact rejection?_of_parseFrom hfrom

end Source

/-! ## Runs -/

theorem Node.file_span (uri : String) (n : Node) : (n.span uri).file = some uri := by
  unfold Node.span
  split <;> rfl

namespace Loaded

def allUnits (l : Loaded) : List CompilationUnit :=
  (l.around ++ l.given).filterMap unitOf?

def raisedIn (l : Loaded) (u : CompilationUnit) : List Diagnostic :=
  ((Program.reports l.allUnits).filter fun r => r.unit.uri = u.uri).map Report.warning

section
variable {around given : List Source} {l : Loaded} (hload : load around given = .ok l)
include hload

theorem parseAll_of_load : Source.parseAll 1 (around ++ given) = .ok (l.around ++ l.given) := by
  obtain ⟨parsed, hparsed, haround, hgiven, -⟩ := load_eq_ok hload
  rw [haround, hgiven, take_append_drop]
  exact hparsed

theorem map_fst_given : l.given.map Prod.fst = given := by
  obtain ⟨parsed, hparsed, -, hgiven, -⟩ := load_eq_ok hload
  rw [hgiven, map_drop, Source.map_fst_parseAll hparsed, drop_left]

theorem program_of_load : l.program = .ofUnits l.allUnits := by
  obtain ⟨parsed, -, haround, hgiven, hprogram⟩ := load_eq_ok hload
  rw [hprogram, allUnits, haround, hgiven, take_append_drop]

theorem reports_of_load :
    (Program.reports l.allUnits).map Report.warning = l.program.warnings ∧
      ∀ r ∈ Program.reports l.allUnits, r.unit ∈ l.allUnits ∧ r.IsOwn := by
  have hparsed := parseAll_of_load hload
  rw [program_of_load hload]
  exact Program.reports_spec (Source.numberedFrom_parseAll hparsed).numbered
    fun u hu => (Source.proper_parseAll hparsed u hu).shaped

theorem uri_of_mem_units {u : CompilationUnit} (hu : u ∈ l.units) : ∃ s ∈ given, u.uri = s.uri := by
  obtain ⟨entry, hentry, hunit⟩ := mem_filterMap.mp hu
  refine ⟨entry.1, ?_, ?_⟩
  · rw [← map_fst_given hload]
    exact mem_map_of_mem hentry
  · exact Source.uri_of_unitOf? (parseAll_of_load hload) entry (mem_append_right _ hentry) u
      hunit

theorem syntaxErrors_of_load : l.syntaxErrors = given.filterMap Source.rejection? := by
  have hrejection := Source.rejection?_of_parseAll (parseAll_of_load hload)
  rw [← map_fst_given hload, filterMap_map, syntaxErrors]
  apply filterMap_congr
  intro entry hentry
  rw [Function.comp_apply, hrejection entry (mem_append_right _ hentry)]
  obtain ⟨s, outcome⟩ := entry
  cases outcome <;> rfl

theorem keptWarnings_eq {u : CompilationUnit} (hu : u ∈ l.units) :
    l.keptWarnings u = (l.raisedIn u).filter (IgnoreInfo.ofComments u.comments).keeps := by
  obtain ⟨hwarnings, hown⟩ := reports_of_load hload
  have hgiven : ∀ d : Diagnostic, d.span.file = some u.uri →
      (l.given.any fun s => d.span.file = some s.1.uri) = true := by
    intro d hfile
    obtain ⟨s, hs, huri⟩ := uri_of_mem_units hload hu
    rw [← map_fst_given hload] at hs
    obtain ⟨entry, hentry, rfl⟩ := mem_map.mp hs
    rw [any_eq_true]
    exact ⟨entry, hentry, by rw [hfile, huri]; simp⟩
  have hfiles : (l.warnings.filter fun d => d.span.file = some u.uri) = l.raisedIn u := by
    rw [warnings, filter_filter, ← hwarnings, filter_map, raisedIn]
    congr 1
    apply filter_congr
    intro r hr
    have hfile : r.warning.span.file = some r.unit.uri := (hown r hr).2
    by_cases huri : r.unit.uri = u.uri
    · have hhere : r.warning.span.file = some u.uri := by rw [hfile, huri]
      rw [Function.comp_apply, hgiven r.warning hhere, decide_eq_true hhere, decide_eq_true huri]
      rfl
    · simp [hfile, huri]
  rw [keptWarnings, hfiles]

theorem diagnostics_lint (c : LintConfig) :
    (l.lint c).diagnostics = given.filterMap Source.rejection? ++
      l.units.flatMap (fun u => (l.raisedIn u).filter (IgnoreInfo.ofComments u.comments).keeps) ++
      l.units.flatMap (fun u => ((l.allFindings c u).filter (isKept u)).map Finding.toDiagnostic) := by
  have hkept : l.units.flatMap l.keptWarnings =
      l.units.flatMap fun u => (l.raisedIn u).filter (IgnoreInfo.ofComments u.comments).keeps :=
    flatMap_congr fun u hu => keptWarnings_eq hload hu
  rw [← syntaxErrors_of_load hload, ← hkept]
  simp only [lint, flatMap_map]

theorem file_of_mem_diagnostics (c : LintConfig) {d : Diagnostic}
    (hd : d ∈ (l.lint c).diagnostics) : ∃ s ∈ given, d.span.file = some s.uri := by
  rcases mem_append.mp hd with hearlier | hfinding
  · rcases mem_append.mp hearlier with hsyntax | hwarning
    · rw [syntaxErrors_of_load hload] at hsyntax
      obtain ⟨s, hs, hrejection⟩ := mem_filterMap.mp hsyntax
      exact ⟨s, hs, Source.file_of_rejection? hrejection⟩
    · obtain ⟨u, hu, hkept⟩ := mem_flatMap.mp hwarning
      obtain ⟨s, hs, huri⟩ := uri_of_mem_units hload hu
      have hfile := (mem_filter.mp (mem_filter.mp hkept).1).2
      exact ⟨s, hs, by rw [of_decide_eq_true hfile, huri]⟩
  · simp only [flatMap_map, mem_flatMap, mem_map] at hfinding
    obtain ⟨u, hu, f, hf, rfl⟩ := hfinding
    obtain ⟨s, hs, huri⟩ := uri_of_mem_units hload hu
    obtain ⟨place, -, hplace⟩ := mem_flatMap.mp (mem_filter.mp hf).1
    refine ⟨s, hs, ?_⟩
    rw [← huri]
    show f.span.file = _
    rw [EffectModel.span_of_mem_findingsAt hplace, Node.file_span]

end

end Loaded

/-- The diagnostics of a run are exactly why given sources are rejected, then for
each given source that parses, in their order, the warnings raised in it that its
comments do not suppress, and then in the same way its findings.  Each warning is
about the one unit in which it was raised, and nothing is said about bundled
libraries. -/
theorem lint_diagnostics_exact {given : List Source} {c : LintConfig} {r : LintResult}
    (hlint : lint given c = .ok r) :
    ∃ l, load (Bundled.besides (distinctSources given)) (distinctSources given) = .ok l ∧
      l.given.map Prod.fst = distinctSources given ∧
      (l.allUnits.map CompilationUnit.uri).Nodup ∧
      (Program.reports l.allUnits).map Report.warning = l.program.warnings ∧
      (∀ report ∈ Program.reports l.allUnits, report.unit ∈ l.allUnits ∧ report.IsOwn) ∧
      r.diagnostics = (distinctSources given).filterMap Source.rejection? ++
        l.units.flatMap (fun u =>
          (l.raisedIn u).filter (IgnoreInfo.ofComments u.comments).keeps) ++
        l.units.flatMap (fun u =>
          ((l.allFindings c u).filter (Loaded.isKept u)).map Finding.toDiagnostic) ∧
      ∀ d ∈ r.diagnostics, (∃ s ∈ given, d.span.file = some s.uri) ∧
        ∀ b ∈ Bundled.besides (distinctSources given), d.span.file ≠ some b.uri := by
  obtain ⟨l, hload, rfl⟩ := lint_eq_ok hlint
  obtain ⟨hwarnings, hown⟩ := Loaded.reports_of_load hload
  have hnodup := Source.nodup_uris_units (Loaded.parseAll_of_load hload)
    (Bundled.nodup_uris_beside (nodup_uris_distinctSources given))
  refine ⟨l, hload, Loaded.map_fst_given hload, hnodup, hwarnings, hown,
    Loaded.diagnostics_lint hload c, fun d hd => ?_⟩
  obtain ⟨s, hs, hfile⟩ := Loaded.file_of_mem_diagnostics hload c hd
  refine ⟨⟨s, mem_of_mem_distinctSources hs, hfile⟩, fun b hb hbundled => ?_⟩
  rw [hfile] at hbundled
  exact Bundled.uri_ne_of_mem_besides hb hs (Option.some.inj hbundled).symm

namespace SmallLibraries

/-- Texts in the place of the bundled libraries, one with a warning that its
comment suppresses and one that it does not, one that is rejected, and one with a
finding. -/
def texts : List Source := [
  ⟨"dart:core", "class Exception \x7b\x7d"⟩, ⟨"dart:convert", ""⟩,
  ⟨"package:throwable/throwable.dart", ""⟩,
  ⟨"lib/a.dart", "f() => x; // ignore: undefined_identifier\ng() => y;"⟩,
  ⟨"lib/b.dart", "class"⟩,
  ⟨"lib/c.dart", "import 'a.dart'; h() \x7b throw Exception(); \x7d"⟩]

theorem reported_exactly :
    ∃ r l, lint texts {} = .ok r ∧ load [] texts = .ok l ∧
      r.diagnostics = texts.filterMap Source.rejection? ++
        l.units.flatMap (fun u =>
          (l.raisedIn u).filter (IgnoreInfo.ofComments u.comments).keeps) ++
        l.units.flatMap (fun u =>
          ((l.allFindings {} u).filter (Loaded.isKept u)).map Finding.toDiagnostic) ∧
      ∀ d ∈ r.diagnostics, ∃ s ∈ texts, d.span.file = some s.uri := by
  have hdistinct : distinctSources texts = texts := by decide
  have hbesides : Bundled.besides texts = [] := by decide
  have hlinted : (match lint texts {} with | .ok _ => true | .error _ => false) = true := by
    decide +kernel
  split at hlinted
  next r hlint =>
    obtain ⟨l, hload, -, -, -, -, hdiagnostics, hfiles⟩ := lint_diagnostics_exact hlint
    rw [hdistinct, hbesides] at hload
    rw [hdistinct] at hdiagnostics
    exact ⟨r, l, hlint, hload, hdiagnostics, fun d hd => (hfiles d hd).1⟩
  next => cases hlinted

end SmallLibraries

end CheckedThrows
