import CheckedThrows.Proofs.CountedDeclarations
import CheckedThrows.Proofs.Origins
import Mathlib.Data.List.Flatten

/-!
# Where warnings are raised

Each step of making a workspace goes through one unit, and a report is a warning
together with the unit that was gone through when it was raised.  The reports
are the warnings in the order in which they come, and each is about a place in
its unit.
-/

namespace CheckedThrows

open List

structure Report where
  unit : CompilationUnit
  warning : Diagnostic

namespace Report

def raisedIn (u : CompilationUnit) (ds : List Diagnostic) : List Report :=
  ds.map (Report.mk u)

def IsOwn (r : Report) : Prop :=
  r.warning.span.file = some r.unit.uri

@[simp]
theorem map_warning_raisedIn (u : CompilationUnit) (ds : List Diagnostic) :
    (raisedIn u ds).map Report.warning = ds := by
  simp [raisedIn, Function.comp_def]

theorem own_of_mem_raisedIn {u : CompilationUnit} {ds : List Diagnostic}
    (hds : ∀ d ∈ ds, d.span.file = some u.uri) {r : Report} (hr : r ∈ raisedIn u ds) :
    r.unit = u ∧ r.IsOwn := by
  obtain ⟨d, hd, rfl⟩ := mem_map.mp hr
  exact ⟨rfl, hds d hd⟩

end Report

open Report

/-! ## Steps taken one after the other -/

section
variable {σ ι : Type} (log : σ → List Diagnostic) (unit : ι → CompilationUnit) (step : σ → ι → σ)

def stepReports (s : σ) : List ι → List Report
  | [] => []
  | i :: rest =>
    raisedIn (unit i) ((log (step s i)).drop (log s).length) ++ stepReports (step s i) rest

def AddsOwn (s : σ) (i : ι) : Prop :=
  ∃ new, log (step s i) = log s ++ new ∧ ∀ d ∈ new, d.span.file = some (unit i).uri

variable {log unit step} {inv : σ → Prop} {s : σ} {is : List ι}

/-- The reports of steps that keep an invariant are what these add to the log, and
each is about the unit of one of them. -/
theorem stepReports_spec (hstep : ∀ s, inv s → ∀ i ∈ is, inv (step s i) ∧ AddsOwn log unit step s i)
    (hs : inv s) :
    log (is.foldl step s) = log s ++ (stepReports log unit step s is).map Report.warning ∧
      ∀ r ∈ stepReports log unit step s is, (∃ i ∈ is, r.unit = unit i) ∧ r.IsOwn := by
  induction is generalizing s with
  | nil => simp [stepReports]
  | cons i is ih =>
    obtain ⟨hnext, new, hnew, hown⟩ := hstep s hs i mem_cons_self
    obtain ⟨hlog, hreports⟩ :=
      ih (fun s hs j hj => hstep s hs j (mem_cons_of_mem i hj)) hnext
    have hadded : (log (step s i)).drop (log s).length = new := by simp [hnew]
    constructor
    · rw [foldl_cons, hlog, stepReports, hadded, map_append, map_warning_raisedIn,
        hnew, append_assoc]
    · intro r hr
      rw [stepReports, hadded] at hr
      rcases mem_append.mp hr with hfirst | hlater
      · obtain ⟨hunit, hr⟩ := own_of_mem_raisedIn hown hfirst
        exact ⟨⟨i, mem_cons_self, hunit⟩, hr⟩
      · obtain ⟨⟨j, hj, hunit⟩, hr⟩ := hreports r hlater
        exact ⟨⟨j, mem_cons_of_mem i hj, hunit⟩, hr⟩

end

theorem Library.file_of_mem_ofUnit {d : Diagnostic} {t : TypeTable} {u : CompilationUnit}
    (hd : d ∈ (ofUnit t u).2.2) : d.span.file = some u.uri :=
  ((adds_declareAll { unit := u } t u.declarations).warnings d hd).file

namespace Workspace

variable {r : Report} {w : Workspace}

/-! ## The reports of a workspace -/

def declareReports (units : List CompilationUnit) : List Report :=
  stepReports Workspace.warnings id addUnit {} units

def directiveReports (w : Workspace) : List Report :=
  w.libraries.flatMap fun l => raisedIn l.unit (l.link (w.libraries.map Library.uri)).2

def classReports (w : Workspace) : List Report :=
  w.libraries.flatMap fun l => l.classes.flatMap fun c => raisedIn l.unit (w.linkClass l c).2

def memberReportsOf (w : Workspace) (c : ClassInfo) : List Report :=
  match w.libraries.find? c.element.library with
  | some l => if counts l c.element then raisedIn l.unit (Members.ofClass c.element).2 else []
  | none => []

def memberReports (w : Workspace) : List Report :=
  w.classes.flatMap w.memberReportsOf

def reports (units : List CompilationUnit) : List Report :=
  let declared := declare units
  let registered := declared.linkDirectives.registerCore
  declareReports units ++ declared.directiveReports ++ registered.classReports ++
    registered.linkClasses.memberReports

theorem addsOwn_addUnit (w : Workspace) (u : CompilationUnit) :
    AddsOwn Workspace.warnings id addUnit w u := by
  unfold AddsOwn addUnit
  split
  · refine ⟨[duplicateLibrary u], rfl, ?_⟩
    simp only [mem_singleton, forall_eq, duplicateLibrary, warning, CompilationUnit.span]
    split <;> rfl
  · exact ⟨_, rfl, fun d hd => Library.file_of_mem_ofUnit hd⟩

theorem declareReports_spec (units : List CompilationUnit) :
    (declare units).warnings = (declareReports units).map Report.warning ∧
      ∀ r ∈ declareReports units, r.unit ∈ units ∧ r.IsOwn := by
  have hstep : ∀ w : Workspace, True → ∀ u ∈ units,
      True ∧ AddsOwn Workspace.warnings id addUnit w u :=
    fun w _ u _ => ⟨trivial, addsOwn_addUnit w u⟩
  obtain ⟨hlog, hreports⟩ := stepReports_spec (s := {}) hstep trivial
  refine ⟨hlog, fun r hr => ?_⟩
  obtain ⟨⟨u, hu, hunit⟩, hown⟩ := hreports r hr
  rw [hunit]
  exact ⟨hu, hown⟩

theorem linkDirectives_warnings (w : Workspace) :
    w.linkDirectives.warnings = w.warnings ++ w.directiveReports.map Report.warning := by
  simp [linkDirectives, directiveReports, map_flatMap, flatMap_map]

theorem linkClasses_warnings (w : Workspace) :
    w.linkClasses.warnings = w.warnings ++ w.classReports.map Report.warning := by
  simp [linkClasses, classReports, map_flatMap, flatMap_assoc, flatMap_map]

theorem declareMembers_warnings (w : Workspace) :
    w.declareMembers.warnings = w.warnings ++ w.memberReports.map Report.warning := by
  rw [warnings_declareMembers, memberReports, map_flatMap]
  congr 1
  apply flatMap_congr
  intro c _
  unfold withMembers
  unfold memberReportsOf
  cases w.libraries.find? c.element.library with
  | none => simp
  | some l => by_cases hcounts : counts l c.element = true <;> simp [hcounts]

theorem ofUnits_warnings (units : List CompilationUnit) :
    (ofUnits units).warnings = (reports units).map Report.warning := by
  rw [ofUnits, declareMembers_warnings, linkClasses_warnings, warnings_registerCore,
    linkDirectives_warnings, (declareReports_spec units).1]
  simp [reports]

theorem own_of_mem_directiveReports (hr : r ∈ w.directiveReports) :
    (∃ l ∈ w.libraries, r.unit = l.unit) ∧ r.IsOwn := by
  obtain ⟨l, hl, hr⟩ := mem_flatMap.mp hr
  obtain ⟨hunit, hown⟩ := own_of_mem_raisedIn (fun d hd => (Library.isDeclarative_of_mem_link hd).file) hr
  exact ⟨⟨l, hl, hunit⟩, hown⟩

theorem own_of_mem_classReports (hw : ∀ l ∈ w.libraries, l.ScopeDeclared)
    (hr : r ∈ w.classReports) : (∃ l ∈ w.libraries, r.unit = l.unit) ∧ r.IsOwn := by
  obtain ⟨l, hl, hr⟩ := mem_flatMap.mp hr
  obtain ⟨c, hc, hr⟩ := mem_flatMap.mp hr
  have hfile : ∀ d ∈ (w.linkClass l c).2, d.span.file = some l.unit.uri := by
    intro d hd
    rw [(isDeclarative_of_mem_linkClass hd).file, ((hw l hl).classes c hc).2]
    rfl
  obtain ⟨hunit, hown⟩ := own_of_mem_raisedIn hfile hr
  exact ⟨⟨l, hl, hunit⟩, hown⟩

theorem own_of_mem_memberReports (hr : r ∈ w.memberReports) :
    (∃ l ∈ w.libraries, r.unit = l.unit) ∧ r.IsOwn := by
  obtain ⟨c, hc, hr⟩ := mem_flatMap.mp hr
  unfold memberReportsOf at hr
  split at hr
  next l hfound =>
    split at hr
    · have hfile : ∀ d ∈ (Members.ofClass c.element).2, d.span.file = some l.unit.uri := by
        intro d hd
        have huri : l.uri = c.element.library := by simpa using find?_some hfound
        rw [((Members.adds_ofClass c.element).warnings d hd).file, ← huri]
        rfl
      obtain ⟨hunit, hown⟩ := own_of_mem_raisedIn hfile hr
      exact ⟨⟨l, mem_of_find?_eq_some hfound, hunit⟩, hown⟩
    · cases hr
  next => cases hr

theorem own_of_mem_reports {units : List CompilationUnit} (hr : r ∈ reports units) :
    r.unit ∈ units ∧ r.IsOwn := by
  have hlibraries : ∀ l ∈ (linked units).registerCore.libraries,
      l.unit ∈ units ∧ l.ScopeDeclared :=
    fun l hl => library_ofUnits hl
  simp only [reports, mem_append] at hr
  rcases hr with ((hr | hr) | hr) | hr
  · exact (declareReports_spec units).2 r hr
  · obtain ⟨⟨l, hl, hunit⟩, hown⟩ := own_of_mem_directiveReports hr
    rw [hunit]
    exact ⟨unit_mem_of_mem_declare hl, hown⟩
  · obtain ⟨⟨l, hl, hunit⟩, hown⟩ := own_of_mem_classReports (fun l hl => (hlibraries l hl).2) hr
    rw [hunit]
    exact ⟨(hlibraries l hl).1, hown⟩
  · obtain ⟨⟨l, hl, hunit⟩, hown⟩ := own_of_mem_memberReports hr
    rw [hunit]
    exact ⟨(hlibraries l hl).1, hown⟩

end Workspace

end CheckedThrows
