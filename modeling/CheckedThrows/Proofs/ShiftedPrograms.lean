import CheckedThrows.Proofs.Offsets
import CheckedThrows.Proofs.UnmentionedSource
import Mathlib.Data.Fintype.EquivFin

/-!
# Programs whose offsets differ

Where two lists of trees differ in nothing but offsets and comments, so do their
programs.  Both are compared with the program of the trees without any offset:
it has their findings and their warnings, in the same order, on the same lines
and in the same columns.
-/

namespace CheckedThrows

open List

def Span.withoutOffsets (s : Span) : Span :=
  { s with offset := s.offset.map fun _ => 0, endOffset := s.endOffset.map fun _ => 0 }

def Diagnostic.withoutOffsets (d : Diagnostic) : Diagnostic :=
  { d with span := d.span.withoutOffsets }

structure Finding.SameLine (f f' : Finding) : Prop where
  site : f'.site.relabel .withoutOffsets = f.site.relabel .withoutOffsets
  code : f'.code = f.code
  typeName : f'.typeName = f.typeName
  message : f'.message = f.message
  origin : f'.origin.map Origin.label = f.origin.map Origin.label
  description : f'.description = f.description
  span : f'.span.withoutOffsets = f.span.withoutOffsets

theorem Span.line_of_withoutOffsets {s s' : Span} (h : s'.withoutOffsets = s.withoutOffsets) :
    s'.line = s.line := by
  have hline := congrArg Span.line h
  exact hline

theorem Finding.SameLine.toDiagnostic {f f' : Finding} (h : f.SameLine f') :
    f'.toDiagnostic.withoutOffsets = f.toDiagnostic.withoutOffsets := by
  unfold Finding.toDiagnostic Diagnostic.withoutOffsets
  rw [h.message, h.code, h.span]

def Renaming.withoutOffsets : Renaming where
  toRelabeling := .withoutOffsets
  type ty := ty
  span := Span.withoutOffsets
  node_injective := Function.injective_id
  type_injective := Function.injective_id
  span_ofExtent _ _ := rfl
  span_ofFile _ := rfl
  file_span _ := rfl

/-! ## Programs that stand alone -/

theorem Numbered.relabel {units : List CompilationUnit} (hunits : Numbered units) (r : Renaming) :
    Numbered (units.map (CompilationUnit.relabel r)) := by
  intro v hv v' hv' p hp p' hp' hid
  obtain ⟨u, hu, rfl⟩ := mem_map.mp hv
  obtain ⟨u', hu', rfl⟩ := mem_map.mp hv'
  have hwalk : ∀ u : CompilationUnit, Place.walk (.unit (u.relabel r)) =
      (Place.walk (.unit u)).map (Place.relabel r) :=
    fun u => Place.walkFrom_relabel r (fun _ => rfl) [.root (.unit u)]
  rw [hwalk] at hp hp'
  obtain ⟨q, hq, rfl⟩ := mem_map.mp hp
  obtain ⟨q', hq', rfl⟩ := mem_map.mp hp'
  rw [Place.node_relabel, Place.node_relabel, Node.id_relabel, Node.id_relabel] at hid
  obtain ⟨rfl, rfl⟩ := hunits u hu u' hu' q hq q' hq' (r.node_injective hid)
  exact ⟨rfl, rfl⟩

theorem exists_unmentioned (units : List CompilationUnit) :
    ∃ hidden, Library.coreUri ≠ hidden ∧ ∀ u ∈ units, u.uri ≠ hidden ∧ ¬u.Mentions hidden := by
  let mentioned (u : CompilationUnit) : List String := u.directives.flatMap fun d =>
    d.uri.toString?.toList.flatMap fun text =>
      [text, Uri.normalize (Uri.join (Uri.directory u.uri) text)]
  obtain ⟨hidden, hfresh⟩ := Infinite.exists_notMem_finset
    (Library.coreUri :: units.flatMap fun u => u.uri :: mentioned u).toFinset
  rw [mem_toFinset, mem_cons, not_or] at hfresh
  refine ⟨hidden, Ne.symm hfresh.1, fun u hu => ⟨fun heq => ?_, ?_⟩⟩
  · exact hfresh.2 (mem_flatMap.mpr ⟨u, hu, heq ▸ mem_cons_self⟩)
  · rintro ⟨d, hd, text, htext, hnamed⟩
    refine hfresh.2 (mem_flatMap.mpr ⟨u, hu, mem_cons_of_mem _ ?_⟩)
    refine mem_flatMap.mpr ⟨d, hd, mem_flatMap.mpr ⟨text, by simp [htext], ?_⟩⟩
    rcases hnamed with rfl | rfl <;> simp

section
variable {units : List CompilationUnit} (hnumbered : Numbered units)
  (hshaped : ∀ u ∈ units, (Node.unit u).All Node.WellShaped)
include hnumbered hshaped

theorem exists_standsAlone (r : Renaming) : ∃ hidden, StandsBeside r hidden units none [] := by
  obtain ⟨hidden, hcore, hothers⟩ := exists_unmentioned units
  have hunits : r.unitsBeside units none [] = units.map (CompilationUnit.relabel r) := by
    simp [Relabeling.unitsBeside]
  refine ⟨hidden,
    { uri := fun u hu => absurd hu (Option.not_mem_none u)
      others := ?_
      core := hcore
      mentions := ?_
      numbered := ?_
      numbered' := hunits ▸ hnumbered.relabel r
      shaped' := ?_
      apart := fun u hu => absurd hu (Option.not_mem_none u) }⟩
  · rw [append_nil]
    exact fun u hu => (hothers u hu).1
  · rw [append_nil]
    exact fun u hu => (hothers u hu).2
  · rw [append_nil]
    exact hnumbered
  · rw [hunits]
    intro v hv
    obtain ⟨u, hu, rfl⟩ := mem_map.mp hv
    exact (Node.all_wellShaped_relabel r (.unit u)).mpr (hshaped u hu)

theorem warnings_relabel (r : Renaming) :
    (Program.ofUnits (units.map (CompilationUnit.relabel r))).warnings =
      (Program.ofUnits units).warnings.map (Diagnostic.rename r) := by
  obtain ⟨hidden, hbeside⟩ := exists_standsAlone hnumbered hshaped r
  have hwarnings := hbeside.warnings
  have hunits : r.unitsBeside units none [] = units.map (CompilationUnit.relabel r) := by
    simp [Relabeling.unitsBeside]
  obtain ⟨hreports, hown⟩ := Program.reports_spec hbeside.numbered' hbeside.shaped'
  have helsewhere : ∀ d ∈ (Program.ofUnits (r.unitsBeside units none [])).warnings,
      d.isElsewhere hidden = true := by
    rw [← hreports]
    intro d hd
    obtain ⟨report, hreport, rfl⟩ := mem_map.mp hd
    obtain ⟨hunit, hfile⟩ := hown report hreport
    have hother : report.unit.uri ≠ hidden := by
      intro huri
      cases hbeside.mem_of_uri hunit huri
    exact decide_eq_true fun heq => hother (Option.some.inj (hfile.symm.trans heq))
  rw [Interleaves, filter_eq_self.mpr helsewhere, hunits, append_nil] at hwarnings
  exact hwarnings

end

theorem Finding.sameLine_of_rename {r r' : Renaming} (hr : r.toRelabeling = .withoutOffsets)
    (hr' : r'.toRelabeling = .withoutOffsets) (hspan : r.span = Span.withoutOffsets)
    (hspan' : r'.span = Span.withoutOffsets) {f f' : Finding} (h : f.rename r = f'.rename r') :
    f.SameLine f' := by
  have hlabel : ∀ (r : Renaming) (f : Finding),
      ((f.rename r).origin).map Origin.label = f.origin.map Origin.label := by
    intro r f
    simp only [Finding.rename, Option.map_map]
    congr 1
    funext o
    cases o <;> rfl
  have hsite := congrArg Finding.site h
  have hplace := congrArg Finding.span h
  simp only [Finding.rename, hr, hr', hspan, hspan'] at hsite hplace
  refine ⟨hsite.symm, ?_, ?_, ?_, ?_, ?_, hplace.symm⟩
  · exact (congrArg Finding.code h).symm
  · exact (congrArg Finding.typeName h).symm
  · exact (congrArg Finding.message h).symm
  · rw [← hlabel r f, ← hlabel r' f', h]
  · exact (congrArg Finding.description h).symm

section
variable {units units' : List CompilationUnit} (hnumbered : Numbered units)
  (hnumbered' : Numbered units') (hshaped : ∀ u ∈ units, (Node.unit u).All Node.WellShaped)
  (hshaped' : ∀ u ∈ units', (Node.unit u).All Node.WellShaped)
  (hsame : units'.map (CompilationUnit.relabel .withoutOffsets) =
    units.map (CompilationUnit.relabel .withoutOffsets))
include hnumbered hnumbered' hshaped hshaped' hsame

theorem findings_of_withoutOffsets {u u' : CompilationUnit}
    (hu : u'.relabel .withoutOffsets = u.relabel .withoutOffsets) (t : IntrinsicTable)
    (enabled : List LintCode) :
    List.Forall₂ Finding.SameLine
      ((EffectModel.mk (Program.ofUnits units) t).findings enabled u)
      ((EffectModel.mk (Program.ofUnits units') t).findings enabled u') := by
  obtain ⟨hidden, hbeside⟩ := exists_standsAlone hnumbered hshaped .withoutOffsets
  obtain ⟨hidden', hbeside'⟩ := exists_standsAlone hnumbered' hshaped' .withoutOffsets
  have hold := hbeside.findings t enabled u
  have hnew := hbeside'.findings t enabled u'
  have hunits : Renaming.withoutOffsets.unitsBeside units' none [] =
      Renaming.withoutOffsets.unitsBeside units none [] := by
    simp only [Relabeling.unitsBeside]
    rw [show Renaming.withoutOffsets.toRelabeling = Relabeling.withoutOffsets from rfl, hsame]
  rw [hunits, show u'.relabel Renaming.withoutOffsets.toRelabeling =
    u.relabel Renaming.withoutOffsets.toRelabeling from hu, hold, append_nil, append_nil,
    ← forall₂_eq_eq_eq, forall₂_map_left_iff, forall₂_map_right_iff] at hnew
  exact hnew.imp fun f f' h => Finding.sameLine_of_rename rfl rfl rfl rfl h

theorem warnings_of_withoutOffsets :
    (Program.ofUnits units').warnings.map Diagnostic.withoutOffsets =
      (Program.ofUnits units).warnings.map Diagnostic.withoutOffsets := by
  have hold := warnings_relabel hnumbered hshaped .withoutOffsets
  have hnew := warnings_relabel hnumbered' hshaped' .withoutOffsets
  rw [show Renaming.withoutOffsets.toRelabeling = Relabeling.withoutOffsets from rfl] at hold hnew
  rw [hsame, hold] at hnew
  exact hnew.symm

end

end CheckedThrows
