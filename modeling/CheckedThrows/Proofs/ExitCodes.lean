import CheckedThrows.CommandLine
import CheckedThrows.Proofs.Coverage
import CheckedThrows.Proofs.Rejection

/-!
# How a run ends

A run ends with 2 if the table or a source cannot be used, and otherwise with 1
or 0, depending on what is reported, unless a fault stops it: a text that is not
UTF-8, a path with a NUL, a number with too many digits, an option without its
value.  Of several faults the first decides.
-/

namespace CheckedThrows

open List

variable {c : LintConfig} {d : Diagnostic} {reader : FileReader} {path : FilePath}
  {fault : TextFault}
variable {around : List Source} {paths : List FilePath} {given : List Source} {r : LintResult}
  {l : Loaded}

/-! ## What is reported -/

theorem Source.tells_parseAll {next : NodeId} {sources : List Source}
    {parsed : List (Source × Except Diagnostic CompilationUnit)}
    (hparse : parseAll next sources = .ok parsed) : ∀ entry ∈ parsed, entry.1.Tells entry.2 := by
  intro entry hentry
  obtain ⟨-, start, after, hfrom⟩ := parseFrom_of_mem_parseAll hparse entry hentry
  exact parseFrom_tells hfrom

theorem load_eq_ok (hload : load around given = .ok l) :
    ∃ parsed, Source.parseAll 1 (around ++ given) = .ok parsed ∧
      l.around = parsed.take around.length ∧ l.given = parsed.drop around.length ∧
      l.program = .ofUnits (parsed.filterMap Loaded.unitOf?) := by
  unfold load at hload
  cases hparsed : Source.parseAll 1 (around ++ given) with
  | error fault =>
    rw [hparsed] at hload
    cases hload
  | ok parsed =>
    rw [hparsed] at hload
    cases hload
    exact ⟨parsed, rfl, rfl, rfl, rfl⟩

theorem lint_eq_ok (hlint : lint given c = .ok r) :
    ∃ l, load (Bundled.besides (distinctSources given)) (distinctSources given) = .ok l ∧
      l.lint c = r := by
  unfold lint at hlint
  cases hload : load (Bundled.besides (distinctSources given)) (distinctSources given) with
  | error fault =>
    simp only [hload, bind, Except.bind] at hlint
    cases hlint
  | ok l =>
    simp only [hload, bind, Except.bind] at hlint
    exact ⟨l, rfl, Except.ok.inj hlint⟩

namespace Loaded

theorem phase_ne_lint (hload : load around given = .ok l)
    (hd : d ∈ l.syntaxErrors ++ l.units.flatMap l.keptWarnings) : d.phase ≠ some "lint" := by
  intro hphase
  obtain ⟨parsed, hparsed, -, hgiven, hprogram⟩ := load_eq_ok hload
  rcases mem_append.mp hd with hsyntax | hwarning
  · obtain ⟨entry, hentry, herror⟩ := mem_filterMap.mp hsyntax
    have htells := Source.tells_parseAll hparsed entry (by
      rw [hgiven] at hentry
      exact mem_of_mem_drop hentry)
    obtain ⟨s, outcome⟩ := entry
    cases outcome with
    | ok u => cases herror
    | error d' =>
      obtain rfl := Option.some.inj herror
      rw [htells.2.1] at hphase
      exact absurd hphase (by decide)
  · obtain ⟨u, -, hkept⟩ := mem_flatMap.mp hwarning
    have hprogramWarning : d ∈ l.program.warnings := by
      have hfile := (mem_filter.mp hkept).1
      exact (mem_filter.mp (mem_filter.mp hfile).1).1
    rw [hprogram] at hprogramWarning
    obtain ⟨code, -, span, message, rfl⟩ := Program.warning_ofUnits
      (Source.numberedFrom_parseAll hparsed).numbered
      (fun u hu => (Source.proper_parseAll hparsed u hu).shaped) hprogramWarning
    simp [warning] at hphase

theorem mem_findings_of_phase (hload : load around given = .ok l) (c : LintConfig)
    (hd : d ∈ (l.lint c).diagnostics) (hphase : d.phase = some "lint") :
    ∃ found ∈ (l.lint c).findings, d ∈ found.2.map Finding.toDiagnostic := by
  rcases mem_append.mp hd with hearlier | hfinding
  · exact absurd hphase (phase_ne_lint hload hearlier)
  · obtain ⟨found, hfound, hmem⟩ := mem_flatMap.mp hfinding
    exact ⟨found, hfound, hmem⟩

end Loaded

namespace LintResult

def Complains (r : LintResult) : Prop :=
  ∃ d ∈ r.diagnostics, d.severity = "error" ∨ d.phase = some "lint"

theorem complains_iff (hlint : lint given c = .ok r) :
    (r.hasErrors || r.hasFindings) = true ↔ r.Complains := by
  obtain ⟨l, hload, rfl⟩ := lint_eq_ok hlint
  rw [Bool.or_eq_true]
  constructor
  · rintro (herrors | hfindings)
    · obtain ⟨d, hd, herror⟩ := any_eq_true.mp herrors
      exact ⟨d, hd, .inl (eq_of_beq herror)⟩
    · obtain ⟨found, hfound, hsome⟩ := any_eq_true.mp hfindings
      obtain ⟨f, hf⟩ : ∃ f, f ∈ found.2 := by
        apply exists_mem_of_ne_nil
        simpa using hsome
      refine ⟨f.toDiagnostic, mem_append_right _ ?_, .inr rfl⟩
      exact mem_flatMap.mpr ⟨found, hfound, mem_map_of_mem hf⟩
  · rintro ⟨d, hd, hseverity | hphase⟩
    · exact .inl (any_eq_true.mpr ⟨d, hd, beq_iff_eq.mpr hseverity⟩)
    · obtain ⟨found, hfound, hmem⟩ := Loaded.mem_findings_of_phase hload c hd hphase
      refine .inr (any_eq_true.mpr ⟨found, hfound, ?_⟩)
      have hsome : found.2 ≠ [] := by
        intro hnone
        rw [hnone] at hmem
        cases hmem
      simpa using hsome

end LintResult

/-! ## Texts in files -/

def AreTexts (reader : FileReader) (paths : List FilePath) (given : List Source) : Prop :=
  List.Forall₂ (fun path s => ∃ cs, readText reader path = .ok cs ∧
    s = ⟨path.render, String.ofList cs⟩) paths given

def FirstUnread (reader : FileReader) (paths : List FilePath) (path : FilePath)
    (fault : TextFault) : Prop :=
  ∃ before after given, paths = before ++ path :: after ∧ AreTexts reader before given ∧
    readText reader path = .error fault

def TextFault.ofSource (path : FilePath) : TextFault → LintFault
  | .nulInPath => .nulInPath
  | .file fault => .file fault path
  | .encoding fault => .encoding fault

theorem readSources_of_areTexts (htexts : AreTexts reader paths given) :
    readSources reader paths = .ok given := by
  induction htexts with
  | nil => rfl
  | cons hfirst _ ih =>
    obtain ⟨cs, hcs, rfl⟩ := hfirst
    rw [readSources, hcs, ih]
    rfl

theorem readSources_of_firstUnread
    (hfirst : FirstUnread reader paths path fault) :
    readSources reader paths = .error (fault.ofSource path) := by
  obtain ⟨before, after, given, rfl, htexts, hfault⟩ := hfirst
  induction htexts with
  | nil =>
    rw [nil_append, readSources, hfault]
    cases fault <;> rfl
  | cons hread _ ih =>
    obtain ⟨cs, hcs, rfl⟩ := hread
    rw [cons_append, readSources, hcs, ih]
    rfl

theorem areTexts_or_firstUnread (reader : FileReader) (paths : List FilePath) :
    (∃ given, AreTexts reader paths given) ∨ ∃ path fault, FirstUnread reader paths path fault := by
  induction paths with
  | nil => exact .inl ⟨[], .nil⟩
  | cons path paths ih =>
    cases hread : readText reader path with
    | error fault => exact .inr ⟨path, fault, [], paths, [], rfl, .nil, hread⟩
    | ok cs =>
      rcases ih with ⟨given, htexts⟩ | ⟨path', fault, before, after, given, rfl, htexts, hfault⟩
      · exact .inl ⟨_, .cons ⟨cs, hread, rfl⟩ htexts⟩
      · exact .inr ⟨path', fault, path :: before, after, _, rfl,
          .cons ⟨cs, hread, rfl⟩ htexts, hfault⟩

/-! ## Ends of a run -/

namespace Options

variable (o : Options) (reader : FileReader)

inductive HasTable : Option IntrinsicTable → Prop
  | none (hnone : o.intrinsics = none) : HasTable none
  | file {path : FilePath} {document : List Char} {value : Json} {table : IntrinsicTable}
      (hfile : o.intrinsics = some (some path)) (htext : readText reader path = .ok document)
      (hjson : Json.read document = .ok value) (htable : IntrinsicTable.ofJson value = .ok table) :
      HasTable (some table)

/-- There is no file under the path of the table, or what is in it is no table. -/
inductive TableRefused : Prop
  | unreadable {path : FilePath} {fault : FileFault} (hfile : o.intrinsics = some (some path))
      (htext : readText reader path = .error (.file fault))
  | malformed {path : FilePath} {document : List Char} {fault : Json.SyntaxFault}
      (hfile : o.intrinsics = some (some path)) (htext : readText reader path = .ok document)
      (hjson : Json.read document = .error (.malformed fault))
  | invalid {path : FilePath} {document : List Char} {value : Json} {fault : TableFault}
      (hfile : o.intrinsics = some (some path)) (htext : readText reader path = .ok document)
      (hjson : Json.read document = .ok value) (htable : IntrinsicTable.ofJson value = .error fault)

inductive TableStops : RunFault → Prop
  | noTable (hnone : o.intrinsics = some none) : TableStops .noTable
  | nulInPath {path : FilePath} (hfile : o.intrinsics = some (some path))
      (htext : readText reader path = .error .nulInPath) : TableStops .nulInPath
  | encoding {path : FilePath} {fault : Utf8.Fault} (hfile : o.intrinsics = some (some path))
      (htext : readText reader path = .error (.encoding fault)) : TableStops (.encoding fault)
  | overlong {path : FilePath} {document : List Char} {fault : OverlongInteger}
      (hfile : o.intrinsics = some (some path)) (htext : readText reader path = .ok document)
      (hjson : Json.read document = .error (.overlong fault)) : TableStops (.overlong fault)

inductive Unusable : Prop
  | table (hrefused : o.TableRefused reader)
  | source {table : Option IntrinsicTable} {path : FilePath} {fault : FileFault}
      (htable : o.HasTable reader table) (hcodes : none ∉ o.disabled)
      (hfirst : FirstUnread reader o.sources path (.file fault))

inductive Linted (r : LintResult) : Prop
  | intro {table : Option IntrinsicTable} {given : List Source}
      (htable : o.HasTable reader table) (hcodes : none ∉ o.disabled)
      (htexts : AreTexts reader o.sources given) (hlint : lint given (o.config table) = .ok r)

inductive Stops : RunFault → Prop
  | table {fault : RunFault} (hstops : o.TableStops reader fault) : Stops fault
  | noCode {table : Option IntrinsicTable} (htable : o.HasTable reader table)
      (hcodes : none ∈ o.disabled) : Stops .noCode
  | nulInPath {table : Option IntrinsicTable} {path : FilePath}
      (htable : o.HasTable reader table) (hcodes : none ∉ o.disabled)
      (hfirst : FirstUnread reader o.sources path .nulInPath) : Stops .nulInPath
  | encoding {table : Option IntrinsicTable} {path : FilePath} {fault : Utf8.Fault}
      (htable : o.HasTable reader table) (hcodes : none ∉ o.disabled)
      (hfirst : FirstUnread reader o.sources path (.encoding fault)) : Stops (.encoding fault)
  | overlong {table : Option IntrinsicTable} {given : List Source} {fault : OverlongInteger}
      (htable : o.HasTable reader table) (hcodes : none ∉ o.disabled)
      (htexts : AreTexts reader o.sources given)
      (hlint : lint given (o.config table) = .error fault) : Stops (.overlong fault)

variable {o reader}

theorem HasTable.run {table : Option IntrinsicTable} (htable : o.HasTable reader table) :
    o.run reader = o.lintWith reader table := by
  cases htable with
  | none hnone => simp [Options.run, hnone]
  | file hfile htext hjson htable =>
    simp [Options.run, IntrinsicTable.ofFile, hfile, htext, hjson, htable, Except.mapError]

theorem TableRefused.run (hrefused : o.TableRefused reader) :
    ∃ out, o.run reader = .ok out ∧ out.exitCode = 2 := by
  cases hrefused with
  | unreadable hfile htext =>
    simp [Options.run, IntrinsicTable.ofFile, hfile, htext, Outcome.unusable]
  | malformed hfile htext hjson =>
    simp [Options.run, IntrinsicTable.ofFile, hfile, htext, hjson, Outcome.unusable]
  | invalid hfile htext hjson htable =>
    simp [Options.run, IntrinsicTable.ofFile, hfile, htext, hjson, htable, Except.mapError,
      Outcome.unusable]

theorem TableStops.run {fault : RunFault} (hstops : o.TableStops reader fault) :
    o.run reader = .error fault := by
  cases hstops with
  | noTable hnone => simp [Options.run, hnone]
  | nulInPath hfile htext => simp [Options.run, IntrinsicTable.ofFile, hfile, htext]
  | encoding hfile htext => simp [Options.run, IntrinsicTable.ofFile, hfile, htext]
  | overlong hfile htext hjson =>
    simp [Options.run, IntrinsicTable.ofFile, hfile, htext, hjson]

variable (o reader) in
theorem table_cases : (∃ table, o.HasTable reader table) ∨ o.TableRefused reader ∨
    ∃ fault, o.TableStops reader fault := by
  cases hfile : o.intrinsics with
  | none => exact .inl ⟨none, .none hfile⟩
  | some path? =>
    cases path? with
    | none => exact .inr (.inr ⟨_, .noTable hfile⟩)
    | some path =>
      cases htext : readText reader path with
      | error fault =>
        cases fault with
        | nulInPath => exact .inr (.inr ⟨_, .nulInPath hfile htext⟩)
        | file fault => exact .inr (.inl (.unreadable hfile htext))
        | encoding fault => exact .inr (.inr ⟨_, .encoding hfile htext⟩)
      | ok document =>
        cases hjson : Json.read document with
        | error fault =>
          cases fault with
          | malformed fault => exact .inr (.inl (.malformed hfile htext hjson))
          | overlong fault => exact .inr (.inr ⟨_, .overlong hfile htext hjson⟩)
        | ok value =>
          cases htable : IntrinsicTable.ofJson value with
          | error fault => exact .inr (.inl (.invalid hfile htext hjson htable))
          | ok table => exact .inl ⟨some table, .file hfile htext hjson htable⟩

theorem any_isNone_eq_true_iff : o.disabled.any Option.isNone = true ↔ none ∈ o.disabled := by
  simp only [any_eq_true, Option.isNone_iff_eq_none]
  exact ⟨fun ⟨_, hmem, heq⟩ => heq ▸ hmem, fun hmem => ⟨none, hmem, rfl⟩⟩

theorem lintFiles_of_firstUnread
    (hfirst : FirstUnread reader paths path fault) (c : LintConfig) :
    lintFiles reader paths c = .error (fault.ofSource path) := by
  rw [lintFiles, readSources_of_firstUnread hfirst]
  rfl

theorem lintFiles_of_areTexts (htexts : AreTexts reader paths given) (c : LintConfig) :
    lintFiles reader paths c = (lint given c).mapError LintFault.overlong := by
  rw [lintFiles, readSources_of_areTexts htexts]
  rfl

theorem Unusable.run (hunusable : o.Unusable reader) :
    ∃ out, o.run reader = .ok out ∧ out.exitCode = 2 := by
  cases hunusable with
  | table hrefused => exact hrefused.run
  | source htable hcodes hfirst =>
    rw [← any_isNone_eq_true_iff] at hcodes
    simp [htable.run, lintWith, hcodes, lintFiles_of_firstUnread hfirst, TextFault.ofSource,
      Outcome.unusable]

theorem Linted.run (hlinted : o.Linted reader r) : o.run reader = .ok (.ofResult o r) := by
  obtain ⟨htable, hcodes, htexts, hlint⟩ := hlinted
  rw [← any_isNone_eq_true_iff] at hcodes
  simp [htable.run, lintWith, hcodes, lintFiles_of_areTexts htexts, hlint, Except.mapError]

theorem Stops.run {fault : RunFault} (hstops : o.Stops reader fault) :
    o.run reader = .error fault := by
  cases hstops with
  | table hstops => exact hstops.run
  | noCode htable hcodes =>
    rw [← any_isNone_eq_true_iff] at hcodes
    simp [htable.run, lintWith, hcodes]
  | nulInPath htable hcodes hfirst =>
    rw [← any_isNone_eq_true_iff] at hcodes
    simp [htable.run, lintWith, hcodes, lintFiles_of_firstUnread hfirst, TextFault.ofSource]
  | encoding htable hcodes hfirst =>
    rw [← any_isNone_eq_true_iff] at hcodes
    simp [htable.run, lintWith, hcodes, lintFiles_of_firstUnread hfirst, TextFault.ofSource]
  | overlong htable hcodes htexts hlint =>
    rw [← any_isNone_eq_true_iff] at hcodes
    simp [htable.run, lintWith, hcodes, lintFiles_of_areTexts htexts, hlint, Except.mapError]

variable (o reader) in
/-- Every run ends in one of these ways. -/
theorem run_cases : (∃ r, o.Linted reader r) ∨ o.Unusable reader ∨
    ∃ fault, o.Stops reader fault := by
  rcases o.table_cases reader with ⟨table, htable⟩ | hrefused | ⟨fault, hstops⟩
  · by_cases hcodes : none ∈ o.disabled
    · exact .inr (.inr ⟨_, .noCode htable hcodes⟩)
    · rcases areTexts_or_firstUnread reader o.sources with ⟨given, htexts⟩ | ⟨path, fault, hfirst⟩
      · cases hlint : lint given (o.config table) with
        | error fault => exact .inr (.inr ⟨_, .overlong htable hcodes htexts hlint⟩)
        | ok r => exact .inl ⟨r, .intro htable hcodes htexts hlint⟩
      · cases fault with
        | nulInPath => exact .inr (.inr ⟨_, .nulInPath htable hcodes hfirst⟩)
        | file fault => exact .inr (.inl (.source htable hcodes hfirst))
        | encoding fault => exact .inr (.inr ⟨_, .encoding htable hcodes hfirst⟩)
  · exact .inr (.inl (.table hrefused))
  · exact .inr (.inr ⟨fault, .table hstops⟩)

theorem Linted.exitCode (hlinted : o.Linted reader r) :
    (Outcome.ofResult o r).exitCode = 1 ∧ r.Complains ∨
      (Outcome.ofResult o r).exitCode = 0 ∧ ¬r.Complains := by
  obtain ⟨-, -, -, hlint⟩ := hlinted
  have hcode : (Outcome.ofResult o r).exitCode =
      if (r.hasErrors || r.hasFindings) = true then 1 else 0 := by
    unfold Outcome.ofResult
    dsimp only
    split <;> rfl
  rw [← LintResult.complains_iff hlint, hcode]
  by_cases hreported : (r.hasErrors || r.hasFindings) = true
  · exact .inl ⟨if_pos hreported, hreported⟩
  · exact .inr ⟨if_neg hreported, hreported⟩

end Options

/-- A run stops exactly if something stops it, ends with 2 exactly if the table or
a source cannot be used, and otherwise with 1 or 0, depending on whether an error
or a finding is reported. -/
theorem exit_code_exact (o : Options) (reader : FileReader) :
    (∀ fault, o.run reader = .error fault ↔ o.Stops reader fault) ∧
    ∀ code, (∃ out, o.run reader = .ok out ∧ out.exitCode = code) ↔
      code = 2 ∧ o.Unusable reader ∨
      code = 1 ∧ (∃ r, o.Linted reader r ∧ r.Complains) ∨
      code = 0 ∧ ∃ r, o.Linted reader r ∧ ¬r.Complains := by
  constructor
  · intro fault
    constructor
    · intro hrun
      rcases o.run_cases reader with ⟨r, hlinted⟩ | hunusable | ⟨fault', hstops⟩
      · rw [hlinted.run] at hrun
        cases hrun
      · obtain ⟨out, hout, -⟩ := hunusable.run
        rw [hout] at hrun
        cases hrun
      · rw [hstops.run] at hrun
        exact Except.error.inj hrun ▸ hstops
    · exact fun hstops => hstops.run
  · intro code
    constructor
    · rintro ⟨out, hrun, rfl⟩
      rcases o.run_cases reader with ⟨r, hlinted⟩ | hunusable | ⟨fault, hstops⟩
      · rw [hlinted.run] at hrun
        obtain rfl := Except.ok.inj hrun
        rcases hlinted.exitCode with ⟨hone, hcomplains⟩ | ⟨hzero, hclean⟩
        · exact .inr (.inl ⟨hone, r, hlinted, hcomplains⟩)
        · exact .inr (.inr ⟨hzero, r, hlinted, hclean⟩)
      · obtain ⟨out', hout, htwo⟩ := hunusable.run
        rw [hout] at hrun
        obtain rfl := Except.ok.inj hrun
        exact .inl ⟨htwo, hunusable⟩
      · rw [hstops.run] at hrun
        cases hrun
    · rintro (⟨rfl, hunusable⟩ | ⟨rfl, r, hlinted, hcomplains⟩ | ⟨rfl, r, hlinted, hclean⟩)
      · exact hunusable.run
      · rcases hlinted.exitCode with ⟨hone, -⟩ | ⟨-, hclean⟩
        · exact ⟨_, hlinted.run, hone⟩
        · exact absurd hcomplains hclean
      · rcases hlinted.exitCode with ⟨-, hcomplains⟩ | ⟨hzero, -⟩
        · exact absurd hcomplains hclean
        · exact ⟨_, hlinted.run, hzero⟩

namespace NotUtf8

def tree : FileTree := ({} : FileTree).addFile (.ofString "a.dart") [0xff]

theorem source_not_utf8_stops :
    ∃ o, Options.ofArguments ["a.dart"] = .ok o ∧
      o.run tree.read = .error (.encoding ⟨.startByte, 0, 0xff, 1⟩) := by
  refine ⟨{ sources := [.ofString "a.dart"] }, ?_, ?_⟩
  · have hdash : "a.dart".startsWith "-" = false := by
      simp
    have hread : Argument.readAll ["a.dart"] = .ok [.argument (.path "a.dart")] := by
      simp only [Argument.readAll, Argument.read, hdash]
      rfl
    simp [Options.ofArguments, hread, Options.readItems, Options.takePaths, Options.addPaths,
      bind, Except.bind]
  · apply Options.Stops.run
    refine .encoding (.none rfl) not_mem_nil ⟨[], [], [], rfl, .nil, ?_⟩
    have hbytes : tree.read (.ofString "a.dart") = .ok [0xff] := by
      rfl
    have hdecode : Utf8.decode [0xff] = .error ⟨.startByte, 0, 0xff, 1⟩ := by
      simp [Utf8.decode, Utf8.decodeFrom, Utf8.sequence, Utf8.following?]
    have hnul : (FilePath.ofString "a.dart").hasNul = false := by
      cbv
    simp [readText, hnul, hbytes, hdecode]

end NotUtf8

end CheckedThrows
