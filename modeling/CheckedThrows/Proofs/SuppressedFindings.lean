import CheckedThrows.Proofs.IgnoreComments
import CheckedThrows.Proofs.RemarkedTexts
import CheckedThrows.Proofs.ShiftedPrograms

/-!
# Comments that suppress findings

A comment that names a code is put at the end of a line.  The text still parses, to
the same tokens on the same lines and in the same columns, and a run reports what
it reported before, the findings with this code on this line apart.
-/

namespace CheckedThrows

open List

variable {s' : Source} {related : CompilationUnit → CompilationUnit → Prop}
variable (code : LintCode) {s : Source} {u : CompilationUnit}

/-! ## The comment -/

theorem trimBlanks_append {blanks : List Char} (hblanks : ∀ c ∈ blanks, isBlank c = true)
    (cs : List Char) : trimBlanks (cs ++ blanks) = trimBlanks cs := by
  have hnone : blanks.dropWhile isBlank = [] := dropWhile_eq_nil_iff.mpr hblanks
  unfold trimBlanks dropBlanks
  rw [dropWhile_append]
  split
  next hempty => rw [hnone, isEmpty_iff.mp hempty]
  next =>
    rw [reverse_append,
      dropWhile_append_of_pos fun c hc => hblanks c (mem_reverse.mp hc)]

theorem Lexeme.EndsLine.takeWhile {cs : List Char} (h : EndsLine cs) :
    ∀ c ∈ cs.takeWhile (· ≠ '\n'), c = '\r' := by
  induction h with
  | done => simp
  | feed rest => simp
  | back _ ih => simpa using ih

namespace LintCode

def ignoreWords (code : LintCode) : String :=
  " ignore: " ++ code.text

theorem lowerCase_text : lowerCase code.text = code.text := by
  cases code <;> rfl

theorem blockTail?_ignoreWords :
    Lexeme.blockTail? (Lexeme.remark code.ignoreWords.toList) = none := by
  cases code <;> rfl

theorem text_injective : Function.Injective text := by
  intro code code' heq
  cases code <;> cases code' <;> first | rfl | exact absurd heq (by decide)

section
variable (code : LintCode) {blanks : List Char} (hblanks : ∀ c ∈ blanks, c = '\r')
include hblanks

theorem argument?_ignoreWords :
    Remark.argument? "ignore:" ('/' :: '/' :: (code.ignoreWords.toList ++ blanks)) =
      some (code.text.toList ++ blanks) := by
  have hfeed : '\n' ∉ code.text.toList := by cases code <;> decide
  have hline : ∀ c ∈ code.text.toList ++ blanks, decide (c ≠ '\n') = true := by
    intro c hc
    rcases mem_append.mp hc with hc | hc
    · exact decide_eq_true fun heq => hfeed (heq ▸ hc)
    · rw [hblanks c hc]
      decide
  have hwords : dropBlanks (code.ignoreWords.toList ++ blanks) =
      "ignore:".toList ++ ' ' :: (code.text.toList ++ blanks) := by
    cases code <;> rfl
  have hdrop : dropBlanks (' ' :: (code.text.toList ++ blanks)) = code.text.toList ++ blanks := by
    cases code <;> rfl
  simp only [Remark.argument?, hwords]
  rw [if_pos (by simp), show "ignore:".length = "ignore:".toList.length from rfl, drop_left,
    hdrop, takeWhile_eq_self_iff.mpr hline]
  simp

theorem codes_ignoreWords : Remark.codes (code.text.toList ++ blanks) = [code.text] := by
  have hcomma : ',' ∉ code.text.toList ++ blanks := by
    intro hmem
    rcases mem_append.mp hmem with hc | hc
    · revert hc
      cases code <;> decide
    · exact absurd (hblanks _ hc) (by decide)
  have hcode : Remark.code? code.text.toList = some code.text := by
    cases code <;> rfl
  have hblank : ∀ c ∈ blanks, isBlank c = true := by
    intro c hc
    rw [hblanks c hc]
    decide
  rw [Remark.code?] at hcode
  rw [Remark.codes, splitOn_eq_singleton hcomma, filterMap_cons, filterMap_nil,
    Remark.code?, trimBlanks_append hblank, hcode]

theorem suppresses_ignoreWords (line : Int) (other : String) (place : Option Int) (isLint : Bool) :
    (Remark.mk (String.ofList ('/' :: '/' :: (code.ignoreWords.toList ++ blanks))) (some line)
        false).suppresses other place isLint =
      (place = some line && lowerCase other = code.text) := by
  have hfile : Remark.argument? "ignore_for_file:"
      ('/' :: '/' :: (code.ignoreWords.toList ++ blanks)) = none := by
    cases code <;> rfl
  have hnames : IgnoreInfo.names [code.text] other isLint = decide (lowerCase other = code.text) := by
    have hlints : IgnoreInfo.allLints ≠ code.text := by cases code <;> decide
    simp [IgnoreInfo.names, hlints, contains_eq_mem]
  unfold Remark.suppresses Remark.fileCodes? Remark.lineCodes?
  simp only [String.toList_ofList, hfile, code.argument?_ignoreWords hblanks,
    code.codes_ignoreWords hblanks, Option.map_none, Option.bind_eq_bind, Option.bind_some]
  show (decide (place = some line) && IgnoreInfo.names [code.text] other isLint) = _
  rw [hnames]

end

end LintCode

/-! ## The text -/

/-- A unit `u'` is `u` with other offsets, and if it has the uri, its comments
suppress one code more, on one line. -/
structure CompilationUnit.Ignores (uri : String) (code : LintCode) (line : Int)
    (u u' : CompilationUnit) : Prop where
  tree : u'.relabel .withoutOffsets = u.relabel .withoutOffsets
  isIgnored : ∀ other place isLint,
    (IgnoreInfo.ofComments u'.comments).isIgnored other place isLint =
      ((IgnoreInfo.ofComments u.comments).isIgnored other place isLint ||
        (u.uri = uri && (place = some line && lowerCase other = code.text)))

namespace CompilationUnit.Ignores

variable {uri : String} {code : LintCode} {line : Int} {u u' : CompilationUnit}

theorem of_ne (hu : u.uri ≠ uri) : u.Ignores uri code line u :=
  ⟨rfl, fun _ _ _ => by simp [hu]⟩

theorem uri_eq (h : u.Ignores uri code line u') : u'.uri = u.uri := by
  have huri := congrArg CompilationUnit.uri h.tree
  exact huri

end CompilationUnit.Ignores

namespace Source

def ignoring (s : Source) (offset : Nat) (code : LintCode) : Source :=
  s.withRemark offset code.ignoreWords

def lineAt (s : Source) (offset : Nat) : Int :=
  (Position.ofOffset s.chars offset).line

theorem stuck_of_parse (hparse : s.parse = .ok (.ok u)) : (Scan.of s.chars).stuck = none := by
  obtain ⟨htree, -⟩ := parse_eq_ok_iff.mp hparse
  cases hstuck : (Scan.of s.chars).stuck with
  | none => rfl
  | some place => simp [tree, tokens, hstuck, bind, Except.bind] at htree

namespace TakesRemark

variable {s : Source} {offset : Nat} (hs : s.TakesRemark offset) (code : LintCode)
  {u : CompilationUnit} (hparse : s.parse = .ok (.ok u))
include hs hparse

theorem tokens_ignoring :
    ∃ w w', s.tokens = .ok w ∧ (s.ignoring offset code).tokens = .ok w' ∧
      w'.map Token.withoutOffsets = w.map Token.withoutOffsets := by
  have hwords : '\n' ∉ code.ignoreWords.toList := by cases code <;> decide
  exact hs.tokens_withRemark hwords code.blockTail?_ignoreWords (stuck_of_parse hparse)

theorem isIgnored_ignoring (other : String) (place : Option Int) (isLint : Bool) :
    (IgnoreInfo.ofComments (s.ignoring offset code).comments).isIgnored other place isLint =
      ((IgnoreInfo.ofComments s.comments).isIgnored other place isLint ||
        (place = some (s.lineAt offset) && lowerCase other = code.text)) := by
  have hwords : '\n' ∉ code.ignoreWords.toList := by cases code <;> decide
  obtain ⟨earlier, later, hold, hnew⟩ :=
    hs.remarks_withRemark hwords code.blockTail?_ignoreWords (stuck_of_parse hparse)
  rw [IgnoreInfo.ofComments, IgnoreInfo.ofComments, ignoring, hold, hnew,
    IgnoreInfo.isIgnored_ofRemarks, IgnoreInfo.isIgnored_ofRemarks, any_append, any_append,
    any_cons, code.suppresses_ignoreWords hs.ends.takeWhile, lineAt]
  rw [Bool.or_left_comm, Bool.or_comm]

omit hparse in
theorem parseFrom_ignoring {next after : NodeId} (hparse : s.parseFrom next = .ok (.ok u, after)) :
    ∃ u', (s.ignoring offset code).parseFrom next = .ok (.ok u', after) ∧
      u.Ignores s.uri code (s.lineAt offset) u' := by
  obtain ⟨t, ht, -⟩ := parseFrom_eq_ok_iff.mp hparse
  obtain ⟨w, w', hlex, hlex', hplaces⟩ := hs.tokens_ignoring code ht
  have huri : (s.ignoring offset code).uri = s.uri := rfl
  obtain ⟨u', hparse', htree⟩ := parseFrom_of_tokens huri hlex hlex' hplaces hparse
  refine ⟨u', hparse', htree, fun other place isLint => ?_⟩
  have hown : u.uri = s.uri := parseFrom_tells hparse
  rw [comments_of_parseFrom hparse, comments_of_parseFrom hparse', hown, decide_eq_true rfl,
    Bool.true_and]
  exact hs.isIgnored_ignoring code ht other place isLint

end TakesRemark

/-! ## The run -/

/-- One text can stand for another, and the numbers of the others stay, if it uses
up the same numbers. -/
theorem parseAll_replace (hparse : s.parse = .ok (.ok u))
    (hlike : ∀ {next u after}, s.parseFrom next = .ok (.ok u, after) →
      ∃ u', s'.parseFrom next = .ok (.ok u', after) ∧ related u u') (before after : List Source)
    (next : NodeId) :
    (∃ fault, parseAll next (before ++ s :: after) = .error fault ∧
        parseAll next (before ++ s' :: after) = .error fault) ∨
      ∃ first rest v v', first.length = before.length ∧ related v v' ∧
        parseAll next (before ++ s :: after) = .ok (first ++ (s, .ok v) :: rest) ∧
        parseAll next (before ++ s' :: after) = .ok (first ++ (s', .ok v') :: rest) := by
  induction before generalizing next with
  | nil =>
    have hfirst : s.parseFrom next = .ok (.ok (u.number next).1, (u.number next).2) :=
      parseFrom_eq_ok_iff.mpr ⟨u, hparse, rfl⟩
    obtain ⟨v', hfirst', hrelated⟩ := hlike hfirst
    simp only [nil_append, parseAll, hfirst, hfirst', bind, Except.bind]
    cases parseAll (u.number next).2 after with
    | error fault => exact .inl ⟨fault, rfl, rfl⟩
    | ok rest => exact .inr ⟨[], rest, _, v', rfl, hrelated, rfl, rfl⟩
  | cons s₀ before ih =>
    simp only [cons_append, parseAll]
    cases s₀.parseFrom next with
    | error fault => exact .inl ⟨fault, rfl, rfl⟩
    | ok entry =>
      simp only [bind, Except.bind]
      rcases ih entry.2 with ⟨fault, hold, hnew⟩ |
        ⟨first, rest, v, v', hlength, hrelated, hold, hnew⟩
      · exact .inl ⟨fault, by rw [hold], by rw [hnew]⟩
      · refine .inr ⟨(s₀, entry.1) :: first, rest, v, v', by simp [hlength], hrelated, ?_, ?_⟩
        · rw [hold]
          rfl
        · rw [hnew]
          rfl

end Source

theorem load_replace (hparse : s.parse = .ok (.ok u))
    (hlike : ∀ {next u after}, s.parseFrom next = .ok (.ok u, after) →
      ∃ u', s'.parseFrom next = .ok (.ok u', after) ∧ related u u')
    (around before after : List Source) :
    (∃ fault, load around (before ++ s :: after) = .error fault ∧
        load around (before ++ s' :: after) = .error fault) ∨
      ∃ l l' first rest v v', load around (before ++ s :: after) = .ok l ∧
        load around (before ++ s' :: after) = .ok l' ∧ related v v' ∧ l'.around = l.around ∧
        l.given = first ++ (s, .ok v) :: rest ∧ l'.given = first ++ (s', .ok v') :: rest := by
  unfold load
  rw [← append_assoc, ← append_assoc]
  rcases Source.parseAll_replace hparse hlike (around ++ before) after 1 with
    ⟨fault, hold, hnew⟩ | ⟨first, rest, v, v', hlength, hrelated, hold, hnew⟩
  · rw [hold, hnew]
    exact .inl ⟨fault, rfl, rfl⟩
  · have hle : around.length ≤ first.length := by
      rw [hlength, length_append]
      exact Nat.le_add_right _ _
    rw [hold, hnew]
    refine .inr ⟨_, _, first.drop around.length, rest, v, v', rfl, rfl, hrelated, ?_, ?_, ?_⟩
    · show List.take _ _ = List.take _ _
      rw [take_append_of_le_length hle, take_append_of_le_length hle]
    · exact drop_append_of_le_length hle
    · exact drop_append_of_le_length hle

def Finding.isOn (code : LintCode) (line : Int) (f : Finding) : Bool :=
  f.code = code && f.span.line = some line

def Diagnostic.isFindingOn (uri : String) (code : LintCode) (line : Int) (d : Diagnostic) : Bool :=
  d.phase = some "lint" && (d.span.file = some uri && (d.code = some code.text &&
    d.span.line = some line))

/-- A run `r'` reports the same as `r` and in the same order, the findings with the
code on the line of the file apart, and offsets may differ. -/
structure LintResult.Without (uri : String) (code : LintCode) (line : Int) (r r' : LintResult) :
    Prop where
  findings : List.Forall₂ (fun old new => new.1 = old.1 ∧
    List.Forall₂ Finding.SameLine
      (old.2.filter fun f => !(old.1 = uri && f.isOn code line)) new.2) r.findings r'.findings
  diagnostics : r'.diagnostics.map Diagnostic.withoutOffsets =
    (r.diagnostics.filter fun d => !d.isFindingOn uri code line).map Diagnostic.withoutOffsets

theorem LintCode.text_ne_of_mem_codes (code : LintCode) {other : String}
    (hother : other ∈ declarationCodes ++ "undefined_identifier" :: bodyCodes) :
    lowerCase other ≠ code.text := by
  have hall : ∀ other ∈ declarationCodes ++ "undefined_identifier" :: bodyCodes,
      lowerCase other ∉ LintCode.all.map LintCode.text := by
    decide +kernel
  intro heq
  apply hall other hother
  rw [heq]
  cases code <;> decide

theorem Diagnostic.filter_withoutOffsets {p : Diagnostic → Bool}
    (hp : ∀ d : Diagnostic, p d.withoutOffsets = p d) {ds ds' : List Diagnostic}
    (h : ds'.map withoutOffsets = ds.map withoutOffsets) :
    (ds'.filter p).map withoutOffsets = (ds.filter p).map withoutOffsets := by
  have hfilter : ∀ ds : List Diagnostic,
      (ds.filter p).map withoutOffsets = (ds.map withoutOffsets).filter p := by
    intro ds
    rw [filter_map]
    congr 2
    funext d
    exact (hp d).symm
  rw [hfilter, hfilter, h]

theorem map_flatMap_of_forall₂ {α β γ δ : Type} {related : α → β → Prop} {xs : List α} {ys : List β}
    (h : List.Forall₂ related xs ys) {f : α → List γ} {g : β → List γ} {shown : γ → δ}
    (hsame : ∀ x y, related x y → (g y).map shown = (f x).map shown) :
    (ys.flatMap g).map shown = (xs.flatMap f).map shown := by
  induction h with
  | nil => rfl
  | cons hxy _ ih =>
    rw [flatMap_cons, flatMap_cons, map_append, map_append, ih, hsame _ _ hxy]

namespace Loaded

/-- A run `l'` was given the same trees as `l`, offsets apart, with a comment more in
one of them. -/
structure Ignores (uri : String) (code : LintCode) (line : Int) (l l' : Loaded) : Prop where
  units : List.Forall₂ (CompilationUnit.Ignores uri code line) l.units l'.units
  uris : (l'.given.map fun entry => entry.1.uri) = l.given.map fun entry => entry.1.uri
  syntaxErrors : l'.syntaxErrors = l.syntaxErrors
  trees : l'.allUnits.map (CompilationUnit.relabel .withoutOffsets) =
    l.allUnits.map (CompilationUnit.relabel .withoutOffsets)

section
variable {around given given' : List Source} {l l' : Loaded} {s s' : Source}
  {first rest : List (Source × Except Diagnostic CompilationUnit)} {v v' : CompilationUnit}
  {code : LintCode} {line : Int}

theorem ignores_of_replace (hload : load around given = .ok l)
    (hdistinct : (given.map Source.uri).Nodup) (huri : s'.uri = s.uri)
    (hv : v.Ignores s.uri code line v') (haround : l'.around = l.around)
    (hgiven : l.given = first ++ (s, .ok v) :: rest)
    (hgiven' : l'.given = first ++ (s', .ok v') :: rest) : l.Ignores s.uri code line l' := by
  -- The sources beside the changed one have other uris, so nothing changes for them.
  have hother : ∀ u ∈ (first ++ rest).filterMap unitOf?, u.uri ≠ s.uri := by
    intro u hu
    obtain ⟨entry, hentry, hunit⟩ := mem_filterMap.mp hu
    have hmem : entry ∈ l.given := by
      rw [hgiven]
      exact mem_append.mpr ((mem_append.mp hentry).imp id (mem_cons_of_mem _))
    rw [uri_of_given hload entry hmem u hunit]
    rw [← map_fst_given hload, hgiven, map_map, map_append, map_cons,
      nodup_middle, ← map_append, nodup_cons] at hdistinct
    intro heq
    exact hdistinct.1 (mem_map.mpr ⟨entry, hentry, heq⟩)
  have hsame : ∀ us ⊆ (first ++ rest).filterMap unitOf?,
      List.Forall₂ (CompilationUnit.Ignores s.uri code line) us us :=
    fun us hus => forall₂_same.mpr fun u hu => .of_ne (hother u (hus hu))
  rw [filterMap_append] at hsame
  refine ⟨?_, ?_, ?_, ?_⟩
  · rw [units, units, hgiven, hgiven', filterMap_append, filterMap_append]
    exact rel_append (hsame _ (subset_append_left _ _))
      (.cons hv (hsame _ (subset_append_right _ _)))
  · rw [hgiven, hgiven', map_append, map_append, map_cons, map_cons, huri]
  · rw [syntaxErrors, syntaxErrors, hgiven, hgiven', filterMap_append, filterMap_append]
    rfl
  · rw [allUnits, allUnits, hgiven, hgiven', haround, filterMap_append, filterMap_append,
      filterMap_append, filterMap_append]
    simp only [map_append, filterMap_cons, unitOf?, map_cons, hv.tree]

end

namespace Ignores

variable {u u' : CompilationUnit}
variable {around given given' : List Source} {l l' : Loaded} {uri : String} {code : LintCode}
  {line : Int} (h : l.Ignores uri code line l') (hload : load around given = .ok l)
  (hload' : load around given' = .ok l')
include h hload hload'
variable (c : LintConfig)

theorem warnings : l'.warnings.map Diagnostic.withoutOffsets =
    l.warnings.map Diagnostic.withoutOffsets := by
  have hprogram : l'.program.warnings.map Diagnostic.withoutOffsets =
      l.program.warnings.map Diagnostic.withoutOffsets := by
    have hparsed := parseAll_of_load hload
    have hparsed' := parseAll_of_load hload'
    rw [program_of_load hload, program_of_load hload']
    exact warnings_of_withoutOffsets (Source.numberedFrom_parseAll hparsed).numbered
      (Source.numberedFrom_parseAll hparsed').numbered
      (fun u hu => (Source.proper_parseAll hparsed u hu).shaped)
      (fun u hu => (Source.proper_parseAll hparsed' u hu).shaped) h.trees
  have hgiven : ∀ d : Diagnostic, (l'.given.any fun s => d.span.file = some s.1.uri) =
      l.given.any fun s => d.span.file = some s.1.uri := by
    intro d
    have hany := congrArg (List.any · fun uri => decide (d.span.file = some uri)) h.uris
    simpa only [any_map, Function.comp_def] using hany
  unfold Loaded.warnings
  simp only [hgiven]
  apply Diagnostic.filter_withoutOffsets _ hprogram
  exact fun d => rfl

theorem findings (hu : u.Ignores uri code line u') :
    List.Forall₂ Finding.SameLine (l.allFindings c u) (l'.allFindings c u') := by
  have hparsed := parseAll_of_load hload
  have hparsed' := parseAll_of_load hload'
  unfold allFindings model
  rw [program_of_load hload, program_of_load hload']
  exact findings_of_withoutOffsets (Source.numberedFrom_parseAll hparsed).numbered
    (Source.numberedFrom_parseAll hparsed').numbered
    (fun u hu => (Source.proper_parseAll hparsed u hu).shaped)
    (fun u hu => (Source.proper_parseAll hparsed' u hu).shaped) h.trees hu.tree _ _

theorem keptWarnings (hu : u.Ignores uri code line u') :
    (l'.keptWarnings u').map Diagnostic.withoutOffsets =
      (l.keptWarnings u).map Diagnostic.withoutOffsets := by
  have hcodes : ∀ d ∈ l'.warnings.filter (fun d => d.span.file = some u'.uri),
      (IgnoreInfo.ofComments u'.comments).keeps d = (IgnoreInfo.ofComments u.comments).keeps d := by
    intro d hd
    have hwarning : d ∈ l'.program.warnings :=
      (mem_filter.mp (mem_filter.mp hd).1).1
    rw [program_of_load hload'] at hwarning
    have hparsed := parseAll_of_load hload'
    obtain ⟨other, hother, span, message, rfl⟩ := Program.warning_ofUnits
      (Source.numberedFrom_parseAll hparsed).numbered
      (fun u hu => (Source.proper_parseAll hparsed u hu).shaped) hwarning
    have hnone := decide_eq_false (code.text_ne_of_mem_codes hother)
    simp only [IgnoreInfo.keeps, warning, hu.isIgnored, hnone, Bool.and_false, Bool.or_false]
  rw [Loaded.keptWarnings, Loaded.keptWarnings, filter_congr hcodes, hu.uri_eq]
  refine Diagnostic.filter_withoutOffsets (fun d => rfl) ?_
  exact Diagnostic.filter_withoutOffsets (fun d => rfl) (h.warnings hload hload')

theorem keptFindings (hu : u.Ignores uri code line u') :
    List.Forall₂ Finding.SameLine
      (((l.allFindings c u).filter (isKept u)).filter fun f =>
        !(u.uri = uri && f.isOn code line))
      ((l'.allFindings c u').filter (isKept u')) := by
  have hkept : ∀ f f' : Finding, f.SameLine f' →
      (isKept u' f' = true ↔
        ((!(decide (u.uri = uri) && f.isOn code line)) && isKept u f) = true) := by
    intro f f' hsame
    have hcode : decide (lowerCase f.code.text = code.text) = decide (f.code = code) := by
      rw [LintCode.lowerCase_text]
      exact decide_eq_decide.mpr LintCode.text_injective.eq_iff
    simp only [isKept, hsame.code, Span.line_of_withoutOffsets hsame.span, hu.isIgnored, hcode,
      Finding.isOn]
    rw [Bool.not_or, Bool.and_comm, Bool.and_comm (decide (f.code = code))]
  rw [filter_filter]
  exact rel_filter (fun f f' hsame => (hkept f f' hsame).symm) (h.findings hload hload' c hu)

theorem diagnostics :
    (l'.lint c).diagnostics.map Diagnostic.withoutOffsets =
      ((l.lint c).diagnostics.filter fun d => !d.isFindingOn uri code line).map
        Diagnostic.withoutOffsets := by
  have hearlier : ∀ d ∈ l.syntaxErrors ++ l.units.flatMap l.keptWarnings,
      (!d.isFindingOn uri code line) = true := by
    intro d hd
    rw [Diagnostic.isFindingOn, decide_eq_false (phase_ne_lint hload hd)]
    rfl
  -- A finding that a unit reports is about its own file.
  have hfindings : ∀ u : CompilationUnit,
      (((l.allFindings c u).filter (isKept u)).map Finding.toDiagnostic).filter
          (fun d => !d.isFindingOn uri code line) =
        (((l.allFindings c u).filter (isKept u)).filter fun f =>
          !(u.uri = uri && f.isOn code line)).map Finding.toDiagnostic := by
    intro u
    rw [filter_map]
    congr 1
    apply filter_congr
    intro f hf
    have hfile := l.file_keptFindings c u _ (mem_map_of_mem hf)
    have hcode : f.toDiagnostic.code = some code.text ↔ f.code = code :=
      Option.some_inj.trans LintCode.text_injective.eq_iff
    rw [Function.comp_apply, Diagnostic.isFindingOn, hfile, Finding.isOn]
    simp only [hcode, Option.some_inj]
    rfl
  rw [diagnostics_eq, diagnostics_eq, filter_append, filter_eq_self.mpr hearlier,
    map_append, map_append, map_append, map_append, h.syntaxErrors,
    map_flatMap_of_forall₂ h.units fun _ _ hu => h.keptWarnings hload hload' hu,
    filter_flatMap]
  congr 1
  refine map_flatMap_of_forall₂ h.units fun u u' hu => ?_
  rw [hfindings, map_map, map_map]
  have hkept := h.keptFindings hload hload' c hu
  rw [← forall₂_eq_eq_eq, forall₂_map_left_iff, forall₂_map_right_iff]
  exact hkept.flip.imp fun f f' hsame => hsame.toDiagnostic

theorem without : (l.lint c).Without uri code line (l'.lint c) := by
  refine ⟨?_, h.diagnostics hload hload' c⟩
  simp only [lint, map_map]
  rw [forall₂_map_left_iff, forall₂_map_right_iff]
  exact h.units.imp fun u u' hu => ⟨hu.uri_eq, h.keptFindings hload hload' c hu⟩

end Ignores

end Loaded

/-- A comment at the end of a line suppresses exactly what it names.  Let a text
parse, and let a line end at an offset on which something stands but no line
comment, not inside a block comment.  With a comment there that names a code the
text parses, to the same tokens on the same lines and in the same columns.  A run
fails as it did before, or it lacks the findings with this code on this line of
the text, and everything else is the same and in the same order. -/
theorem lint_ignoring {before after : List Source} {s : Source} {u : CompilationUnit}
    {offset : Nat} (hdistinct : ((before ++ s :: after).map Source.uri).Nodup)
    (hparse : s.parse = .ok (.ok u)) (hs : s.TakesRemark offset) (code : LintCode)
    (c : LintConfig) :
    (∃ u', (s.ignoring offset code).parse = .ok (.ok u')) ∧
      (∃ w w', s.tokens = .ok w ∧ (s.ignoring offset code).tokens = .ok w' ∧
        w'.map Token.withoutOffsets = w.map Token.withoutOffsets) ∧
      match lint (before ++ s :: after) c, lint (before ++ s.ignoring offset code :: after) c with
      | .ok r, .ok r' => r.Without s.uri code (s.lineAt offset) r'
      | .error fault, .error fault' => fault = fault'
      | _, _ => False := by
  have htokens := hs.tokens_ignoring code hparse
  refine ⟨?_, htokens, ?_⟩
  · obtain ⟨w, w', hlex, hlex', hplaces⟩ := htokens
    have huri : (s.ignoring offset code).uri = s.uri := rfl
    obtain ⟨u', hparse', -⟩ := Source.parse_of_tokens huri hlex hlex' hplaces hparse
    exact ⟨u', hparse'⟩
  · have huris : (before ++ s.ignoring offset code :: after).map Source.uri =
        (before ++ s :: after).map Source.uri := by
      rw [map_append, map_append]
      rfl
    have hbesides : Bundled.besides (before ++ s.ignoring offset code :: after) =
        Bundled.besides (before ++ s :: after) := by
      apply filter_congr
      intro b _
      simp only [any_append, any_cons]
      rfl
    unfold lint
    simp only [distinctSources_of_nodup hdistinct, distinctSources_of_nodup (huris ▸ hdistinct),
      hbesides]
    rcases load_replace hparse (hs.parseFrom_ignoring code) (Bundled.besides (before ++ s :: after))
        before after with
      ⟨fault, hload, hload'⟩ | ⟨l, l', first, rest, v, v', hload, hload', hv, haround, hgiven,
        hgiven'⟩
    · rw [hload, hload']
      rfl
    · rw [hload, hload']
      have huri : (s.ignoring offset code).uri = s.uri := rfl
      exact (Loaded.ignores_of_replace hload hdistinct huri hv haround hgiven hgiven').without
        hload hload' c

namespace IgnoredThrow

def before : List Source := [
  ⟨"dart:core", "class Exception \x7b\x7d"⟩, ⟨"dart:convert", ""⟩,
  ⟨"package:throwable/throwable.dart", ""⟩]

def text : Source := ⟨"lib/a.dart", "f() => throw Exception();\ng() => throw Exception();"⟩

theorem takesRemark : text.TakesRemark 25 where
  inside := by decide
  ends := by
    have hdrop : text.chars.drop 25 = '\n' :: "g() => throw Exception();".toList := by
      decide +kernel
    exact .feed _
  solid := ⟨'f', by decide +kernel, by decide⟩
  free := by decide +kernel
  outside := by decide +kernel

theorem first_line_ignored :
    ∃ r r', lint (before ++ [text]) {} = .ok r ∧
      lint (before ++ [text.ignoring 25 .unhandledThrow]) {} = .ok r' ∧
      r.Without "lib/a.dart" .unhandledThrow 1 r' ∧
      r.diagnostics.length = 2 ∧ r'.diagnostics.length = 1 := by
  have hparsed : (text.parse.toOption.bind Except.toOption).isSome = true := by decide +kernel
  have hcount : (lint (before ++ [text]) {}).map (fun r => r.diagnostics.length) = .ok 2 := by
    decide +kernel
  have hcount' : (lint (before ++ [text.ignoring 25 .unhandledThrow]) {}).map
      (fun r => r.diagnostics.length) = .ok 1 := by
    decide +kernel
  cases hparse : text.parse with
  | error fault =>
    rw [hparse] at hparsed
    cases hparsed
  | ok outcome =>
    cases outcome with
    | error report =>
      rw [hparse] at hparsed
      cases hparsed
    | ok u =>
      obtain ⟨-, -, hlint⟩ :=
        @lint_ignoring before [] text u 25 (by decide) hparse takesRemark .unhandledThrow {}
      split at hlint
      next r r' hr hr' =>
        rw [hr] at hcount
        rw [hr'] at hcount'
        exact ⟨r, r', hr, hr', hlint, Except.ok.inj hcount, Except.ok.inj hcount'⟩
      next fault _ hr _ =>
        rw [hr] at hcount
        cases hcount
      next => exact hlint.elim

end IgnoredThrow

end CheckedThrows
