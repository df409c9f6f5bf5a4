import CheckedThrows.Proofs.MirroredFindings
import CheckedThrows.Proofs.RepeatedParses
import CheckedThrows.Proofs.Reports

/-!
# Sources that nobody mentions

A source is added to those that a run is given.  If it does not parse, or if no
directive of another source names it, what is reported about the other sources
is the same as before.  Nodes and types have other numbers then, and nothing
else changes.
-/

namespace CheckedThrows

open List

variable {next : NodeId} {given : List Source} {b δ : Nat}

/-! ## Numbers -/

def makeRoom (b δ n : Nat) : Nat := if n < b then n else n + δ

theorem makeRoom_of_lt {n : Nat} (hn : n < b) : makeRoom b δ n = n := if_pos hn

theorem makeRoom_of_le {n : Nat} (hn : b ≤ n) : makeRoom b δ n = n + δ :=
  if_neg (Nat.not_lt.mpr hn)

theorem makeRoom_lt_or_le (b δ n : Nat) : makeRoom b δ n < b ∨ b + δ ≤ makeRoom b δ n := by
  unfold makeRoom
  split <;> omega

theorem makeRoom_injective (b δ : Nat) : Function.Injective (makeRoom b δ) := by
  intro n n' heq
  unfold makeRoom at heq
  split at heq <;> split at heq <;> omega

namespace Source

variable {outcome : Except Diagnostic CompilationUnit} {s : Source}

def renumber (ρ : NodeId → NodeId) (entry : Source × Except Diagnostic CompilationUnit) :
    Source × Except Diagnostic CompilationUnit :=
  (entry.1, entry.2.map (CompilationUnit.relabel (.numbers ρ)))

theorem parseFrom_of_parse (hparse : s.parse = .ok outcome) (next : NodeId) :
    ∃ δ entry, s.parseFrom next = .ok (entry, next + δ) := by
  unfold parseFrom
  rw [hparse]
  cases outcome with
  | error d => exact ⟨0, _, rfl⟩
  | ok u =>
    have hlater := u.start_lt_number next
    refine ⟨(u.number next).2 - next, .ok (u.number next).1, ?_⟩
    rw [Nat.add_sub_cancel' (Nat.le_of_lt hlater)]
    rfl

theorem renumber_of_parseFrom {after : NodeId} (hparse : s.parseFrom next = .ok (outcome, after))
    (hb : after ≤ b) (δ : Nat) : renumber (makeRoom b δ) (s, outcome) = (s, outcome) := by
  rcases parseFrom_cases hparse with ⟨d, rfl, rfl⟩ | ⟨u, -, rfl, rfl⟩
  · rfl
  · have hnumber := u.number_add (ρ := makeRoom b δ) (δ := 0) fun n _ hn =>
      makeRoom_of_lt (Nat.lt_of_lt_of_le hn hb)
    have hsame : (u.number next).1 =
        (u.number next).1.relabel (.numbers (makeRoom b δ)) := congrArg Prod.fst hnumber
    exact congrArg (fun u => (s, Except.ok u)) hsame.symm

theorem parseAll_add {ρ : NodeId → NodeId} (hρ : ∀ n, next ≤ n → ρ n = n + δ)
    (sources : List Source) :
    parseAll (next + δ) sources = (parseAll next sources).map (List.map (renumber ρ)) := by
  induction sources generalizing next with
  | nil => rfl
  | cons s sources ih =>
    rw [parseAll, parseAll, s.parseFrom_add hρ]
    cases hparse : s.parseFrom next with
    | error fault => rfl
    | ok first =>
      have hlater := le_of_parseFrom hparse
      simp only [bind, Except.bind, Except.map, ih fun n hn => hρ n (Nat.le_trans hlater hn)]
      cases parseAll first.2 sources <;> rfl

/-- A source that is added makes room for its nodes. -/
theorem parseAll_insert
    (hparse : s.parse = .ok outcome) (before after : List Source) (next : NodeId) :
    ∃ b δ entry, next ≤ b ∧ s.parseFrom b = .ok (entry, b + δ) ∧
      parseAll next (before ++ s :: after) =
        (parseAll next (before ++ after)).map fun parsed =>
          (parsed.take before.length).map (renumber (makeRoom b δ)) ++
            (s, entry) :: (parsed.drop before.length).map (renumber (makeRoom b δ)) := by
  induction before generalizing next with
  | nil =>
    obtain ⟨δ, entry, hentry⟩ := parseFrom_of_parse hparse next
    refine ⟨next, δ, entry, Nat.le_refl _, hentry, ?_⟩
    rw [nil_append, nil_append, parseAll, hentry]
    simp only [bind, Except.bind, parseAll_add (fun n hn => makeRoom_of_le hn) after]
    cases parseAll next after <;> rfl
  | cons s' before ih =>
    cases hfirst : s'.parseFrom next with
    | error fault =>
      obtain ⟨δ, entry, hentry⟩ := parseFrom_of_parse hparse next
      refine ⟨next, δ, entry, Nat.le_refl _, hentry, ?_⟩
      rw [cons_append, cons_append, parseAll, parseAll, hfirst]
      rfl
    | ok first =>
      obtain ⟨b, δ, entry, hb, hentry, hrest⟩ := ih first.2
      have hlater := le_of_parseFrom hfirst
      refine ⟨b, δ, entry, Nat.le_trans hlater hb, hentry, ?_⟩
      rw [cons_append, cons_append, parseAll, parseAll, hfirst]
      simp only [bind, Except.bind, hrest]
      cases parseAll first.2 (before ++ after) with
      | error fault => rfl
      | ok parsed =>
        simp only [Except.map, pure, Except.pure, length_cons, take_succ_cons,
          drop_succ_cons, map_cons, renumber_of_parseFrom hfirst hb δ,
          cons_append]

end Source

/-! ## What is reported about a source -/

structure Finding.Alike (f f' : Finding) : Prop where
  site : ∃ ρ : NodeId → NodeId, f'.site = f.site.relabel (.numbers ρ)
  code : f'.code = f.code
  typeName : f'.typeName = f.typeName
  message : f'.message = f.message
  origin : f'.origin.map Origin.label = f.origin.map Origin.label
  description : f'.description = f.description
  span : f'.span = f.span

structure LintResult.AgreeOn (uri : String) (r r' : LintResult) : Prop where
  findings : Option.Rel (List.Forall₂ Finding.Alike) (r.findings.lookup uri)
    (r'.findings.lookup uri)
  diagnostics : (r'.diagnostics.filter fun d => d.span.file = some uri) =
    r.diagnostics.filter fun d => d.span.file = some uri

theorem Finding.Alike.toDiagnostic {f f' : Finding} (h : f.Alike f') :
    f'.toDiagnostic = f.toDiagnostic := by
  unfold Finding.toDiagnostic
  rw [h.message, h.code, h.span]

namespace Loaded

variable (l : Loaded) {entry : Source × Except Diagnostic CompilationUnit} {u : CompilationUnit}
  (c : LintConfig)

/-- A run `l'` that was given one more source than `l`.  Other nodes have other
numbers, and findings change as `change` says. -/
structure Gains (ρ : NodeId → NodeId) (change : Finding → Finding) (c : LintConfig) (s : Source)
    (l l' : Loaded) : Prop where
  given : ∃ first rest outcome, l.given = first ++ rest ∧
    l'.given = first.map (Source.renumber ρ) ++ (s, outcome) :: rest.map (Source.renumber ρ)
  uris : ∀ entry ∈ l'.given, ∀ u ∈ unitOf? entry, u.uri = entry.1.uri
  files : ∀ entry ∈ l'.given, ∀ d, entry.2 = .error d → d.span.file = some entry.1.uri
  findings : ∀ u ∈ l.units,
    l'.allFindings c (u.relabel (.numbers ρ)) = (l.allFindings c u).map change
  alike : ∀ f : Finding, f.Alike (change f)
  warnings : ∀ uri, uri ≠ s.uri →
    (l'.program.warnings.filter fun d => d.span.file = some uri) =
      l.program.warnings.filter fun d => d.span.file = some uri

theorem unitOf?_renumber (ρ : NodeId → NodeId)
    (entry : Source × Except Diagnostic CompilationUnit) :
    unitOf? (Source.renumber ρ entry) =
      (unitOf? entry).map (CompilationUnit.relabel (.numbers ρ)) := by
  obtain ⟨s, outcome⟩ := entry
  cases outcome <;> rfl

theorem warnings_about {l : Loaded} (hentry : entry ∈ l.given) :
    (l.warnings.filter fun d => d.span.file = some entry.1.uri) =
      l.program.warnings.filter fun d => d.span.file = some entry.1.uri := by
  unfold warnings
  rw [filter_filter]
  apply filter_congr
  intro d _
  by_cases hfile : d.span.file = some entry.1.uri
  · have hgiven : (l.given.any fun s => d.span.file = some s.1.uri) = true :=
      any_eq_true.mpr ⟨entry, hentry, by simpa using hfile⟩
    rw [hgiven, Bool.and_true]
  · simp [hfile]

theorem keptWarnings_about {l : Loaded} (hentry : entry ∈ l.given) (hu : u.uri = entry.1.uri) :
    l.keptWarnings u = (l.program.warnings.filter fun d => d.span.file = some u.uri).filter
      (IgnoreInfo.ofComments u.comments).keeps := by
  rw [keptWarnings, hu, warnings_about hentry]

theorem file_keptWarnings (u : CompilationUnit) :
    ∀ d ∈ l.keptWarnings u, d.span.file = some u.uri :=
  fun _ hd => of_decide_eq_true (mem_filter.mp (mem_filter.mp hd).1).2

theorem file_keptFindings (u : CompilationUnit) :
    ∀ d ∈ ((l.allFindings c u).filter (isKept u)).map Finding.toDiagnostic,
      d.span.file = some u.uri := by
  intro d hd
  obtain ⟨f, hf, rfl⟩ := mem_map.mp hd
  obtain ⟨place, -, hplace⟩ := mem_flatMap.mp (mem_filter.mp hf).1
  show f.span.file = _
  rw [EffectModel.span_of_mem_findingsAt hplace, Node.file_span]

theorem diagnostics_eq :
    (l.lint c).diagnostics = l.syntaxErrors ++ l.units.flatMap l.keptWarnings ++
      l.units.flatMap fun u =>
        ((l.allFindings c u).filter (isKept u)).map Finding.toDiagnostic := by
  simp only [lint, flatMap_map]

theorem lookup_findings (uri : String) :
    (l.lint c).findings.lookup uri =
      (l.units.find? fun u => u.uri = uri).map fun u => (l.allFindings c u).filter (isKept u) := by
  simp only [lint, map_map]
  induction l.units with
  | nil => rfl
  | cons u us ih =>
    rw [map_cons, lookup_cons, find?_cons]
    by_cases hu : u.uri = uri
    · simp [hu]
    · have hne : (uri == u.uri) = false := by simpa using Ne.symm hu
      simp only [Function.comp_apply, hne, hu, decide_false]
      exact ih

namespace Gains

variable {uri : String}
variable {ρ : NodeId → NodeId} {change : Finding → Finding} {c : LintConfig} {s : Source}
  {l l' : Loaded} (h : l.Gains ρ change c s l')
include h

theorem units : ∃ first rest x, l.units = first ++ rest ∧
    l'.units = first.map (CompilationUnit.relabel (.numbers ρ)) ++ x ++
      rest.map (CompilationUnit.relabel (.numbers ρ)) ∧ ∀ u ∈ x, u.uri = s.uri := by
  obtain ⟨first, rest, outcome, hgiven, hgiven'⟩ := h.given
  refine ⟨first.filterMap unitOf?, rest.filterMap unitOf?, (unitOf? (s, outcome)).toList, ?_, ?_, ?_⟩
  · rw [Loaded.units, hgiven, filterMap_append]
  · rw [Loaded.units, hgiven', filterMap_append,
      filterMap_map_comm (unitOf?_renumber ρ) first, ← filterMap_map_comm (unitOf?_renumber ρ) rest,
      append_assoc]
    congr 1
    rw [filterMap_cons]
    cases unitOf? (s, outcome) <;> rfl
  · intro u hu
    exact h.uris (s, outcome) (by rw [hgiven']; simp) u (Option.mem_toList.mp hu)

theorem renumber_mem (hentry : entry ∈ l.given) : Source.renumber ρ entry ∈ l'.given := by
  obtain ⟨first, rest, outcome, hgiven, hgiven'⟩ := h.given
  rw [hgiven] at hentry
  rw [hgiven']
  rcases mem_append.mp hentry with hfirst | hrest
  · exact mem_append_left _ (mem_map_of_mem hfirst)
  · exact mem_append_right _ (mem_cons_of_mem _ (mem_map_of_mem hrest))

theorem filter_flatMap_units {f f' : CompilationUnit → List Diagnostic}
    (hfile : ∀ u, ∀ d ∈ f u, d.span.file = some u.uri)
    (hfile' : ∀ u, ∀ d ∈ f' u, d.span.file = some u.uri) (huri : uri ≠ s.uri)
    (hsame : ∀ u ∈ l.units, u.uri = uri → f' (u.relabel (.numbers ρ)) = f u) :
    ((l'.units.flatMap f').filter fun d => d.span.file = some uri) =
      (l.units.flatMap f).filter fun d => d.span.file = some uri := by
  obtain ⟨first, rest, x, hunits, hunits', hx⟩ := h.units
  have hother : ∀ {g : CompilationUnit → List Diagnostic},
      (∀ u, ∀ d ∈ g u, d.span.file = some u.uri) → ∀ u, u.uri ≠ uri →
        (g u).filter (fun d => d.span.file = some uri) = [] := by
    intro g hg u hu
    rw [filter_eq_nil_iff]
    intro d hd hd'
    rw [decide_eq_true_eq, hg u d hd] at hd'
    exact hu (Option.some.inj hd')
  have hmap : ∀ us ⊆ l.units,
      ((us.map (CompilationUnit.relabel (.numbers ρ))).flatMap fun u =>
        (f' u).filter fun d => d.span.file = some uri) =
      us.flatMap fun u => (f u).filter fun d => d.span.file = some uri := by
    intro us hus
    rw [flatMap_map]
    apply flatMap_congr
    intro u hu
    by_cases hu' : u.uri = uri
    · rw [hsame u (hus hu) hu']
    · rw [hother hfile u hu', hother hfile' (u.relabel (.numbers ρ)) hu']
  have hempty : (x.flatMap fun u => (f' u).filter fun d => d.span.file = some uri) = [] :=
    flatMap_eq_nil_iff.mpr fun u hu =>
      hother hfile' u fun heq => huri (heq.symm.trans (hx u hu))
  rw [filter_flatMap, filter_flatMap, hunits', flatMap_append, flatMap_append,
    hempty, append_nil, hmap first (hunits ▸ subset_append_left _ _),
    hmap rest (hunits ▸ subset_append_right _ _), hunits, flatMap_append]

theorem keptFindings (hu : u ∈ l.units) :
    (l'.allFindings c (u.relabel (.numbers ρ))).filter (isKept (u.relabel (.numbers ρ))) =
      ((l.allFindings c u).filter (isKept u)).map change := by
  rw [h.findings u hu, filter_map]
  congr 2
  funext f
  simp only [Function.comp_apply, isKept, (h.alike f).code, (h.alike f).span]
  rfl

theorem keptWarnings (hu : u ∈ l.units) (hnew : u.uri ≠ s.uri) :
    l'.keptWarnings (u.relabel (.numbers ρ)) = l.keptWarnings u := by
  obtain ⟨entry, hentry, hunit⟩ := mem_filterMap.mp hu
  have hentry' := h.renumber_mem hentry
  have huri : (u.relabel (.numbers ρ)).uri = entry.1.uri := by
    apply h.uris _ hentry'
    rw [unitOf?_renumber, hunit]
    rfl
  rw [keptWarnings_about hentry (u := u) huri, keptWarnings_about hentry' huri]
  exact congrArg (List.filter _) (h.warnings u.uri hnew)

theorem syntaxErrors (huri : uri ≠ s.uri) :
    (l'.syntaxErrors.filter fun d => d.span.file = some uri) =
      l.syntaxErrors.filter fun d => d.span.file = some uri := by
  obtain ⟨first, rest, outcome, hgiven, hgiven'⟩ := h.given
  have hmap : ∀ entries : List (Source × Except Diagnostic CompilationUnit),
      (entries.map (Source.renumber ρ)).filterMap (fun entry => Source.error? entry.2) =
        entries.filterMap fun entry => Source.error? entry.2 := by
    intro entries
    rw [filterMap_map]
    apply filterMap_congr
    rintro ⟨s, outcome⟩ -
    cases outcome <;> rfl
  have herrors : ∀ l : Loaded, l.syntaxErrors =
      l.given.filterMap fun entry => Source.error? entry.2 := by
    intro l
    apply filterMap_congr
    rintro ⟨s, outcome⟩ -
    cases outcome <;> rfl
  rw [herrors, herrors, hgiven, hgiven', filterMap_append, filterMap_append, hmap,
    filterMap_cons, hmap]
  cases outcome with
  | ok u => rfl
  | error d =>
    have hfile : d.span.file = some s.uri :=
      h.files (s, .error d) (by rw [hgiven']; simp) d rfl
    have hother : ¬d.span.file = some uri := by
      rw [hfile]
      exact fun heq => huri (Option.some.inj heq).symm
    simp [Source.error?, hother]

theorem find?_units (huri : uri ≠ s.uri) :
    (l'.units.find? fun u => u.uri = uri) =
      (l.units.find? fun u => u.uri = uri).map (CompilationUnit.relabel (.numbers ρ)) := by
  obtain ⟨first, rest, x, hunits, hunits', hx⟩ := h.units
  have hmap : ∀ us : List CompilationUnit,
      ((us.map (CompilationUnit.relabel (.numbers ρ))).find? fun u => u.uri = uri) =
        (us.find? fun u => u.uri = uri).map (CompilationUnit.relabel (.numbers ρ)) :=
    fun us => find?_map ..
  have hnone : (x.find? fun u => u.uri = uri) = none := by
    rw [find?_eq_none]
    intro u hu heq
    exact huri ((of_decide_eq_true heq).symm.trans (hx u hu))
  rw [hunits', hunits, find?_append, find?_append, find?_append, hmap, hmap, hnone,
    Option.or_none, Option.map_or]

theorem agreeOn (huri : uri ≠ s.uri) : (l.lint c).AgreeOn uri (l'.lint c) := by
  constructor
  · rw [lookup_findings, lookup_findings, h.find?_units huri]
    cases hfind : l.units.find? fun u => u.uri = uri with
    | none => exact .none
    | some u =>
      simp only [Option.map_some, h.keptFindings (mem_of_find?_eq_some hfind)]
      rw [Option.rel_some_some, forall₂_map_right_iff, forall₂_same]
      exact fun f _ => h.alike f
  · rw [diagnostics_eq, diagnostics_eq, filter_append, filter_append, filter_append,
      filter_append, h.syntaxErrors huri]
    congr 1
    · rw [h.filter_flatMap_units l.file_keptWarnings l'.file_keptWarnings huri]
      rintro u hu rfl
      exact h.keptWarnings hu huri
    · apply h.filter_flatMap_units (l.file_keptFindings c) (l'.file_keptFindings c) huri
      intro u hu _
      rw [h.keptFindings hu, map_map]
      exact map_congr_left fun f _ => (h.alike f).toDiagnostic

end Gains

end Loaded

/-! ## Loading one more source -/

theorem distinctSources_of_nodup (hdistinct : (given.map Source.uri).Nodup) :
    distinctSources given = given := by
  have hall : ∀ kept : List Source, ((kept ++ given).map Source.uri).Nodup →
      given.foldl putSource kept = kept ++ given := by
    clear hdistinct
    induction given with
    | nil => exact fun kept _ => (append_nil kept).symm
    | cons s given ih =>
      intro kept hdistinct
      have hnew : (kept.any fun old => old.uri = s.uri) = false := by
        rw [any_eq_false]
        intro old hold heq
        rw [map_append, nodup_append] at hdistinct
        exact hdistinct.2.2 _ (mem_map_of_mem hold) s.uri (by simp) (of_decide_eq_true heq)
      rw [foldl_cons, putSource, hnew, if_neg Bool.false_ne_true]
      rw [append_cons] at hdistinct
      rw [ih (kept ++ [s]) hdistinct, ← append_cons]
  exact hall [] hdistinct

theorem Bundled.besides_insert {before after : List Source} {s : Source}
    (hs : s.uri ∉ libraries.map Source.uri) :
    besides (before ++ s :: after) = besides (before ++ after) := by
  apply filter_congr
  intro b hb
  have hne : ¬s.uri = b.uri := fun heq => hs (heq ▸ mem_map_of_mem hb)
  simp [hne]

theorem load_insert {s : Source} {outcome : Except Diagnostic CompilationUnit}
    (hparse : s.parse = .ok outcome) (around before after : List Source) :
    (∃ fault, load around (before ++ after) = .error fault ∧
        load around (before ++ s :: after) = .error fault) ∨
      ∃ l l' b δ entry first rest, load around (before ++ after) = .ok l ∧
        load around (before ++ s :: after) = .ok l' ∧ s.parseFrom b = .ok (entry, b + δ) ∧
        l.given = first ++ rest ∧
        l'.around = l.around.map (Source.renumber (makeRoom b δ)) ∧
        l'.given = first.map (Source.renumber (makeRoom b δ)) ++
          (s, entry) :: rest.map (Source.renumber (makeRoom b δ)) := by
  obtain ⟨b, δ, entry, -, hentry, hall⟩ :=
    Source.parseAll_insert hparse (around ++ before) after 1
  rw [append_assoc, append_assoc] at hall
  unfold load
  rw [hall]
  cases hparsed : Source.parseAll 1 (around ++ (before ++ after)) with
  | error fault => exact .inl ⟨fault, rfl, rfl⟩
  | ok parsed =>
    have hlength : parsed.length = around.length + (before.length + after.length) := by
      rw [← length_map Prod.fst, Source.map_fst_parseAll hparsed, length_append,
        length_append]
    refine .inr ⟨_, _, b, δ, entry, (parsed.drop around.length).take before.length,
      parsed.drop (around.length + before.length), rfl, rfl, hentry, ?_, ?_, ?_⟩
    · show parsed.drop around.length = _
      rw [← drop_drop, take_append_drop]
    · show List.take around.length _ = List.map _ (parsed.take around.length)
      rw [length_append, take_append_of_le_length, ← map_take, take_take,
        Nat.min_eq_left (Nat.le_add_right _ _)]
      rw [length_map, length_take]
      omega
    · show List.drop around.length _ = _
      rw [length_append, drop_append_of_le_length, ← map_drop, drop_take,
        Nat.add_sub_cancel_left]
      rw [length_map, length_take]
      omega

def Renaming.ofNumbers {ρ : NodeId → NodeId} (hρ : Function.Injective ρ) : Renaming where
  toRelabeling := .numbers ρ
  type ty := ty
  span span := span
  node_injective := hρ
  type_injective := Function.injective_id
  span_ofExtent _ _ := rfl
  span_ofFile _ := rfl
  file_span _ := rfl

theorem CompilationUnit.mentions_relabel (ρ : Relabeling) (u : CompilationUnit) (uri : String) :
    (u.relabel ρ).Mentions uri ↔ u.Mentions uri := by
  simp only [Mentions, CompilationUnit.relabel, mem_map, exists_exists_and_eq_and]
  rfl

theorem CompilationUnit.mentions_number (u : CompilationUnit) (start : NodeId) (uri : String) :
    (u.number start).1.Mentions uri ↔ u.Mentions uri := by
  rw [← mentions_relabel (.numbers fun _ => 0), u.relabel_zero_number, mentions_relabel]

theorem Source.mentions_of_parseAll {sources : List Source} {uri : String}
    (hunmentioned : ∀ s ∈ sources, ∀ u, s.parse = .ok (.ok u) → ¬u.Mentions uri)
    {parsed : List (Source × Except Diagnostic CompilationUnit)}
    (hparse : parseAll next sources = .ok parsed) :
    ∀ u ∈ parsed.filterMap Loaded.unitOf?, ¬u.Mentions uri := by
  intro u hu
  obtain ⟨s, hs, t, start, ht, rfl⟩ := parse_of_mem_parseAll hparse hu
  rw [t.mentions_number]
  exact hunmentioned s hs t ht

namespace Loaded

theorem uri_of_given {around : List Source} {l : Loaded} (hload : load around given = .ok l) :
    ∀ entry ∈ l.given, ∀ u ∈ unitOf? entry, u.uri = entry.1.uri :=
  fun entry hentry =>
    Source.uri_of_unitOf? (parseAll_of_load hload) entry (mem_append_right _ hentry)

theorem file_of_given {around : List Source} {l : Loaded} (hload : load around given = .ok l) :
    ∀ entry ∈ l.given, ∀ d, entry.2 = .error d → d.span.file = some entry.1.uri := by
  intro entry hentry d hd
  have hrejection := Source.rejection?_of_parseAll (parseAll_of_load hload) entry
    (mem_append_right _ hentry)
  rw [hd] at hrejection
  exact Source.file_of_rejection? hrejection

section
variable {around given given' : List Source} {l l' : Loaded} {s : Source} {b δ : Nat}
  {entry : Except Diagnostic CompilationUnit}
  {first rest : List (Source × Except Diagnostic CompilationUnit)}
  (hgiven : l.given = first ++ rest)
  (haround' : l'.around = l.around.map (Source.renumber (makeRoom b δ)))
  (hgiven' : l'.given = first.map (Source.renumber (makeRoom b δ)) ++
    (s, entry) :: rest.map (Source.renumber (makeRoom b δ)))
include hgiven haround' hgiven'

theorem allUnits_insert :
    l.allUnits = (l.around ++ first).filterMap unitOf? ++ rest.filterMap unitOf? ∧
      l'.allUnits = Relabeling.unitsBeside (.numbers (makeRoom b δ))
        ((l.around ++ first).filterMap unitOf?) (unitOf? (s, entry)) (rest.filterMap unitOf?) := by
  constructor
  · rw [allUnits, hgiven, ← append_assoc, filterMap_append]
  · rw [allUnits, haround', hgiven', ← append_assoc, ← map_append, filterMap_append,
      filterMap_map_comm (unitOf?_renumber (makeRoom b δ)), Relabeling.unitsBeside,
      ← filterMap_map_comm (unitOf?_renumber (makeRoom b δ)) rest, append_assoc]
    congr 1
    rw [filterMap_cons]
    cases unitOf? (s, entry) <;> rfl

variable (hload : load around given = .ok l) (hload' : load around given' = .ok l')
  (hentry : s.parseFrom b = .ok (entry, b + δ))
include hload hload' hentry

theorem standsBeside (hcore : Library.coreUri ≠ s.uri)
    (hnew : ∀ s' ∈ around ++ given, s'.uri ≠ s.uri)
    (hunmentioned : ∀ s' ∈ around ++ given, ∀ u, s'.parse = .ok (.ok u) → ¬u.Mentions s.uri) :
    StandsBeside (.numbers (makeRoom b δ)) s.uri ((l.around ++ first).filterMap unitOf?)
      (unitOf? (s, entry)) (rest.filterMap unitOf?) := by
  obtain ⟨hunits, hunits'⟩ := allUnits_insert hgiven haround' hgiven'
  have hparsed := parseAll_of_load hload
  have hparsed' := parseAll_of_load hload'
  refine
    { uri := ?_
      others := ?_
      core := hcore
      mentions := ?_
      numbered := ?_
      numbered' := ?_
      shaped' := ?_
      apart := ?_ }
  · intro u hu
    exact Source.uri_of_unitOf? hparsed' (s, entry) (by rw [hgiven']; simp) u hu
  · intro u hu
    rw [← hunits] at hu
    obtain ⟨e, he, hunit⟩ := mem_filterMap.mp hu
    rw [Source.uri_of_unitOf? hparsed e he u hunit]
    apply hnew
    rw [← Source.map_fst_parseAll hparsed]
    exact mem_map_of_mem he
  · rw [← hunits]
    exact Source.mentions_of_parseAll hunmentioned hparsed
  · rw [← hunits]
    exact (Source.numberedFrom_parseAll hparsed).numbered
  · rw [← hunits']
    exact (Source.numberedFrom_parseAll hparsed').numbered
  · rw [← hunits']
    exact fun u hu => (Source.proper_parseAll hparsed' u hu).shaped
  · intro u hu n hn k heq
    rcases Source.parseFrom_cases hentry with ⟨d, rfl, -⟩ | ⟨v, -, rfl, hafter⟩
    · cases hu
    · obtain rfl := Option.some.inj hu
      rw [← Place.walk_nodes] at hn
      obtain ⟨p, hp, rfl⟩ := mem_map.mp hn
      have hk : p.node.id = makeRoom b δ k := heq
      have hbounds := CompilationUnit.id_bounds_of_mem_walk hp
      rw [← hafter, hk] at hbounds
      rcases makeRoom_lt_or_le b δ k with hbelow | habove
      · exact Nat.not_lt.mpr hbounds.1 hbelow
      · exact Nat.not_lt.mpr habove hbounds.2

theorem gains_of_unmentioned (c : LintConfig) (hcore : Library.coreUri ≠ s.uri)
    (hnew : ∀ s' ∈ around ++ given, s'.uri ≠ s.uri)
    (hunmentioned : ∀ s' ∈ around ++ given, ∀ u, s'.parse = .ok (.ok u) → ¬u.Mentions s.uri) :
    ∃ change, l.Gains (makeRoom b δ) change c s l' := by
  obtain ⟨hunits, hunits'⟩ := allUnits_insert hgiven haround' hgiven'
  have hbeside : StandsBeside (Renaming.ofNumbers (makeRoom_injective b δ)) s.uri
      ((l.around ++ first).filterMap unitOf?) (unitOf? (s, entry)) (rest.filterMap unitOf?) :=
    standsBeside hgiven haround' hgiven' hload hload' hentry hcore hnew hunmentioned
  have hprogram := program_of_load hload
  have hprogram' := program_of_load hload'
  rw [hunits] at hprogram
  rw [hunits'] at hprogram'
  refine ⟨Finding.rename hbeside.mirror, ⟨first, rest, entry, hgiven, hgiven'⟩, ?_, ?_, ?_, ?_, ?_⟩
  · exact uri_of_given hload'
  · exact file_of_given hload'
  · intro u _
    unfold allFindings model
    rw [hprogram, hprogram']
    exact hbeside.findings c.intrinsicTable c.enabled u
  · intro f
    have horigin : ((f.rename hbeside.mirror).origin).map Origin.label = f.origin.map Origin.label := by
      simp only [Finding.rename, Option.map_map]
      congr 1
      funext o
      cases o <;> rfl
    exact ⟨⟨_, rfl⟩, rfl, rfl, rfl, horigin, rfl, rfl⟩
  · intro uri huri
    have hsame : l'.program.warnings.filter (Diagnostic.isElsewhere s.uri) = l.program.warnings := by
      rw [hprogram, hprogram']
      exact hbeside.warnings.trans (map_id' _)
    rw [← hsame, filter_filter]
    apply filter_congr
    intro d _
    by_cases hfile : d.span.file = some uri
    · have helsewhere : Diagnostic.isElsewhere s.uri d = true := by
        simpa [Diagnostic.isElsewhere, hfile] using huri
      rw [helsewhere, Bool.and_true]
    · simp [hfile]

theorem gains_of_rejected (c : LintConfig) {d : Diagnostic} (hrejected : entry = .error d) :
    ∃ change, l.Gains (makeRoom b δ) change c s l' := by
  obtain ⟨hunits, hunits'⟩ := allUnits_insert hgiven haround' hgiven'
  subst hrejected
  obtain rfl : δ = 0 := by
    rcases Source.parseFrom_cases hentry with ⟨_, -, hafter⟩ | ⟨_, -, hother, -⟩
    · exact Nat.add_eq_left.mp hafter
    · cases hother
  have hroom : makeRoom b 0 = id := by
    funext n
    by_cases hn : n < b
    · exact makeRoom_of_lt hn
    · exact makeRoom_of_le (Nat.not_lt.mp hn)
  have hrelabel : CompilationUnit.relabel (.numbers (makeRoom b 0)) = id := by
    rw [hroom]
    exact funext CompilationUnit.relabel_id
  have hprogram : l'.program = l.program := by
    rw [program_of_load hload, program_of_load hload', hunits, hunits', Relabeling.unitsBeside,
      hrelabel, map_id, map_id, show unitOf? (s, .error d) = none from rfl,
      Option.toList_none, append_nil]
  refine ⟨id, ⟨first, rest, _, hgiven, hgiven'⟩, ?_, ?_, ?_, ?_, ?_⟩
  · exact uri_of_given hload'
  · exact file_of_given hload'
  · intro u _
    rw [hrelabel, map_id, allFindings, model, hprogram]
    rfl
  · exact fun f => ⟨⟨id, (Node.relabel_id f.site).symm⟩, rfl, rfl, rfl, rfl, rfl, rfl⟩
  · intro uri _
    rw [hprogram]

end

end Loaded

/-- Nothing in `others` depends on `s`: it does not parse, or no directive of them
and of the bundled libraries names it. -/
structure Source.IsUnused (s : Source) (others : List Source) : Prop where
  bundled : s.uri ∉ Bundled.libraries.map Source.uri
  unrelated : ∃ outcome, s.parse = .ok outcome ∧ ((∃ d, outcome = .error d) ∨
    ∀ s' ∈ Bundled.besides others ++ others, ∀ u, s'.parse = .ok (.ok u) → ¬u.Mentions s.uri)

theorem lint_insert {before after : List Source} {s : Source}
    (hdistinct : ((before ++ s :: after).map Source.uri).Nodup)
    (hunused : s.IsUnused (before ++ after)) (c : LintConfig) :
    (∃ fault, lint (before ++ after) c = .error fault ∧
        lint (before ++ s :: after) c = .error fault) ∨
      ∃ r r', lint (before ++ after) c = .ok r ∧ lint (before ++ s :: after) c = .ok r' ∧
        ∀ v ∈ before ++ after, r.AgreeOn v.uri r' := by
  obtain ⟨hbundled, outcome, hparse, hunrelated⟩ := hunused
  obtain ⟨hnotIn, hnodup⟩ : s.uri ∉ (before ++ after).map Source.uri ∧
      ((before ++ after).map Source.uri).Nodup := by
    rw [map_append, map_cons, nodup_middle, ← map_append] at hdistinct
    exact nodup_cons.mp hdistinct
  have hother : ∀ v ∈ before ++ after, v.uri ≠ s.uri :=
    fun v hv heq => hnotIn (heq ▸ mem_map_of_mem hv)
  have hnew : ∀ v ∈ Bundled.besides (before ++ after) ++ (before ++ after), v.uri ≠ s.uri := by
    intro v hv
    rcases mem_append.mp hv with hbeside | hgiven
    · exact fun heq => hbundled (heq ▸ mem_map_of_mem (mem_filter.mp hbeside).1)
    · exact hother v hgiven
  have hcore : Library.coreUri ≠ s.uri := fun heq => hbundled (heq ▸ by decide)
  unfold lint
  simp only [distinctSources_of_nodup hdistinct, distinctSources_of_nodup hnodup,
    Bundled.besides_insert hbundled]
  rcases load_insert hparse (Bundled.besides (before ++ after)) before after with
    ⟨fault, hload, hload'⟩ | ⟨l, l', b, δ, entry, first, rest, hload, hload', hentry, hgiven,
      haround', hgiven'⟩
  · rw [hload, hload']
    exact .inl ⟨fault, rfl, rfl⟩
  · rw [hload, hload']
    have hgains : ∃ change, l.Gains (makeRoom b δ) change c s l' := by
      rcases hunrelated with ⟨d, rfl⟩ | hunmentioned
      · apply Loaded.gains_of_rejected hgiven haround' hgiven' hload hload' hentry c (d := d)
        rw [Source.parseFrom, hparse] at hentry
        exact (Prod.mk.inj (Except.ok.inj hentry)).1.symm
      · exact Loaded.gains_of_unmentioned hgiven haround' hgiven' hload hload' hentry c hcore hnew
          hunmentioned
    obtain ⟨change, hgains⟩ := hgains
    exact .inr ⟨_, _, rfl, rfl, fun v hv => hgains.agreeOn (hother v hv)⟩

/-- Adding a source that does not parse, or that no directive of the others and
of the bundled libraries names, changes nothing in what is reported about the
others: the run fails as it did before, or it gives the same findings and the same
diagnostics about each of them, in the same order. -/
theorem lint_insert_unrelated {before after : List Source} {s : Source} {c : LintConfig}
    (hdistinct : ((before ++ s :: after).map Source.uri).Nodup)
    (hbundled : s.uri ∉ Bundled.libraries.map Source.uri)
    {outcome : Except Diagnostic CompilationUnit} (hparse : s.parse = .ok outcome)
    (hunrelated : (∃ d, outcome = .error d) ∨
      ∀ s' ∈ Bundled.besides (before ++ after) ++ (before ++ after), ∀ u,
        s'.parse = .ok (.ok u) → ¬u.Mentions s.uri) :
    match lint (before ++ after) c, lint (before ++ s :: after) c with
    | .ok r, .ok r' => ∀ v ∈ before ++ after, r.AgreeOn v.uri r'
    | .error fault, .error fault' => fault = fault'
    | _, _ => False := by
  rcases lint_insert hdistinct ⟨hbundled, outcome, hparse, hunrelated⟩ c with
    ⟨fault, hlint, hlint'⟩ | ⟨r, r', hlint, hlint', hagree⟩
  · rw [hlint, hlint']
  · rw [hlint, hlint']
    exact hagree

instance (u : CompilationUnit) (uri : String) : Decidable (u.Mentions uri) :=
  inferInstanceAs (Decidable (∃ d ∈ u.directives, ∃ text ∈ d.uri.toString?,
    text = uri ∨ Uri.normalize (Uri.join (Uri.directory u.uri) text) = uri))

namespace UnmentionedExample

def before : List Source := [
  ⟨"dart:core", "class Exception \x7b\x7d"⟩, ⟨"dart:convert", ""⟩,
  ⟨"package:throwable/throwable.dart", ""⟩,
  ⟨"lib/a.dart", "f() => x;"⟩]

def added : Source := ⟨"lib/b.dart", "import 'a.dart'; class Exception \x7b\x7d g() => f();"⟩

def after : List Source := [⟨"lib/c.dart", "import 'a.dart'; g() \x7b throw Exception(); \x7d"⟩]

theorem isUnused_added : added.IsUnused (before ++ after) := by
  have hunmentioned : ∀ s ∈ Bundled.besides (before ++ after) ++ (before ++ after),
      (match s.parse with
        | .ok (.ok u) => decide (¬u.Mentions added.uri)
        | _ => true) = true := by
    decide +kernel
  have hparsed : (match added.parse with | .ok _ => true | .error _ => false) = true := by
    decide +kernel
  refine ⟨by decide, ?_⟩
  cases hparse : added.parse with
  | error fault => simp [hparse] at hparsed
  | ok outcome => exact ⟨outcome, rfl, .inr fun s hs u hu => by simpa [hu] using hunmentioned s hs⟩

theorem agree_beside_added :
    ∃ r r', lint (before ++ after) {} = .ok r ∧ lint (before ++ added :: after) {} = .ok r' ∧
      ∀ v ∈ before ++ after, r.AgreeOn v.uri r' := by
  have hlinted : (match lint (before ++ after) {} with | .ok _ => true | .error _ => false) =
      true := by
    decide +kernel
  obtain ⟨hbundled, outcome, hparse, hunrelated⟩ := isUnused_added
  have hagree := @lint_insert_unrelated before after added {} (by decide) hbundled outcome hparse
    hunrelated
  split at hagree
  next r r' hr hr' => exact ⟨r, r', hr, hr', hagree⟩
  next fault _ hr _ => simp [hr] at hlinted
  next => exact hagree.elim

end UnmentionedExample

end CheckedThrows
