import CheckedThrows.Proofs.NumberedUnits
import CheckedThrows.Proofs.Renumbering

/-!
# Parses one after the other

A parser that is used for many texts keeps the number that the next node gets
and the comments that the scan has met, some of which may be left from a text
that does not parse.  The scan forgets these, and only a text that parses moves
the next number.  So each parse gives what a new parser would give, up to a
shift of all numbers, and no two units have a number in common.
-/

namespace CheckedThrows

namespace Source

theorem parseFrom_add {ρ : NodeId → NodeId} {δ : Nat} {next : NodeId}
    (hρ : ∀ n, next ≤ n → ρ n = n + δ) (s : Source) :
    s.parseFrom (next + δ) = (s.parseFrom next).map fun (outcome, after) =>
      (outcome.map (CompilationUnit.relabel (.numbers ρ)), after + δ) := by
  unfold parseFrom
  cases s.parse with
  | error fault => rfl
  | ok outcome =>
    cases outcome with
    | error d => rfl
    | ok u =>
      have hnumber := u.number_add (ρ := ρ) (δ := δ) fun n hn _ => hρ n hn
      simp only [bind, Except.bind, hnumber]
      rfl

theorem le_of_parseFrom {s : Source} {outcome : Except Diagnostic CompilationUnit}
    {next after : NodeId} (hparse : s.parseFrom next = .ok (outcome, after)) : next ≤ after := by
  rcases parseFrom_cases hparse with ⟨d, rfl, rfl⟩ | ⟨u, -, rfl, rfl⟩
  · exact Nat.le_refl _
  · exact Nat.le_of_lt (u.start_lt_number next)

end Source

/-- What a parser keeps from one text to the next. -/
structure ParserState where
  next : NodeId := 1
  collected : List Lexeme := []

namespace ParserState

def cleared (p : ParserState) : ParserState :=
  { p with collected := [] }

def meet (p : ParserState) (l : Lexeme) : ParserState :=
  if l.kind = .lineComment then { p with collected := p.collected ++ [l] } else p

/-- The scan of a text, as far as it gets. -/
def scan (p : ParserState) (s : Source) : ParserState :=
  (Scan.of s.chars).lexemes.foldl meet p.cleared

def finish (p : ParserState) (s : Source) (u : CompilationUnit) :
    Except OverlongInteger (Except Diagnostic CompilationUnit) × ParserState :=
  match u.fault? with
  | none => (.ok (.ok (u.number p.next).1), { p with next := (u.number p.next).2 })
  | some fault =>
    (fault.report.map fun said => .error (parserDiagnostic said.1 (.ofExtent s.uri said.2)), p)

def parse (p : ParserState) (s : Source) :
    Except OverlongInteger (Except Diagnostic CompilationUnit) × ParserState :=
  let scanned := p.scan s
  match s.tokens with
  | .error e => (.ok (.error (s.rejection e)), scanned)
  | .ok tokens =>
    match Grammar.Parser.unit tokens with
    | .error e => (.ok (.error (s.rejection (Source.unexpected tokens e))), scanned)
    | .ok d =>
      -- The comments are taken out of the collection and into the tree.
      let comments := scanned.collected.filterMap (Lexeme.comment? s.chars)
      scanned.cleared.finish s (Grammar.image s.uri comments d)

def after (p : ParserState) (sources : List Source) : ParserState :=
  sources.foldl (fun p s => (p.parse s).2) p

/-! ## The collected comments -/

variable (p : ParserState) (s : Source)

theorem scan_eq : p.scan s =
    { p with collected := (Scan.of s.chars).lexemes.filter (·.kind = .lineComment) } := by
  have hfoldl (lexemes : List Lexeme) (q : ParserState) : lexemes.foldl meet q =
      { q with collected := q.collected ++ lexemes.filter (·.kind = .lineComment) } := by
    induction lexemes generalizing q with
    | nil => simp
    | cons l lexemes ih =>
      rw [List.foldl_cons, ih, meet]
      split <;> simp [*]
  exact hfoldl _ p.cleared

example : (({} : ParserState).scan ⟨"a", "// left\n§"⟩).collected.length = 1 := by cbv

theorem comments_scan :
    (p.scan s).collected.filterMap (Lexeme.comment? s.chars) = s.comments := by
  rw [scan_eq, List.filterMap_filter]
  refine List.filterMap_congr fun l _ => ?_
  unfold Lexeme.comment?
  cases l.kind <;> simp

/-! ## One parse -/

variable {p s}

theorem parse_of_tree_error {e : SyntaxError} (htree : s.tree = .error e) :
    p.parse s = (.ok (.error (s.rejection e)), p.scan s) := by
  unfold Source.tree at htree
  unfold parse
  cases htokens : s.tokens with
  | error e' =>
    rw [htokens] at htree
    cases htree
    rfl
  | ok tokens =>
    simp only [htokens, bind, Except.bind] at htree
    cases hunit : Grammar.Parser.unit tokens with
    | error e' =>
      rw [hunit] at htree
      cases htree
      simp only [hunit]
    | ok d =>
      rw [hunit] at htree
      cases htree

theorem parse_of_tree_ok {u : CompilationUnit} (htree : s.tree = .ok u) :
    p.parse s = p.cleared.finish s u := by
  have hscan : (p.scan s).cleared = p.cleared := by rw [scan_eq, cleared, cleared]
  unfold Source.tree at htree
  unfold parse
  cases htokens : s.tokens with
  | error e =>
    rw [htokens] at htree
    cases htree
  | ok tokens =>
    simp only [htokens, bind, Except.bind] at htree
    cases hunit : Grammar.Parser.unit tokens with
    | error e =>
      rw [hunit] at htree
      cases htree
    | ok d =>
      rw [hunit] at htree
      cases htree
      simp only [hunit, comments_scan, hscan]

variable (p s)

/-- A text that parses is numbered from the next number on; after any other
text the next number is the same. -/
theorem parse_cases :
    (∃ u : CompilationUnit, s.parse = .ok (.ok u) ∧
      p.parse s = (.ok (.ok (u.number p.next).1), ⟨(u.number p.next).2, []⟩)) ∨
    (∀ u : CompilationUnit, s.parse ≠ .ok (.ok u)) ∧
      (p.parse s).1 = s.parse ∧ (p.parse s).2.next = p.next := by
  unfold Source.parse
  cases htree : s.tree with
  | error e =>
    refine .inr ⟨by simp, ?_⟩
    rw [parse_of_tree_error htree, scan_eq]
    exact ⟨rfl, rfl⟩
  | ok u =>
    rw [parse_of_tree_ok htree, finish]
    cases hfault : u.fault? with
    | none => exact .inl ⟨u, by simp only [hfault], rfl⟩
    | some fault =>
      refine .inr ?_
      cases hreport : fault.report <;>
        exact ⟨by simp [hfault, hreport], by simp [hfault, hreport, Except.map], rfl⟩

theorem parseFrom_eq :
    s.parseFrom p.next = (p.parse s).1.map fun outcome => (outcome, (p.parse s).2.next) := by
  unfold Source.parseFrom
  rcases p.parse_cases s with ⟨u, hu, hparse⟩ | ⟨hfails, hsame, hnext⟩
  · rw [hu, hparse]
    rfl
  · rw [hsame, hnext]
    cases houtcome : s.parse with
    | error fault => rfl
    | ok outcome =>
      cases outcome with
      | error d => rfl
      | ok u => exact absurd houtcome (hfails u)

theorem outcome_eq : (p.parse s).1 = (s.parseFrom p.next).map Prod.fst := by
  rw [parseFrom_eq]
  cases (p.parse s).1 <;> rfl

theorem outcome_shift {fresh : ParserState} {δ : Nat} (hnext : p.next = fresh.next + δ) :
    (p.parse s).1 =
      (fresh.parse s).1.map (Except.map (CompilationUnit.relabel (.numbers (· + δ)))) := by
  rw [outcome_eq, outcome_eq, hnext, s.parseFrom_add (ρ := (· + δ)) fun _ _ => rfl]
  cases s.parseFrom fresh.next <;> rfl

theorem next_le_parse : p.next ≤ (p.parse s).2.next := by
  rcases p.parse_cases s with ⟨u, -, hparse⟩ | ⟨-, -, hnext⟩
  · rw [hparse]
    exact Nat.le_of_lt (u.start_lt_number p.next)
  · exact Nat.le_of_eq hnext.symm

variable {p s}

theorem parse_of_outcome_ok {u : CompilationUnit} (hu : (p.parse s).1 = .ok (.ok u)) :
    ∃ t : CompilationUnit, u = (t.number p.next).1 ∧ (p.parse s).2.next = (t.number p.next).2 := by
  rcases p.parse_cases s with ⟨t, -, hparse⟩ | ⟨hfails, hsame, -⟩
  · rw [hparse] at hu ⊢
    cases hu
    exact ⟨t, rfl, rfl⟩
  · exact absurd (hsame.symm.trans hu) (hfails u)

/-! ## Many parses -/

variable (p) in
theorem next_le_after (sources : List Source) : p.next ≤ (p.after sources).next := by
  induction sources generalizing p with
  | nil => exact Nat.le_refl _
  | cons s sources ih => exact Nat.le_trans (p.next_le_parse s) (ih (p.parse s).2)

theorem after_append_cons (earlier between : List Source) :
    p.after (earlier ++ s :: between) = ((p.after earlier).parse s).2.after between := by
  rw [after, List.foldl_append]
  rfl

end ParserState

/-! ## The numbers of one unit -/

/-- The nodes of a unit have the numbers from `start` on and below `stop`, in
pre-order, and but for the root each has the parent that has it as a child. -/
structure CompilationUnit.Fills (u : CompilationUnit) (start stop : NodeId) : Prop where
  consecutive : (Node.unit u).numbers = List.range' start (stop - start)
  parents : ∀ q ∈ Place.walk (.unit u), q = .root (.unit u) ∨
    ∃ parent ∈ Place.walk (.unit u), q.parent? = some parent ∧
      (q.slot, q.node) ∈ parent.node.children ∧
      ∀ r ∈ Place.walk (.unit u), ∀ c ∈ r.node.children, c.2.id = q.node.id → r = parent

theorem CompilationUnit.fills_number (u : CompilationUnit) (start : NodeId) :
    (u.number start).1.Fills start (u.number start).2 where
  consecutive := by
    obtain ⟨count, hstop, hnumbers⟩ := u.numbers_number start
    rw [hstop, hnumbers, Nat.add_sub_cancel_left]
  parents := by
    intro q hq
    have hwalk := hq
    rw [Place.mem_walk_iff] at hq
    cases hq with
    | self => exact .inl rfl
    | @child parent _ habove hchild _ =>
      obtain ⟨c, hc, rfl⟩ := Place.mem_children_iff.mp hchild
      refine .inr ⟨parent, (Place.mem_walk_iff _ _).mpr habove, rfl, hc, ?_⟩
      -- A second node with this child would have the child at a second place.
      intro r hr c' hc' hid
      have hwalk' : Place.child r c'.1 c'.2 ∈ Place.walk (.unit (u.number start).1) :=
        (Place.mem_walk_iff _ _).mpr (.child ((Place.mem_walk_iff _ _).mp hr)
          (Place.mem_children_iff.mpr ⟨c', hc', rfl⟩) rfl)
      exact (Place.child.inj (Place.eq_of_id_eq hwalk' hwalk hid)).1

theorem CompilationUnit.Fills.disjoint {u u' : CompilationUnit} {start stop start' stop' : Nat}
    (h : u.Fills start stop) (h' : u'.Fills start' stop') (hle : stop ≤ start') :
    (Node.unit u).numbers.Disjoint (Node.unit u').numbers := by
  intro n hn hn'
  rw [h.consecutive, List.mem_range'_1] at hn
  rw [h'.consecutive, List.mem_range'_1] at hn'
  omega

/-! ## Independence -/

/-- Whatever a parser was used for before, a text is parsed as by a parser that
is used for the first time, up to one shift of the numbers. -/
theorem parses_independent (earlier : List Source) (s : Source) :
    let p := ({} : ParserState).after earlier
    let outcome := (p.parse s).1
    let next := (p.parse s).2.next
    s.parseFrom p.next = outcome.map (fun result => (result, next)) ∧
    outcome = (({} : ParserState).parse s).1.map
      (Except.map (CompilationUnit.relabel (.numbers (· + (p.next - 1))))) ∧
    (∀ u, outcome = .ok (.ok u) → 0 < p.next ∧ u.Fills p.next next ∧
      ∀ between s' u', ((({} : ParserState).after (earlier ++ s :: between)).parse s').1 =
        .ok (.ok u') → (Node.unit u).numbers.Disjoint (Node.unit u').numbers) ∧
    ((∀ u, outcome ≠ .ok (.ok u)) → next = p.next) := by
  intro p outcome next
  have hfirst : 1 ≤ p.next := ({} : ParserState).next_le_after earlier
  refine ⟨p.parseFrom_eq s, p.outcome_shift s (Nat.add_sub_cancel' hfirst).symm, ?_, ?_⟩
  · intro u hu
    obtain ⟨t, rfl, hnext⟩ := ParserState.parse_of_outcome_ok hu
    have hfills : (t.number p.next).1.Fills p.next next := by
      rw [show next = (t.number p.next).2 from hnext]
      exact t.fills_number p.next
    refine ⟨hfirst, hfills, ?_⟩
    intro between s' u' hu'
    rw [ParserState.after_append_cons] at hu'
    obtain ⟨t', rfl, -⟩ := ParserState.parse_of_outcome_ok hu'
    exact hfills.disjoint (t'.fills_number _) ((p.parse s).2.next_le_after between)
  · intro hfails
    rcases p.parse_cases s with ⟨u, -, hparse⟩ | ⟨-, -, hsame⟩
    · exact absurd (congrArg Prod.fst hparse) (hfails _)
    · exact hsame

end CheckedThrows
