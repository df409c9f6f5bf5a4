import CheckedThrows.Proofs.Acceptance

/-!
# What parsing can end with

Parsing a text ends with its tree or with one diagnostic, unless a number of
the text has more digits than can be read.  Such a number is no fault if the
text is rejected for another reason; in a text without any other fault it
always stops the run.
-/

namespace CheckedThrows

open List Node Grammar

variable {n : Nat}

namespace Source

/-- A parsed text bears the text's name.  A rejected one is reported as a syntax
error in the text. -/
def Tells (s : Source) : Except Diagnostic CompilationUnit → Prop
  | .ok u => u.uri = s.uri
  | .error d =>
    d.code = some "syntax_error" ∧ d.phase = some "parser" ∧ d.severity = "error" ∧
      d.span.file = some s.uri

variable {s : Source}

theorem exists_tokens_of_tree {u : CompilationUnit} (htree : s.tree = .ok u) :
    ∃ w, s.tokens = .ok w := by
  cases hlex : s.tokens with
  | error e => simp [tree, hlex, bind, Except.bind] at htree
  | ok w => exact ⟨w, rfl⟩

theorem uri_tree {u : CompilationUnit} (htree : s.tree = .ok u) : u.uri = s.uri := by
  obtain ⟨w, hlex⟩ := exists_tokens_of_tree htree
  obtain ⟨d, -, rfl⟩ := (tree_eq_ok_iff hlex).mp htree
  rfl

theorem parse_tells {outcome : Except Diagnostic CompilationUnit}
    (hparse : s.parse = .ok outcome) : s.Tells outcome := by
  rw [parse] at hparse
  split at hparse
  next e =>
    cases hparse
    exact ⟨rfl, rfl, rfl, rfl⟩
  next u htree =>
    split at hparse
    next =>
      cases hparse
      exact uri_tree htree
    next fault _ =>
      cases hreport : fault.report with
      | error e =>
        rw [hreport] at hparse
        cases hparse
      | ok place =>
        rw [hreport] at hparse
        cases hparse
        exact ⟨rfl, rfl, rfl, rfl⟩

theorem parse_eq_error_iff :
    s.parse = .error ⟨n⟩ ↔ ∃ u, s.tree = .ok u ∧ u.fault? = some (.digits n) := by
  rw [parse]
  cases s.tree with
  | error e => simp
  | ok u =>
    cases hfault : u.fault? with
    | none => simp [hfault]
    | some fault =>
      cases fault <;> simp [hfault, ShapeFault.report, bind, Except.bind, pure, Except.pure]

theorem parseFrom_tells {next after : NodeId} {outcome : Except Diagnostic CompilationUnit}
    (hparse : s.parseFrom next = .ok (outcome, after)) : s.Tells outcome := by
  rw [parseFrom] at hparse
  cases hresult : s.parse with
  | error e =>
    rw [hresult] at hparse
    cases hparse
  | ok result =>
    rw [hresult] at hparse
    have htells := parse_tells hresult
    cases result with
    | error d =>
      cases hparse
      exact htells
    | ok u =>
      cases hparse
      exact htells

theorem parseFrom_eq_error_iff {next : NodeId} :
    s.parseFrom next = .error ⟨n⟩ ↔ s.parse = .error ⟨n⟩ := by
  rw [parseFrom]
  cases s.parse with
  | error e => simp [bind, Except.bind]
  | ok outcome => cases outcome <;> simp [bind, Except.bind, pure, Except.pure]

end Source

section Numbers

variable {uri : String} {comments : List Comment} {d : Derivation .unit}

theorem exists_token_of_digits (hfault : (image uri comments d).fault? = some (.digits n)) :
    ∃ t ∈ d.yield, t.kind = .intLiteral ∧ (Literal.int t.text).excessDigits? = some n := by
  obtain ⟨m, hm, hself⟩ := CompilationUnit.exists_hasFault hfault
  obtain ⟨info, spelling, rfl, hexcess⟩ := hself.literal
  obtain ⟨t, ht, hkind, rfl⟩ := exists_token_of_literal hm
  exact ⟨t, ht, hkind, hexcess⟩

theorem fault?_eq_digits {t : Token} (hshape : (Node.unit (image uri comments d)).All WellShaped)
    (ht : t ∈ d.yield) (hlong : ¬ReadableToken t) :
    ∃ n, (image uri comments d).fault? = some (.digits n) := by
  obtain ⟨hkind, hexcess⟩ := Classical.not_imp.mp hlong
  obtain ⟨info, hliteral⟩ := exists_literal_of_token uri comments ht hkind
  cases hfault : (image uri comments d).fault? with
  | none =>
    have hfaultless := (CompilationUnit.fault?_eq_none_iff _).mp hfault
    exact absurd (all_iff_forall_mem_nodes.mp (faultless_iff.mp hfaultless).2 _ hliteral) hexcess
  | some f =>
    obtain ⟨m, hm, hself⟩ := CompilationUnit.exists_hasFault hfault
    obtain ⟨n, rfl⟩ := (all_iff_forall_mem_nodes.mp hshape m hm).digits hself
    exact ⟨n, rfl⟩

end Numbers

/-- Parsing ends with a tree or one diagnostic, or stops at a number of a text that
the grammar derives; it does stop if the text has such a number and no other
fault. -/
theorem Source.parseFrom_tells_or_overlong (s : Source) (next : NodeId) :
    ((∃ outcome after, s.parseFrom next = .ok (outcome, after) ∧ s.Tells outcome) ∨
      ∃ d : Derivation .unit, s.tokens = .ok d.yield ∧ ∃ t ∈ d.yield, t.kind = .intLiteral ∧
        ∃ n, (Literal.int t.text).excessDigits? = some n ∧ s.parseFrom next = .error ⟨n⟩) ∧
    ∀ d : Derivation .unit, s.tokens = .ok d.yield →
      (Node.unit (image s.uri s.comments d)).All WellShaped →
      ((∃ n, s.parseFrom next = .error ⟨n⟩) ↔ ∃ t ∈ d.yield, ¬ReadableToken t) := by
  have hstops : ∀ {n}, s.parseFrom next = .error ⟨n⟩ →
      ∃ d : Derivation .unit, s.tokens = .ok d.yield ∧ ∃ t ∈ d.yield, t.kind = .intLiteral ∧
        (Literal.int t.text).excessDigits? = some n := by
    intro n herror
    obtain ⟨u, htree, hfault⟩ := parse_eq_error_iff.mp (parseFrom_eq_error_iff.mp herror)
    obtain ⟨w, hlex⟩ := exists_tokens_of_tree htree
    obtain ⟨d, rfl, rfl⟩ := (tree_eq_ok_iff hlex).mp htree
    exact ⟨d, hlex, exists_token_of_digits hfault⟩
  refine ⟨?_, fun d hlex hshape => ⟨?_, ?_⟩⟩
  · cases hparse : s.parseFrom next with
    | ok result => exact .inl ⟨result.1, result.2, rfl, parseFrom_tells hparse⟩
    | error e =>
      obtain ⟨d, hlex, t, ht, hkind, hexcess⟩ := hstops hparse
      exact .inr ⟨d, hlex, t, ht, hkind, e.digits, hexcess, rfl⟩
  · rintro ⟨n, herror⟩
    obtain ⟨d', hlex', t, ht, hkind, hexcess⟩ := hstops herror
    obtain rfl : d = d' := Parser.eq_of_yield_eq (Except.ok.inj (hlex.symm.trans hlex'))
    refine ⟨t, ht, fun hreadable => ?_⟩
    rw [hreadable hkind] at hexcess
    cases hexcess
  · rintro ⟨t, ht, hlong⟩
    obtain ⟨n, hfault⟩ := fault?_eq_digits hshape ht hlong
    exact ⟨n, parseFrom_eq_error_iff.mpr
      (parse_eq_error_iff.mpr ⟨_, (tree_eq_ok_iff hlex).mpr ⟨d, rfl, rfl⟩, hfault⟩)⟩

/-! ## A number with too many digits -/

namespace OverlongNumber

def chars (n : Nat) : List Char :=
  "var x = ".toList ++ (List.replicate n '1' ++ [';'])

def text (n : Nat) : Source := ⟨"lib/a.dart", String.ofList (chars n)⟩

def number (n : Nat) : Token where
  kind := .intLiteral
  text := String.ofList (List.replicate n '1')
  extent := ⟨⟨1, 9, 8⟩, Position.advance ⟨1, 9, 8⟩ (List.replicate n '1')⟩

def extent (start stop : Nat) : Extent := ⟨⟨1, start + 1, start⟩, ⟨1, stop + 1, stop⟩⟩

def tokens (n : Nat) : List Token := [
  ⟨.varWord, "var", extent 0 3⟩, ⟨.name, "x", extent 4 5⟩, ⟨.assign, "=", extent 6 7⟩,
  number n, ⟨.semicolon, ";", ⟨(number n).extent.stop, (number n).extent.stop.advance [';']⟩⟩]

theorem munch?_number (n : Nat) :
    Lexeme.munch? '1' (List.replicate n '1' ++ [';']) =
      some (.token .intLiteral, ⟨List.replicate n '1', [';']⟩) := by
  have hdigits : Lexeme.Cut.whileTrue Lexeme.isDigit (List.replicate n '1' ++ [';']) =
      ⟨List.replicate n '1', [';']⟩ := by
    have hone : ∀ c ∈ List.replicate n '1', Lexeme.isDigit c = true := by
      intro c hc
      rw [eq_of_mem_replicate hc]
      rfl
    rw [Lexeme.Cut.whileTrue, takeWhile_append_of_pos hone, dropWhile_append_of_pos hone]
    simp [Lexeme.isDigit]
  simp [Lexeme.munch?, Lexeme.isDigit, Lexeme.numberTail, hdigits, Lexeme.fraction?]

theorem munch?_var (rest : List Char) :
    Lexeme.munch? 'v' ('a' :: 'r' :: ' ' :: rest) =
      some (.token .varWord, ⟨['a', 'r'], ' ' :: rest⟩) := by
  rfl

theorem munch?_x (rest : List Char) :
    Lexeme.munch? 'x' (' ' :: rest) = some (.token .name, ⟨[], ' ' :: rest⟩) := by
  rfl

theorem munch?_assign (rest : List Char) :
    Lexeme.munch? '=' (' ' :: rest) = some (.token .assign, ⟨[], ' ' :: rest⟩) := by
  rfl

theorem munch?_blank {c : Char} (hc : Lexeme.isSpace c = false) (rest : List Char) :
    Lexeme.munch? ' ' (c :: rest) = some (.blanks, ⟨[], c :: rest⟩) := by
  have hspace : Lexeme.isSpace ' ' = true := rfl
  simp [Lexeme.munch?, Lexeme.isDigit, Lexeme.isNameStart, Lexeme.Cut.whileTrue, hspace, hc]

theorem scan_text (n : Nat) :
    Scan.of (chars (n + 1)) = ⟨[
      ⟨.token .varWord, ['v', 'a', 'r'], ⟨1, 1, 0⟩⟩, ⟨.blanks, [' '], ⟨1, 4, 3⟩⟩,
      ⟨.token .name, ['x'], ⟨1, 5, 4⟩⟩, ⟨.blanks, [' '], ⟨1, 6, 5⟩⟩,
      ⟨.token .assign, ['='], ⟨1, 7, 6⟩⟩, ⟨.blanks, [' '], ⟨1, 8, 7⟩⟩,
      ⟨.token .intLiteral, List.replicate (n + 1) '1', ⟨1, 9, 8⟩⟩,
      ⟨.token .semicolon, [';'], (number (n + 1)).extent.stop⟩], none⟩ := by
  have hchars : chars (n + 1) = 'v' :: 'a' :: 'r' :: ' ' :: 'x' :: ' ' :: '=' :: ' ' :: '1' ::
      (List.replicate n '1' ++ [';']) := rfl
  have hend : Lexeme.munch? ';' [] = some (.token .semicolon, ⟨[], []⟩) := rfl
  rw [hchars, Scan.of, Scan.startingAt_cons (munch?_var _), Scan.startingAt_cons (munch?_blank rfl _),
    Scan.startingAt_cons (munch?_x _), Scan.startingAt_cons (munch?_blank rfl _),
    Scan.startingAt_cons (munch?_assign _), Scan.startingAt_cons (munch?_blank rfl _),
    Scan.startingAt_cons (munch?_number n), Scan.startingAt_cons hend, Scan.startingAt]
  rfl

theorem tokens_text (n : Nat) : (text (n + 1)).tokens = .ok (tokens (n + 1)) := by
  rw [Source.tokens, Source.chars, text, String.toList_ofList, scan_text]
  rfl

def tree (n : Nat) : CompilationUnit where
  extent := some ⟨⟨1, 1, 0⟩, (number n).extent.stop.advance [';']⟩
  uri := "lib/a.dart"
  directives := []
  declarations := [.variable {
    info := { extent := ⟨⟨1, 1, 0⟩, (number n).extent.stop.advance [';']⟩ }
    name := "x"
    kind := .topLevel
    type := none
    init := some (.literal { extent := (number n).extent } (.int (number n).text))
    modifiers := {}
    metadata := [] }]
  comments := []

theorem tree_text (n : Nat) : (text (n + 1)).tree = .ok (tree (n + 1)) := by
  have hcomments : (text (n + 1)).comments = [] := by
    rw [Source.comments, Source.chars, text, String.toList_ofList, scan_text]
    rfl
  rw [Source.tree, tokens_text, hcomments]
  rfl

theorem excessDigits?_number (hlong : maxDigits < n) :
    (Literal.int (number n).text).excessDigits? = some n := by
  have hdecimal : Literal.isHex (List.replicate n '1') = false := by
    cases n <;> rfl
  simp [number, Literal.excessDigits?, hdecimal, hlong]

theorem parseFrom_text (hlong : maxDigits < n + 1) (next : NodeId) :
    (text (n + 1)).parseFrom next = .error ⟨n + 1⟩ := by
  have hfault : (tree (n + 1)).fault? = some (.digits (n + 1)) := by
    simp [tree, CompilationUnit.fault?, Declaration.fault?, VarDecl.fault?, Expr.fault?,
      excessDigits?_number hlong]
  exact Source.parseFrom_eq_error_iff.mpr (Source.parse_eq_error_iff.mpr ⟨_, tree_text n, hfault⟩)

theorem parseFrom_overlong : (text 4301).parseFrom 1 = .error ⟨4301⟩ :=
  parseFrom_text (by decide) 1

end OverlongNumber

end CheckedThrows
