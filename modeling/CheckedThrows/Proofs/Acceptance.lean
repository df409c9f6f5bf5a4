import CheckedThrows.Proofs.Leaves
import CheckedThrows.Proofs.NumberedUnits
import CheckedThrows.Proofs.Parsing

/-!
# The texts that parse

A text whose numbers can be read is accepted exactly if its tokens have a
derivation with a well-shaped syntax tree.  There is at most one derivation,
and its syntax tree is what the text is parsed to.
-/

namespace CheckedThrows

open Node Grammar

variable {u : CompilationUnit}

namespace Source

variable {s : Source} {w : List Token}

theorem tree_eq_ok_iff (hlex : s.tokens = .ok w) :
    s.tree = .ok u ↔ ∃ d : Derivation .unit, d.yield = w ∧ image s.uri s.comments d = u := by
  simp only [tree, hlex, bind, Except.bind]
  constructor
  · intro h
    split at h
    next d hd => exact ⟨d, Parser.unit_eq_ok_iff.mp hd, Except.ok.inj h⟩
    next => cases h
  · rintro ⟨d, hd, rfl⟩
    rw [Parser.unit_eq_ok_iff.mpr hd]
    rfl

theorem parse_eq_ok_iff :
    s.parse = .ok (.ok u) ↔ s.tree = .ok u ∧ u.fault? = none := by
  rw [parse]
  constructor
  · intro h
    split at h
    next => cases h
    next u' hu =>
      split at h
      next hfault =>
        cases h
        exact ⟨hu, hfault⟩
      next fault _ =>
        cases hreport : fault.report with
        | error e =>
          rw [hreport] at h
          cases h
        | ok place =>
          rw [hreport] at h
          cases h
  · rintro ⟨hu, hfault⟩
    rw [hu]
    simp only [hfault]

theorem parseFrom_eq_ok_iff {next after : NodeId} :
    s.parseFrom next = .ok (.ok u, after) ↔
      ∃ t, s.parse = .ok (.ok t) ∧ t.number next = (u, after) := by
  constructor
  · intro h
    rcases parseFrom_cases h with ⟨d, hd, -⟩ | ⟨t, ht, hu, rfl⟩
    · cases hd
    · cases hu
      exact ⟨t, ht, rfl⟩
  · rintro ⟨t, ht, hnumber⟩
    rw [parseFrom, ht]
    change Except.ok (Except.ok (t.number next).1, (t.number next).2) = _
    rw [hnumber]

theorem exists_derivation_of_parse {t : CompilationUnit} (hparse : s.parse = .ok (.ok t)) :
    ∃ d : Derivation .unit, s.tokens = .ok d.yield ∧ t = image s.uri s.comments d ∧
      t.fault? = none := by
  obtain ⟨htree, hfault⟩ := parse_eq_ok_iff.mp hparse
  cases hlex : s.tokens with
  | error e => simp [tree, hlex, bind, Except.bind] at htree
  | ok w =>
    obtain ⟨d, rfl, rfl⟩ := (tree_eq_ok_iff hlex).mp htree
    exact ⟨d, rfl, rfl, hfault⟩

/-- A text whose tokens can all be read is accepted exactly if they are the yield of a
derivation whose image is well shaped, and there is at most one such derivation. -/
theorem parseFrom_eq_ok_iff_derivation (s : Source) (w : List Token) (hlex : s.tokens = .ok w)
    (hshort : ∀ t ∈ w, ReadableToken t) :
    (∀ next u after, s.parseFrom next = .ok (.ok u, after) ↔
      ∃ d : Derivation .unit, d.yield = w ∧
        (Node.unit (image s.uri s.comments d)).All WellShaped ∧
        (image s.uri s.comments d).number next = (u, after)) ∧
    ∀ d e : Derivation .unit, d.yield = w → e.yield = w → d = e := by
  refine ⟨fun next u after => ?_, fun d e hd he => Parser.eq_of_yield_eq (hd.trans he.symm)⟩
  have hfault : ∀ d : Derivation .unit, d.yield = w →
      ((image s.uri s.comments d).fault? = none ↔
        (Node.unit (image s.uri s.comments d)).All WellShaped) := by
    intro d hd
    rw [CompilationUnit.fault?_eq_none_iff, faultless_iff]
    exact and_iff_left (readable_image _ _ d (hd ▸ hshort))
  simp only [parseFrom_eq_ok_iff, parse_eq_ok_iff, tree_eq_ok_iff hlex]
  constructor
  · rintro ⟨t, ⟨⟨d, hd, rfl⟩, hnone⟩, hnumber⟩
    exact ⟨d, hd, (hfault d hd).mp hnone, hnumber⟩
  · rintro ⟨d, hd, hshape, hnumber⟩
    exact ⟨_, ⟨⟨d, hd, rfl⟩, (hfault d hd).mpr hshape⟩, hnumber⟩

end Source

/-! ## An example -/

namespace Subtraction

def text : Source := ⟨"lib/a.dart", "f() => a - b - c;"⟩

def extent (start stop : Nat) : Extent := ⟨⟨1, start + 1, start⟩, ⟨1, stop + 1, stop⟩⟩

def info (start stop : Nat) : NodeInfo := { extent := extent start stop }

def tokens : List Token := [
  ⟨.name, "f", extent 0 1⟩, ⟨.openParen, "(", extent 1 2⟩, ⟨.closeParen, ")", extent 2 3⟩,
  ⟨.arrow, "=>", extent 4 6⟩, ⟨.name, "a", extent 7 8⟩, ⟨.minus, "-", extent 9 10⟩,
  ⟨.name, "b", extent 11 12⟩, ⟨.minus, "-", extent 13 14⟩, ⟨.name, "c", extent 15 16⟩,
  ⟨.semicolon, ";", extent 16 17⟩]

def difference : Expr :=
  .binary (info 7 16) .subtract
    (.binary (info 7 12) .subtract (.name (info 7 8) "a") (.name (info 11 12) "b"))
    (.name (info 15 16) "c")

def tree : CompilationUnit where
  extent := some (extent 0 17)
  uri := "lib/a.dart"
  directives := []
  declarations := [.function ⟨info 0 17, "f", .function, none, [], none,
    some (.value difference), {}, []⟩]
  comments := []

theorem tokens_text : text.tokens = .ok tokens := by
  decide +kernel

theorem comments_text : text.comments = [] := by
  decide +kernel

theorem image_tokens : (Parser.unit tokens).map (image text.uri []) = .ok tree := by
  rfl

theorem exists_derivation :
    ∃ d : Derivation .unit, d.yield = tokens ∧ image text.uri text.comments d = tree := by
  have himage := image_tokens
  rw [comments_text]
  cases hunit : Parser.unit tokens with
  | error e =>
    rw [hunit] at himage
    cases himage
  | ok d =>
    rw [hunit] at himage
    exact ⟨d, Parser.unit_eq_ok_iff.mp hunit, Except.ok.inj himage⟩

theorem wellShaped_tree : (Node.unit tree).All WellShaped := by
  have hfault : tree.fault? = none := rfl
  exact (faultless_iff.mp (tree.fault?_eq_none_iff.mp hfault)).1

theorem subtraction_parsed_from_left :
    text.tokens = .ok tokens ∧ (∀ t ∈ tokens, ReadableToken t) ∧
    text.parseFrom 0 = .ok (.ok (tree.number 0).1, (tree.number 0).2) ∧
    ∃ d : Derivation .unit, d.yield = tokens ∧
      ∀ e : Derivation .unit, e.yield = tokens → e = d := by
  have hshort : ∀ t ∈ tokens, ReadableToken t := by simp [tokens, ReadableToken]
  obtain ⟨hiff, hunique⟩ :=
    Source.parseFrom_eq_ok_iff_derivation text tokens tokens_text hshort
  obtain ⟨d, hyield, himage⟩ := exists_derivation
  refine ⟨tokens_text, hshort, (hiff 0 _ _).mpr ⟨d, hyield, ?_, ?_⟩, d, hyield,
    fun e he => hunique e d he hyield⟩
  · rw [himage]
    exact wellShaped_tree
  · rw [himage]

end Subtraction

end CheckedThrows
