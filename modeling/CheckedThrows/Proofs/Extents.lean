import CheckedThrows.Proofs.Acceptance
import CheckedThrows.Proofs.Renumbering
import CheckedThrows.Proofs.Visits

/-!
# Where tokens stand

Every lexeme of a text has at least one character, so each starts later than
the one before it, and no two tokens have the same extent.  A name in a tree is
a token of the text.  Hence an extent says which name of a file is meant, and a
report about a name can be told from the reports about all others.
-/

namespace CheckedThrows

open List

namespace Position

theorem offset_next (p : Position) (c : Char) : (p.next c).offset = p.offset + 1 := by
  unfold next
  split <;> rfl

theorem offset_advance (p : Position) (cs : List Char) :
    (p.advance cs).offset = p.offset + cs.length := by
  induction cs generalizing p with
  | nil => rfl
  | cons c cs ih =>
    have hrest := ih (p.next c)
    rw [offset_next] at hrest
    rw [length_cons, Nat.add_comm cs.length, ← Nat.add_assoc]
    exact hrest

end Position

namespace Scan

theorem increasing_startingAt (p : Position) (cs : List Char) :
    (∀ l ∈ (startingAt p cs).lexemes, p.offset ≤ l.start.offset) ∧
      (startingAt p cs).lexemes.Pairwise fun l m => l.start.offset < m.start.offset := by
  induction hlength : cs.length using Nat.strongRecOn generalizing p cs with
  | ind n ih =>
    cases cs with
    | nil => simp [startingAt]
    | cons c cs =>
      cases hmunch : Lexeme.munch? c cs with
      | none =>
        have hstuck : (startingAt p (c :: cs)).lexemes = [] := by
          rw [startingAt]
          split
          next => rfl
          next hsome => simp [hmunch] at hsome
        simp [hstuck]
      | some lexeme =>
        obtain ⟨kind, cut⟩ := lexeme
        have hcut : cut.taken.length + cut.rest.length = cs.length := by
          rw [← length_append]
          exact congrArg List.length (Lexeme.munch?_append hmunch)
        rw [length_cons] at hlength
        obtain ⟨hfrom, hpairs⟩ := ih cut.rest.length (by omega)
          (p.advance (c :: cut.taken)) cut.rest rfl
        rw [Position.offset_advance, length_cons] at hfrom
        rw [startingAt_cons hmunch]
        constructor
        · intro l hl
          rcases mem_cons.mp hl with rfl | hl
          · exact Nat.le_refl _
          · have hlater := hfrom l hl
            omega
        · refine pairwise_cons.mpr ⟨fun l hl => ?_, hpairs⟩
          have hlater := hfrom l hl
          show p.offset < l.start.offset
          omega

theorem nodup_extents (source : List Char) : ((of source).tokens.map Token.extent).Nodup := by
  have hpairs := (increasing_startingAt Position.start source).2
  rw [List.Nodup, tokens, pairwise_map, pairwise_filterMap]
  refine hpairs.imp fun {l m} hlt t ht t' ht' hextent => ?_
  have hstart : ∀ {k : Lexeme} {x : Token}, k.token? = some x → x.extent = k.extent := by
    intro k x hx
    unfold Lexeme.token? at hx
    split at hx
    · cases hx
      rfl
    · cases hx
  rw [hstart ht, hstart ht'] at hextent
  exact absurd (congrArg (fun e => e.start.offset) hextent) (Nat.ne_of_lt hlt)

end Scan

theorem Token.map_extent_mark (ts : List Token) : (mark ts).map extent = ts.map extent := by
  have hafter : ∀ before, (markAfter before ts).map extent = ts.map extent := by
    induction ts with
    | nil => exact fun _ => rfl
    | cons t ts ih => exact fun _ => congrArg (t.extent :: ·) (ih _)
  exact hafter none

theorem Source.nodup_extents {s : Source} {w : List Token} (hlex : s.tokens = .ok w) :
    (w.map Token.extent).Nodup := by
  simp only [Source.tokens] at hlex
  split at hlex
  · cases hlex
  · cases hlex
    rw [Token.map_extent_mark]
    exact Scan.nodup_extents s.chars

/-! ## Names in a tree -/

namespace Node

theorem count_name_ownMarks_le (place : Extent) (n : Node) :
    n.ownMarks.count (.name place) ≤ (n.leaf?.toList.map Token.extent).count place := by
  cases n with
  | expr e =>
    cases e with
    | name info name =>
      by_cases hplace : info.extent = place
      · subst hplace
        simp [ownMarks, leaf?]
      · simp [ownMarks, leaf?, Ne.symm hplace]
    | _ => simp [ownMarks]
  | _ => simp [ownMarks]

theorem count_name_marks_le (place : Extent) (n : Node) :
    n.marks.count (.name place) ≤ ((n.nodes.filterMap leaf?).map Token.extent).count place := by
  rw [marks]
  induction n.nodes with
  | nil => simp
  | cons m ms ih =>
    have hleaf : (m :: ms).filterMap leaf? = m.leaf?.toList ++ ms.filterMap leaf? := by
      cases hm : m.leaf? <;> simp [hm]
    rw [map_cons, sum_cons, Multiset.count_add, hleaf, map_append, count_append]
    exact Nat.add_le_add (m.count_name_ownMarks_le place) ih

theorem wellShaped_relabel (ρ : Relabeling) (n : Node) :
    (n.relabel ρ).WellShaped ↔ n.WellShaped := by
  cases n with
  | expr e =>
    have hassignable : ∀ x : Expr, (x.relabel ρ).isAssignable = x.isAssignable := by
      intro x
      cases x <;> simp [Expr.relabel, Expr.isAssignable]
    cases e <;> simp [WellShaped, Expr.relabel, Param.relabel_eq, hassignable]
  | stmt s => cases s <;> simp [WellShaped, Stmt.relabel, FunctionDecl.relabel_eq]
  | «class» d =>
    simp only [WellShaped, relabel_class, ClassDecl.relabel, mem_map]
    constructor
    · intro h f hf q hq
      have hname := h (f.relabel ρ) ⟨.function f, hf, rfl⟩
      rw [FunctionDecl.relabel_eq] at hname
      exact hname (q.relabel ρ) (Option.mem_map_of_mem _ hq)
    · rintro h f ⟨m, hm, hrelabel⟩ q hq
      cases m with
      | «variable» d => cases hrelabel
      | function g =>
        cases hrelabel
        rw [FunctionDecl.relabel_eq] at hq
        obtain ⟨q', hq', rfl⟩ := Option.mem_map.mp hq
        exact h g hm q' hq'
  | _ => rfl

theorem all_wellShaped_relabel (ρ : Relabeling) (n : Node) :
    (n.relabel ρ).All WellShaped ↔ n.All WellShaped := by
  rw [all_iff_forall_mem_nodes, all_iff_forall_mem_nodes, nodes_relabel, forall_mem_map]
  simp only [wellShaped_relabel]

end Node

/-! ## Trees of texts -/

structure CompilationUnit.Proper (u : CompilationUnit) : Prop where
  shaped : (Node.unit u).All Node.WellShaped
  names : ((Node.unit u).nodes.filterMap Node.leaf?).map Token.extent |>.Nodup

namespace CompilationUnit

theorem proper_relabel (ρ : NodeId → NodeId) (u : CompilationUnit) :
    (u.relabel (.numbers ρ)).Proper ↔ u.Proper := by
  have hshape := Node.all_wellShaped_relabel (.numbers ρ) (.unit u)
  have hleaves := Node.leaves_relabel ρ (.unit u)
  rw [Node.relabel_unit] at hshape hleaves
  constructor
  · rintro ⟨hshaped, hnames⟩
    exact ⟨hshape.mp hshaped, hleaves ▸ hnames⟩
  · rintro ⟨hshaped, hnames⟩
    exact ⟨hshape.mpr hshaped, hleaves.symm ▸ hnames⟩

theorem proper_number (u : CompilationUnit) (start : NodeId) :
    (u.number start).1.Proper ↔ u.Proper := by
  rw [← proper_relabel (fun _ => 0), relabel_zero_number, proper_relabel]

theorem Proper.count_name_le {u : CompilationUnit} (hu : u.Proper) (place : Extent) :
    (Node.unit u).marks.count (.name place) ≤ 1 :=
  Nat.le_trans ((Node.unit u).count_name_marks_le place)
    (nodup_iff_count_le_one.mp hu.names place)

end CompilationUnit

namespace Source

open Grammar in
theorem proper_parse {s : Source} {u : CompilationUnit} (hparse : s.parse = .ok (.ok u)) :
    u.Proper := by
  obtain ⟨d, hlex, rfl, hfault⟩ := exists_derivation_of_parse hparse
  have hfaultless := (CompilationUnit.fault?_eq_none_iff _).mp hfault
  refine ⟨(Node.faultless_iff.mp hfaultless).1, ?_⟩
  have hkind : ∀ t ∈ (Node.unit (image s.uri s.comments d)).nodes.filterMap Node.leaf?,
      t.kind = .name ∨ t.kind = .intLiteral := by
    intro t ht
    obtain ⟨n, -, hn⟩ := mem_filterMap.mp ht
    unfold Node.leaf? at hn
    split at hn
    · cases hn
      exact .inl rfl
    · cases hn
      exact .inr rfl
    · cases hn
  have hle : (((Node.unit (image s.uri s.comments d)).nodes.filterMap Node.leaf? :
      List Token) : Multiset Token) ≤ d.yield := by
    rw [Multiset.le_iff_count]
    intro t
    rw [Multiset.coe_count, Multiset.coe_count]
    by_cases ht : t ∈ (Node.unit (image s.uri s.comments d)).nodes.filterMap Node.leaf?
    · exact (mentions_image (hkind t ht) s.uri s.comments d).1
    · rw [count_eq_zero.mpr ht]
      exact Nat.zero_le _
  have hnodup := nodup_extents hlex
  rw [← Multiset.coe_nodup, ← Multiset.map_coe] at hnodup ⊢
  exact Multiset.nodup_of_le (Multiset.map_le_map hle) hnodup

theorem proper_parseAll {next : NodeId} {sources : List Source}
    {parsed : List (Source × Except Diagnostic CompilationUnit)}
    (hparse : parseAll next sources = .ok parsed) :
    ∀ u ∈ parsed.filterMap Loaded.unitOf?, u.Proper := by
  intro u hu
  obtain ⟨s, -, t, start, ht, rfl⟩ := parse_of_mem_parseAll hparse hu
  exact (t.proper_number start).mpr (proper_parse ht)

end Source

end CheckedThrows
