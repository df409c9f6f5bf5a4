import CheckedThrows.Load
import CheckedThrows.Proofs.Numbers

/-!
# Numbers across units

The trees of texts that are parsed one after the other have no number in
common.  So a number that occurs in them says in which of them a node stands,
and at which place.
-/

namespace CheckedThrows

open List

variable {u : CompilationUnit} {s : Source}

/-- Units in which each number occurs at one place only; a unit may be given
more than once. -/
def Numbered (units : List CompilationUnit) : Prop :=
  ∀ u ∈ units, ∀ u' ∈ units, ∀ p ∈ Place.walk (.unit u), ∀ p' ∈ Place.walk (.unit u'),
    p.node.id = p'.node.id → u = u' ∧ p = p'

theorem Numbered.of_subset {units units' : List CompilationUnit} (hunits : Numbered units)
    (hsub : units' ⊆ units) : Numbered units' :=
  fun u hu u' hu' => hunits u (hsub hu) u' (hsub hu')

theorem CompilationUnit.id_bounds_of_mem_walk {start : NodeId} {p : Place}
    (hp : p ∈ Place.walk (.unit (u.number start).1)) :
    start ≤ p.node.id ∧ p.node.id < (u.number start).2 := by
  obtain ⟨count, hnext, hnumbers⟩ := u.numbers_number start
  have hmem : p.node.id ∈ (Node.unit (u.number start).1).numbers := by
    rw [← Place.walk_numbers]
    exact mem_map_of_mem hp
  rw [hnumbers, mem_range'_1] at hmem
  rw [hnext]
  exact hmem

structure NumberedFrom (next : NodeId) (units : List CompilationUnit) : Prop where
  numbered : Numbered units
  bound : ∀ u ∈ units, ∀ p ∈ Place.walk (.unit u), next ≤ p.node.id

theorem numberedFrom_nil (next : NodeId) : NumberedFrom next [] :=
  ⟨by simp [Numbered], by simp⟩

theorem NumberedFrom.cons {next : NodeId} {units : List CompilationUnit}
    (hrest : NumberedFrom (u.number next).2 units) :
    NumberedFrom next ((u.number next).1 :: units) := by
  -- A number of the new unit is below all those of the units after it.
  have hapart : ∀ u' ∈ units, ∀ p ∈ Place.walk (.unit (u.number next).1),
      ∀ p' ∈ Place.walk (.unit u'), p.node.id < p'.node.id := by
    intro u' hu' p hp p' hp'
    exact Nat.lt_of_lt_of_le (CompilationUnit.id_bounds_of_mem_walk hp).2
      (hrest.bound u' hu' p' hp')
  constructor
  · intro u₁ hu₁ u₂ hu₂ p hp p' hp' hid
    rcases mem_cons.mp hu₁ with rfl | hu₁
    · rcases mem_cons.mp hu₂ with rfl | hu₂
      · exact ⟨rfl, Place.eq_of_id_eq hp hp' hid⟩
      · exact absurd hid (Nat.ne_of_lt (hapart u₂ hu₂ p hp p' hp'))
    · rcases mem_cons.mp hu₂ with rfl | hu₂
      · exact absurd hid (Nat.ne_of_gt (hapart u₁ hu₁ p' hp' p hp))
      · exact hrest.numbered u₁ hu₁ u₂ hu₂ p hp p' hp' hid
  · intro u' hu' p hp
    rcases mem_cons.mp hu' with rfl | hu'
    · exact (CompilationUnit.id_bounds_of_mem_walk hp).1
    · obtain ⟨count, hnext, -⟩ := u.numbers_number next
      exact Nat.le_trans (hnext ▸ Nat.le_add_right next count) (hrest.bound u' hu' p hp)

namespace Source

theorem parseFrom_cases {next after : NodeId} {outcome : Except Diagnostic CompilationUnit}
    (hparse : s.parseFrom next = .ok (outcome, after)) :
    (∃ d, outcome = .error d ∧ after = next) ∨
      ∃ u : CompilationUnit, s.parse = .ok (.ok u) ∧
        outcome = .ok (u.number next).1 ∧ after = (u.number next).2 := by
  unfold parseFrom at hparse
  cases hresult : s.parse with
  | error fault =>
    rw [hresult] at hparse
    cases hparse
  | ok result =>
    rw [hresult] at hparse
    cases result with
    | error d =>
      cases hparse
      exact .inl ⟨d, rfl, rfl⟩
    | ok u =>
      cases hparse
      exact .inr ⟨u, rfl, rfl, rfl⟩

section
variable {next : NodeId} {sources : List Source}
  {parsed : List (Source × Except Diagnostic CompilationUnit)}

theorem parseAll_cons (hparse : parseAll next (s :: sources) = .ok parsed) :
    ∃ outcome after rest, s.parseFrom next = .ok (outcome, after) ∧
      parseAll after sources = .ok rest ∧ parsed = (s, outcome) :: rest := by
  rw [parseAll] at hparse
  cases hfirst : s.parseFrom next with
  | error fault =>
    rw [hfirst] at hparse
    cases hparse
  | ok first =>
    rw [hfirst] at hparse
    cases hrest : parseAll first.2 sources with
    | error fault =>
      simp only [bind, Except.bind, hrest] at hparse
      cases hparse
    | ok rest =>
      simp only [bind, Except.bind, hrest] at hparse
      cases hparse
      exact ⟨first.1, first.2, rest, rfl, hrest, rfl⟩

theorem numberedFrom_parseAll (hparse : parseAll next sources = .ok parsed) :
    NumberedFrom next (parsed.filterMap Loaded.unitOf?) := by
  induction sources generalizing next parsed with
  | nil =>
    cases hparse
    exact numberedFrom_nil next
  | cons s sources ih =>
    obtain ⟨outcome, after, rest, hfirst, hrest, rfl⟩ := parseAll_cons hparse
    have hunits := ih hrest
    rcases parseFrom_cases hfirst with ⟨d, rfl, rfl⟩ | ⟨u, -, rfl, rfl⟩
    · exact hunits
    · exact hunits.cons

theorem parseFrom_of_mem_parseAll (hparse : parseAll next sources = .ok parsed) :
    ∀ entry ∈ parsed, entry.1 ∈ sources ∧
      ∃ start after, entry.1.parseFrom start = .ok (entry.2, after) := by
  induction sources generalizing next parsed with
  | nil =>
    cases hparse
    simp
  | cons s sources ih =>
    obtain ⟨outcome, after, rest, hfirst, hrest, rfl⟩ := parseAll_cons hparse
    refine forall_mem_cons.mpr ⟨⟨mem_cons_self, next, after, hfirst⟩, ?_⟩
    exact fun entry hentry => (ih hrest entry hentry).imp_left (mem_cons_of_mem s)

theorem parse_of_mem_parseAll (hparse : parseAll next sources = .ok parsed)
    (hu : u ∈ parsed.filterMap Loaded.unitOf?) :
    ∃ s ∈ sources, ∃ t start, s.parse = .ok (.ok t) ∧ u = (t.number start).1 := by
  obtain ⟨⟨s, outcome⟩, hentry, hunit⟩ := mem_filterMap.mp hu
  obtain ⟨hs, start, after, hfrom⟩ := parseFrom_of_mem_parseAll hparse _ hentry
  rcases parseFrom_cases hfrom with ⟨d, rfl, -⟩ | ⟨t, ht, rfl, -⟩
  · cases hunit
  · exact ⟨s, hs, t, start, ht, (Option.some.inj hunit).symm⟩

theorem nodup_numbers_parseAll (hparse : parseAll next sources = .ok parsed) :
    ∀ u ∈ parsed.filterMap Loaded.unitOf?, (Node.unit u).numbers.Nodup := by
  intro u hu
  obtain ⟨-, -, t, start, -, rfl⟩ := parse_of_mem_parseAll hparse hu
  exact t.nodup_numbers start

end

def unitsAlone (s : Source) : List CompilationUnit :=
  ((parseAll 1 [s]).toOption.getD []).filterMap Loaded.unitOf?

theorem exists_parsed (hu : u ∈ s.unitsAlone) :
    ∃ parsed, parseAll 1 [s] = .ok parsed ∧ s.unitsAlone = parsed.filterMap Loaded.unitOf? := by
  unfold unitsAlone at hu ⊢
  cases hparse : parseAll 1 [s] with
  | error fault =>
    rw [hparse] at hu
    cases hu
  | ok parsed => exact ⟨parsed, rfl, rfl⟩

end Source

namespace Node

theorem sublist_numbers (n : Node) : (n.id :: n.children.map fun c => c.2.id).Sublist n.numbers := by
  rw [numbers_eq]
  refine List.Sublist.cons_cons _ ?_
  induction n.children with
  | nil => exact .slnil
  | cons c cs ih =>
    rw [map_cons, flatMap_cons, numbers_eq, cons_append]
    exact (ih.trans (sublist_append_right _ _)).cons_cons _

theorem numbers_sublist {n : Node} {c : Slot × Node} (hc : c ∈ n.children) :
    c.2.numbers.Sublist n.numbers := by
  rw [numbers_eq n]
  refine List.Sublist.cons _ ?_
  obtain ⟨before, after, heq⟩ := append_of_mem hc
  rw [heq, flatMap_append, flatMap_cons]
  exact (sublist_append_left _ _).trans (sublist_append_right _ _)

end Node

end CheckedThrows
