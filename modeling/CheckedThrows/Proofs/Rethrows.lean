import CheckedThrows.Proofs.Handlers

/-!
# Rethrows leave their own try

The clauses that protect a `rethrow` are those of the tries inside of the body of
its clause, followed by those that protect the `try` of the clause.  In a numbered
tree a clause belongs to one `try` only, so the clauses of the own `try` are not
among them, however the rethrow is nested.
-/

namespace CheckedThrows

open List

namespace Node

section
variable (c : CatchClause)

@[simp]
theorem ofBody_ne_clause (b : Body) : ofBody b ≠ .clause c := by
  cases b <;> simp [ofBody]

@[simp]
theorem ofMember_ne_clause (m : Member) : ofMember m ≠ .clause c := by
  cases m <;> simp [ofMember]

@[simp]
theorem ofDeclaration_ne_clause (d : Declaration) : ofDeclaration d ≠ .clause c := by
  cases d <;> simp [ofDeclaration]

end

theorem clause_mem_children_iff {n : Node} {slot : Slot} {c : CatchClause} :
    (slot, .clause c) ∈ n.children ↔ slot = .other ∧ c ∈ n.catches := by
  cases n with
  | stmt s =>
    cases s with
    | guarded info body clauses finallyBlock =>
      simp [children, stmtChildren, catches, eq_comm, and_comm]
    | _ => simp [children, stmtChildren, catches]
  | expr e =>
    cases e with
    | lambda info params body =>
      simp [children, exprChildren, catches, (ofBody_ne_clause c body).symm]
    | _ => simp [children, exprChildren, catches]
  | type t => cases t <;> simp [children, typeChildren, catches]
  | _ => simp [children, catches]

theorem eq_body_of_mem_children_clause {c : CatchClause} {slot : Slot} {n : Node}
    (hmem : (slot, n) ∈ (Node.clause c).children) (hcode : ∀ t, n ≠ .type t) :
    slot = .other ∧ n = .block c.body := by
  simp only [children, mem_append, mem_map, mem_singleton, Prod.mk.injEq] at hmem
  rcases hmem with ⟨t, -, -, htype⟩ | hbody
  · exact absurd htype.symm (hcode t)
  · exact hbody

theorem eq_type_of_mem_children {t : TypeRef} {slot : Slot} {n : Node}
    (hmem : (slot, n) ∈ (Node.type t).children) : ∃ t', n = .type t' := by
  obtain ⟨n', hpart, heq⟩ := mem_map.mp hmem
  obtain ⟨-, rfl⟩ := Prod.mk.inj heq
  cases t with
  | named name => cases hpart
  | function info returns params isNullable =>
    rcases mem_append.mp hpart with hmem | hmem
    · obtain ⟨t', -, rfl⟩ := mem_map.mp hmem
      exact ⟨t', rfl⟩
    · obtain ⟨t', -, rfl⟩ := mem_map.mp hmem
      exact ⟨t', rfl⟩

end Node

namespace Place

/-! ## The clauses around a place -/

def clauseBody (own : Place) (c : CatchClause) : Place :=
  .child (.child own .other (.clause c)) .other (.block c.body)

theorem protectors_of_not_guarded {parent : Place} {slot : Slot} {n : Node}
    (hopen : parent.node.isFunction = false) (hslot : slot ≠ .guarded) :
    (Place.child parent slot n).protectors = parent.protectors := by
  rw [protectors, hopen, if_neg hslot]
  rfl

theorem protectors_clauseBody {own : Place} {c : CatchClause} (hclause : c ∈ own.node.catches) :
    (own.clauseBody c).protectors = own.protectors := by
  have hopen := not_isFunction_of_mem_catches hclause
  rw [clauseBody, protectors_of_not_guarded rfl (by decide),
    protectors_of_not_guarded hopen (by decide)]

/-- A place in the body of a clause of the `try` at `own`, with no function in
between: what protects it is inside of that body, or protects the `try`. -/
structure InClause (u : CompilationUnit) (own : Place) (c : CatchClause) (p : Place) : Prop where
  mem_walk : own ∈ walk (.unit u)
  mem_catches : c ∈ own.node.catches
  under : Under (own.clauseBody c) p
  protectors : ∃ inner, p.protectors = inner ++ own.protectors ∧
    ∀ d ∈ inner, ∃ t ∈ walk (.unit u), Under (own.clauseBody c) t ∧ d ∈ t.node.catches

section
variable {u : CompilationUnit} {own parent : Place} {c : CatchClause}

theorem InClause.body (hown : own ∈ walk (.unit u)) (hclause : c ∈ own.node.catches) :
    InClause u own c (own.clauseBody c) where
  mem_walk := hown
  mem_catches := hclause
  under := .self
  protectors := ⟨[], protectors_clauseBody hclause, by simp⟩

theorem InClause.child (h : InClause u own c parent) (hparent : parent ∈ walk (.unit u))
    (hopen : parent.node.isFunction = false) (slot : Slot) (n : Node) :
    InClause u own c (.child parent slot n) where
  mem_walk := h.mem_walk
  mem_catches := h.mem_catches
  under := .child slot n h.under
  protectors := by
    obtain ⟨inner, hinner, hinside⟩ := h.protectors
    by_cases hslot : slot = .guarded
    · refine ⟨parent.node.catches ++ inner, ?_, ?_⟩
      · rw [Place.protectors, hopen, if_pos hslot, hinner, append_assoc]
        rfl
      · intro d hd
        rcases mem_append.mp hd with hd | hd
        · exact ⟨parent, hparent, h.under, hd⟩
        · exact hinside d hd
    · exact ⟨inner, (protectors_of_not_guarded hopen hslot).trans hinner, hinside⟩

/-- A place with a clause around it is in the body of the clause, unless it is in
the type that the clause is for. -/
theorem exists_inClause {p : Place} (hp : p ∈ walk (.unit u)) (hcode : ∀ t, p.node ≠ .type t)
    (hclause : p.enclosingClause? = some c) : ∃ own, InClause u own c p := by
  rw [mem_walk_iff] at hp
  induction hp with
  | self => cases hclause
  | @child parent r habove hchild _ ih =>
    obtain ⟨⟨slot, n⟩, hmem, rfl⟩ := mem_children_iff.mp hchild
    rw [enclosingClause?] at hclause
    split at hclause
    next => cases hclause
    next hopen =>
      split at hclause
      next c' hnode =>
        obtain rfl := Option.some.inj hclause
        rw [hnode] at hmem
        obtain ⟨rfl, rfl⟩ := Node.eq_body_of_mem_children_clause hmem hcode
        cases habove with
        | self => cases hnode
        | child habove' hparent _ =>
          obtain ⟨⟨slot', n'⟩, hmem', rfl⟩ := mem_children_iff.mp hparent
          obtain rfl : n' = .clause c' := hnode
          obtain ⟨rfl, hcatches⟩ := Node.clause_mem_children_iff.mp hmem'
          exact ⟨_, .body ((mem_walk_iff _ _).mpr habove') hcatches⟩
      next =>
        have hparent : ∀ t, parent.node ≠ .type t := by
          intro t htype
          rw [htype] at hmem
          obtain ⟨t', ht'⟩ := Node.eq_type_of_mem_children hmem
          exact hcode t' ht'
        obtain ⟨own, hown⟩ := ih hparent hclause
        exact ⟨own, hown.child ((mem_walk_iff _ _).mpr habove) (by simpa using hopen) slot n⟩

end

theorem exists_above_of_mem_protectors {root : Node} {p : Place} (hp : p ∈ walk root)
    {d : CatchClause} (hd : d ∈ p.protectors) :
    ∃ t ∈ walk root, d ∈ t.node.catches ∧ t.depth < p.depth := by
  rw [mem_walk_iff] at hp
  induction hp with
  | self => cases hd
  | @child parent r habove hchild _ ih =>
    obtain ⟨⟨slot, n⟩, -, rfl⟩ := mem_children_iff.mp hchild
    rw [protectors] at hd
    split at hd
    · cases hd
    · rcases mem_append.mp hd with hd | hd
      · split at hd
        · exact ⟨parent, (mem_walk_iff _ _).mpr habove, hd, Nat.lt_succ_self _⟩
        · cases hd
      · obtain ⟨t, ht, hcatches, hdepth⟩ := ih hd
        exact ⟨t, ht, hcatches, Nat.lt_succ_of_lt hdepth⟩

theorem eq_of_mem_catches {u : CompilationUnit} {start : NodeId} {p q : Place}
    (hp : p ∈ walk (.unit (u.number start).1)) (hq : q ∈ walk (.unit (u.number start).1))
    {c : CatchClause} (hpc : c ∈ p.node.catches) (hqc : c ∈ q.node.catches) : p = q := by
  have hmem : ∀ {t : Place}, t ∈ walk (.unit (u.number start).1) → c ∈ t.node.catches →
      Place.child t .other (.clause c) ∈ walk (.unit (u.number start).1) := by
    intro t ht htc
    rw [mem_walk_iff] at ht ⊢
    exact .child ht (mem_children_iff.mpr ⟨_, Node.clause_mem_children_iff.mpr ⟨rfl, htc⟩, rfl⟩) rfl
  have heq := eq_of_id_eq (hmem hp hpc) (hmem hq hqc) rfl
  cases heq
  rfl

theorem InClause.not_mem_protectors {u : CompilationUnit} {start : NodeId} {own p : Place}
    {c d : CatchClause} (h : InClause (u.number start).1 own c p) (hd : d ∈ own.node.catches) :
    d ∉ p.protectors := by
  intro hmem
  obtain ⟨inner, hprotectors, hinside⟩ := h.protectors
  rw [hprotectors] at hmem
  rcases mem_append.mp hmem with hmem | hmem
  · obtain ⟨t, ht, hunder, hcatches⟩ := hinside d hmem
    obtain rfl := eq_of_mem_catches ht h.mem_walk hcatches hd
    have hdepth := hunder.depth_le
    simp only [clauseBody, depth] at hdepth
    omega
  · obtain ⟨t, ht, hcatches, hdepth⟩ := exists_above_of_mem_protectors h.mem_walk hmem
    obtain rfl := eq_of_mem_catches ht h.mem_walk hcatches hd
    exact Nat.lt_irrefl _ hdepth

theorem enclosingClause?_eq_none_iff {p : Place} :
    p.enclosingClause? = none ↔
      ∀ n ∈ p.ancestors.takeWhile (fun n => !n.isFunction), ∀ c, n ≠ .clause c := by
  induction p with
  | root n => simp [enclosingClause?, ancestors]
  | child parent slot n ih =>
    rw [enclosingClause?, ancestors, takeWhile_cons]
    cases hfunction : parent.node.isFunction with
    | true => simp
    | false =>
      rw [if_neg (by decide), Bool.not_false, if_pos rfl, forall_mem_cons, ← ih]
      split
      next c hnode => simp [hnode]
      next hnode => exact (and_iff_right hnode).symm

end Place

namespace EffectModel

/-- A rethrow is handled by a clause inside of the body of the clause around it,
or by what handles the type at the `try` of that clause, and never by a clause of
that `try`.  Without a clause around it, it throws nothing. -/
theorem rethrow_leaves_its_try (m : EffectModel) (u : CompilationUnit) (start : NodeId)
    {site : Place} (hsite : site ∈ Place.walk (.unit (u.number start).1)) {info : NodeInfo}
    (hnode : site.node = .expr (.rethrow info)) :
    (∀ clause, site.enclosingClause? = some clause →
      ∃ own ∈ Place.walk (.unit (u.number start).1), clause ∈ own.node.catches ∧
        (∀ other ∈ Place.walk (.unit (u.number start).1), clause ∈ other.node.catches →
          other = own) ∧
        (own.clauseBody clause).Under site ∧
        ∀ type,
          ((∃ inner ∈ Place.walk (.unit (u.number start).1),
              (own.clauseBody clause).Under inner ∧
              ∃ c ∈ inner.node.catches, m.program.handlerOf? site type = some c) ∨
            m.program.handlerOf? site type = m.program.handlerOf? own type) ∧
          ∀ c ∈ own.node.catches, m.program.handlerOf? site type ≠ some c) ∧
    ((∀ n ∈ site.ancestors.takeWhile (fun n => !n.isFunction), ∀ clause, n ≠ .clause clause) →
      m.candidates site = []) := by
  constructor
  · intro clause hclause
    obtain ⟨own, hown⟩ := Place.exists_inClause hsite (by simp [hnode]) hclause
    refine ⟨own, hown.mem_walk, hown.mem_catches, ?_, hown.under, ?_⟩
    · intro other hother hcatches
      exact Place.eq_of_mem_catches hother hown.mem_walk hcatches hown.mem_catches
    · intro type
      constructor
      · obtain ⟨inner, hprotectors, hinside⟩ := hown.protectors
        simp only [Program.handlerOf?, Place.handler?_eq_find?, hprotectors, find?_append]
        cases hfind : inner.find? (m.program.clauseFor type) with
        | none => exact .inr rfl
        | some c =>
          obtain ⟨t, ht, hunder, hcatches⟩ := hinside c (mem_of_find?_eq_some hfind)
          exact .inl ⟨t, ht, hunder, c, hcatches, rfl⟩
      · intro c hc hhandler
        rw [Program.handlerOf?, Place.handler?_eq_find?] at hhandler
        exact hown.not_mem_protectors hc (mem_of_find?_eq_some hhandler)
  · intro hnone
    rw [← Place.enclosingClause?_eq_none_iff] at hnone
    simp [candidates, hnode, Program.rethrownType?, hnone]

end EffectModel

/-! In the body of a clause, one rethrow in an inner `try`, and one in a function
literal.  The inner `try` has a clause for `A` only. -/

namespace NestedRethrow

def rethrowStmt : Stmt := .expr (.bare 12) (.rethrow (.bare 13))

def innerClause : CatchClause :=
  ⟨.bare 14, some (.named ⟨.bare 15, "A", false⟩), none, none, ⟨.bare 16, []⟩⟩

def innerTry : Stmt := .guarded (.bare 10) ⟨.bare 11, [rethrowStmt]⟩ [innerClause] none

def literal : Expr := .lambda (.bare 18) [] (.value (.rethrow (.bare 19)))

def ownBody : Block := ⟨.bare 9, [innerTry, .expr (.bare 17) literal]⟩

def ownClause : CatchClause := ⟨.bare 8, none, some "e", none, ownBody⟩

def ownTry : Stmt := .guarded (.bare 6) ⟨.bare 7, []⟩ [ownClause] none

def outerClause : CatchClause := ⟨.bare 20, none, none, none, ⟨.bare 21, []⟩⟩

def outerTry : Stmt := .guarded (.bare 4) ⟨.bare 5, [ownTry]⟩ [outerClause] none

def function : FunctionDecl :=
  ⟨.bare 2, "f", .function, none, [], none, some (.block ⟨.bare 3, [outerTry]⟩), {}, []⟩

def unit : CompilationUnit where
  id := 1
  extent := none
  uri := "a.dart"
  directives := []
  declarations := [.function function]
  comments := []

def model : EffectModel where
  program :=
    { workspace := {}
      facts :=
        { types := { defs := #[.class "Object" none, .class "A" none], object := some 1 }
          catchTypes := ({} : NodeMap TypeId).insert 14 2 } }
  intrinsics := .empty

def own : Place :=
  .child (.child (.child (.child (.child (.root (.unit unit)) .other (.functionDecl function))
    .other (.block ⟨.bare 3, [outerTry]⟩)) .other (.stmt outerTry)) .guarded
    (.block ⟨.bare 5, [ownTry]⟩)) .other (.stmt ownTry)

def site : Place :=
  .child (.child (.child (.child (own.clauseBody ownClause) .other (.stmt innerTry)) .guarded
    (.block ⟨.bare 11, [rethrowStmt]⟩)) .other (.stmt rethrowStmt)) .other (.expr (.rethrow (.bare 13)))

def literalSite : Place :=
  .child (.child (.child (own.clauseBody ownClause) .other (.stmt (.expr (.bare 17) literal))) .other
    (.expr literal)) .other (.expr (.rethrow (.bare 19)))

theorem own_mem_walk : own ∈ Place.walk (.unit (unit.number 1).1) := by
  rw [Place.mem_walk_iff]
  exact @Place.reaches_of_follow? _ _ _ [0, 0, 0, 0, 0] rfl

theorem site_mem_walk : site ∈ Place.walk (.unit (unit.number 1).1) := by
  rw [Place.mem_walk_iff]
  exact @Place.reaches_of_follow? _ _ _ [0, 0, 0, 0, 0, 1, 0, 0, 0, 0, 0] rfl

theorem literalSite_mem_walk : literalSite ∈ Place.walk (.unit (unit.number 1).1) := by
  rw [Place.mem_walk_iff]
  exact @Place.reaches_of_follow? _ _ _ [0, 0, 0, 0, 0, 1, 0, 1, 0, 0] rfl

end NestedRethrow

open NestedRethrow in
theorem EffectModel.nested_rethrow_leaves_its_try :
    site.enclosingClause? = some ownClause ∧
      (∀ type, model.program.handlerOf? site type ≠ some ownClause) ∧
      model.program.handlerOf? site 2 = some innerClause ∧
      model.program.handlerOf? site 1 = some outerClause ∧
      model.candidates literalSite = [] := by
  obtain ⟨place, hplace, -, hunique, -, hhandler⟩ :=
    (rethrow_leaves_its_try model unit 1 site_mem_walk rfl).1 ownClause rfl
  obtain rfl : own = place := hunique own own_mem_walk (mem_singleton_self ownClause)
  refine ⟨rfl, ?_, rfl, rfl, ?_⟩
  · intro type
    exact (hhandler type).2 ownClause (mem_singleton_self ownClause)
  · refine (rethrow_leaves_its_try model unit 1 literalSite_mem_walk rfl).2 ?_
    intro n hn
    cases hn

end CheckedThrows
