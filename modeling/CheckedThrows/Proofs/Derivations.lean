import CheckedThrows.Grammar.Reading

/-!
# Derivations and their parts

A tree and the parts at its top carry the same information, so a derivation of
a symbol is its rule applied to some parts, whose tokens in order are its own.
Every derivation comes from parts that are read from left to right, and
`reshape` keeps their tokens.
-/

namespace CheckedThrows.Grammar

namespace Tree

theorem ofParts_parts {r : Rhs} (d : Tree r) : ofParts r d.parts = d := by
  induction d with
  | tok t isKind => rfl
  | nt body => rfl
  | seq x y ihx ihy => simp only [parts, ofParts, ihx, ihy]
  | inl x ih => simp only [parts, ofParts, ih]
  | inr y ih => simp only [parts, ofParts, ih]
  | none => rfl
  | some x ih => simp only [parts, ofParts, ih]
  | nil => rfl
  | cons x xs ihx ihxs =>
    simp only [parts, ofParts, ofList, ihx]
    exact congrArg (Tree.cons x) ihxs

theorem exists_node {s : Symbol} (d : Derivation s) : ∃ v, d = node s v := by
  cases d with
  | nt body => exact ⟨body.parts, congrArg Tree.nt (ofParts_parts body).symm⟩

end Tree

namespace Parts

def yield {r : Rhs} (v : Parts Derivation r) : List Token :=
  (Tree.ofParts r v).yield

end Parts

open Parts

/-! ## Tokens of what was read -/

theorem yield_foldl {r a : Rhs} {f : Parts Derivation r → Parts Derivation a → Parts Derivation r}
    (hstep : ∀ x v, yield (f x v) = yield x ++ yield v)
    (x : Parts Derivation r) (vs : List (Parts Derivation a)) :
    yield (vs.foldl f x) = yield x ++ yield (r := .star a) vs := by
  induction vs generalizing x with
  | nil => exact (List.append_nil _).symm
  | cons v vs ih =>
    rw [List.foldl_cons, ih, hstep, List.append_assoc]
    rfl

namespace Reading

theorem yield_topOf (v : Parts Derivation (reading .topDecl)) : yield (topOf v) = yield v := by
  rcases v with ⟨m, c | ⟨ws, ⟨t, g | s | ⟨name, f | i⟩⟩ | g | s | ⟨name, f | i⟩⟩ |
    ⟨t, g | s | ⟨name, f | i⟩⟩ | g | s | ⟨name, f⟩⟩ <;> rfl

theorem yield_memberOf (v : Parts Derivation (reading .classMember)) :
    yield (memberOf v) = yield v := by
  rcases v with ⟨m, ⟨ws, ⟨t, g | s | o | ⟨name, f | i⟩⟩ | g | s | o | ⟨name, f | c | i⟩⟩ |
    ⟨t, g | s | o | ⟨name, f | i⟩⟩ | g | s | o | ⟨name, f | c⟩⟩ <;> rfl

theorem yield_paramOf (v : Parts Derivation (reading .param)) : yield (paramOf v) = yield v := by
  rcases v with ⟨m, ⟨f, ⟨t, name⟩ | name⟩ | ⟨t, formal | name⟩ | formal | name⟩ <;> rfl

theorem yield_localOf (v : Parts Derivation localDeclaration) : yield (localOf v) = yield v := by
  rcases v with ⟨m, ⟨ws, ⟨t, i⟩ | i⟩ | ⟨t, name, f | i⟩⟩ <;> rfl

theorem yield_statementOf (v : Parts Derivation (reading .statement)) :
    yield (statementOf v) = yield v := by
  rcases v with d | d | d | d | d | d | d | d | v | d <;> try rfl
  exact yield_localOf v

theorem yield_typeOf (v : Parts Derivation (reading .type)) : yield (typeOf v) = yield v := by
  have hstep : ∀ x v, yield (functionTypeOf x v) = yield x ++ yield v := fun _ _ => rfl
  rcases v with ⟨name | v, vs⟩ <;> exact yield_foldl hstep (firstTypeOf _) vs

theorem yield_suffixedOf (v : Parts Derivation (reading .suffixed)) :
    yield (suffixedOf v) = yield v := by
  have hstep : ∀ x v, yield (suffixOf x v) = yield x ++ yield v := by
    intro x v
    rcases v with member | args | index | step <;> rfl
  exact yield_foldl hstep (.inl v.1) v.2

theorem yield_chainOf (l : Chain) {first : Derivation l.operand} {w : List Token}
    (hfirst : first.yield = w) (vs : Parts Derivation (chainTail l)) :
    (Tree.node (.chain l) (chainOf l first vs)).yield = w ++ yield vs := by
  have hstep : ∀ x v, yield (binaryOf l x v) = yield x ++ yield v := fun _ _ => rfl
  rw [← hfirst]
  exact yield_foldl hstep (.inl first) vs

theorem yield_comparisonOf (c : Comparison) {left : Derivation c.operand} {w : List Token}
    (hleft : left.yield = w) (v : Parts Derivation (comparisonTail c)) :
    (Tree.node (.comparison c) (comparisonOf c left v)).yield = w ++ yield v := by
  rw [← hleft]
  cases v with
  | none => exact (List.append_nil _).symm
  | some v => rfl

theorem yield_operatorsOf (first : Derivation .unary) (v : Parts Derivation operatorTails) :
    (operatorsOf first v).yield = first.yield ++ yield v := by
  obtain ⟨product, sum, shift, bitAnd, bitXor, bitOr, relation, equality, and, or⟩ := v
  have h := yield_chainOf .product (rfl : first.yield = _) product
  have h := yield_chainOf .sum h sum
  have h := yield_chainOf .shift h shift
  have h := yield_chainOf .bitAnd h bitAnd
  have h := yield_chainOf .bitXor h bitXor
  have h := yield_chainOf .bitOr h bitOr
  have h := yield_comparisonOf .relation h relation
  have h := yield_comparisonOf .equality h equality
  have h := yield_chainOf .and h and
  have h := yield_chainOf .or h or
  refine h.trans ?_
  simp only [List.append_assoc]
  rfl

theorem yield_exprOf (v : Parts Derivation (reading .expr)) : yield (exprOf v) = yield v := by
  rcases v with d | d | ⟨v, tails⟩ | ⟨e, v | tails⟩
  · rfl
  · rfl
  · exact yield_operatorsOf (Tree.node .unary (.inr v)) tails
  · rfl
  · exact yield_operatorsOf (Tree.node .unary (.inl e)) tails

end Reading

open Reading in
theorem yield_reshape (s : Symbol) (v : Parts Derivation (reading s)) :
    yield (reshape s v) = yield v := by
  cases s with
  | topDecl => exact yield_topOf v
  | classMember => exact yield_memberOf v
  | type => exact yield_typeOf v
  | param => exact yield_paramOf v
  | statement => exact yield_statementOf v
  | expr => exact yield_exprOf v
  | chain l => exact yield_chainOf l (rfl : Tree.yield v.1 = _) v.2
  | comparison c => exact yield_comparisonOf c (rfl : Tree.yield v.1 = _) v.2
  | suffixed => exact yield_suffixedOf v
  | _ => rfl

/-! ## Every derivation is read from somewhere -/

/-- Where everything is a start of a fold or the result of one step, with fewer
tokens before that step, everything is the result of a fold. -/
theorem exists_foldl {α : Type} {r a : Rhs} {base : α → Parts Derivation r}
    {f : Parts Derivation r → Parts Derivation a → Parts Derivation r}
    (hcases : ∀ v, (∃ x, base x = v) ∨ ∃ u w, f u w = v ∧ (yield u).length < (yield v).length)
    (v : Parts Derivation r) : ∃ x vs, List.foldl f (base x) vs = v := by
  induction hlength : (yield v).length using Nat.strongRecOn generalizing v with
  | ind n ih =>
    rcases hcases v with ⟨x, rfl⟩ | ⟨u, w, rfl, hless⟩
    · exact ⟨x, [], rfl⟩
    · obtain ⟨x, vs, rfl⟩ := ih _ (hlength ▸ hless) u rfl
      exact ⟨x, vs ++ [w], List.foldl_append.trans rfl⟩

namespace Reading

theorem exists_topOf (v : Parts Derivation (rule .topDecl)) : ∃ u, topOf u = v := by
  rcases v with d | d | d | d | d <;> obtain ⟨v, rfl⟩ := Tree.exists_node d
  · exact ⟨(v.1, .inl v.2), rfl⟩
  · obtain ⟨m, _ | ws, _ | t, name, f⟩ := v
    · exact ⟨(m, .inr (.inr (.inr (.inr (.inr (name, f)))))), rfl⟩
    · exact ⟨(m, .inr (.inr (.inl (t, .inr (.inr (name, .inl f)))))), rfl⟩
    · exact ⟨(m, .inr (.inl (ws, .inr (.inr (.inr (name, .inl f)))))), rfl⟩
    · exact ⟨(m, .inr (.inl (ws, .inl (t, .inr (.inr (name, .inl f)))))), rfl⟩
  · obtain ⟨m, _ | ws, _ | t, g⟩ := v
    · exact ⟨(m, .inr (.inr (.inr (.inl g)))), rfl⟩
    · exact ⟨(m, .inr (.inr (.inl (t, .inl g)))), rfl⟩
    · exact ⟨(m, .inr (.inl (ws, .inr (.inl g)))), rfl⟩
    · exact ⟨(m, .inr (.inl (ws, .inl (t, .inl g)))), rfl⟩
  · obtain ⟨m, _ | ws, _ | t, s⟩ := v
    · exact ⟨(m, .inr (.inr (.inr (.inr (.inl s))))), rfl⟩
    · exact ⟨(m, .inr (.inr (.inl (t, .inr (.inl s))))), rfl⟩
    · exact ⟨(m, .inr (.inl (ws, .inr (.inr (.inl s))))), rfl⟩
    · exact ⟨(m, .inr (.inl (ws, .inl (t, .inr (.inl s))))), rfl⟩
  · rcases v with ⟨m, ws, _ | t, name, i⟩ | ⟨m, t, name, i⟩
    · exact ⟨(m, .inr (.inl (ws, .inr (.inr (.inr (name, .inr i)))))), rfl⟩
    · exact ⟨(m, .inr (.inl (ws, .inl (t, .inr (.inr (name, .inr i)))))), rfl⟩
    · exact ⟨(m, .inr (.inr (.inl (t, .inr (.inr (name, .inr i)))))), rfl⟩

theorem exists_memberOf (v : Parts Derivation (rule .classMember)) : ∃ u, memberOf u = v := by
  rcases v with d | d | d | d | d | d <;> obtain ⟨v, rfl⟩ := Tree.exists_node d
  · obtain ⟨m, _ | ws, _ | t, name, f⟩ := v
    · exact ⟨(m, .inr (.inr (.inr (.inr (.inr (name, .inl f)))))), rfl⟩
    · exact ⟨(m, .inr (.inl (t, .inr (.inr (.inr (name, .inl f)))))), rfl⟩
    · exact ⟨(m, .inl (ws, .inr (.inr (.inr (.inr (name, .inl f)))))), rfl⟩
    · exact ⟨(m, .inl (ws, .inl (t, .inr (.inr (.inr (name, .inl f)))))), rfl⟩
  · obtain ⟨m, _ | ws, _ | t, g⟩ := v
    · exact ⟨(m, .inr (.inr (.inl g))), rfl⟩
    · exact ⟨(m, .inr (.inl (t, .inl g))), rfl⟩
    · exact ⟨(m, .inl (ws, .inr (.inl g))), rfl⟩
    · exact ⟨(m, .inl (ws, .inl (t, .inl g))), rfl⟩
  · obtain ⟨m, _ | ws, _ | t, s⟩ := v
    · exact ⟨(m, .inr (.inr (.inr (.inl s)))), rfl⟩
    · exact ⟨(m, .inr (.inl (t, .inr (.inl s)))), rfl⟩
    · exact ⟨(m, .inl (ws, .inr (.inr (.inl s)))), rfl⟩
    · exact ⟨(m, .inl (ws, .inl (t, .inr (.inl s)))), rfl⟩
  · obtain ⟨m, _ | ws, _ | t, o⟩ := v
    · exact ⟨(m, .inr (.inr (.inr (.inr (.inl o))))), rfl⟩
    · exact ⟨(m, .inr (.inl (t, .inr (.inr (.inl o))))), rfl⟩
    · exact ⟨(m, .inl (ws, .inr (.inr (.inr (.inl o))))), rfl⟩
    · exact ⟨(m, .inl (ws, .inl (t, .inr (.inr (.inl o))))), rfl⟩
  · obtain ⟨m, _ | ws, name, c⟩ := v
    · exact ⟨(m, .inr (.inr (.inr (.inr (.inr (name, .inr c)))))), rfl⟩
    · exact ⟨(m, .inl (ws, .inr (.inr (.inr (.inr (name, .inr (.inl c))))))), rfl⟩
  · rcases v with ⟨m, ws, _ | t, name, i⟩ | ⟨m, t, name, i⟩
    · exact ⟨(m, .inl (ws, .inr (.inr (.inr (.inr (name, .inr (.inr i))))))), rfl⟩
    · exact ⟨(m, .inl (ws, .inl (t, .inr (.inr (.inr (name, .inr i)))))), rfl⟩
    · exact ⟨(m, .inr (.inl (t, .inr (.inr (.inr (name, .inr i)))))), rfl⟩

theorem exists_paramOf (v : Parts Derivation (rule .param)) : ∃ u, paramOf u = v := by
  rcases v with ⟨m, _ | f, _ | t, name⟩ | ⟨m, _ | t, formal⟩
  · exact ⟨(m, .inr (.inr (.inr name))), rfl⟩
  · exact ⟨(m, .inr (.inl (t, .inr name))), rfl⟩
  · exact ⟨(m, .inl (f, .inr name)), rfl⟩
  · exact ⟨(m, .inl (f, .inl (t, name))), rfl⟩
  · exact ⟨(m, .inr (.inr (.inl formal))), rfl⟩
  · exact ⟨(m, .inr (.inl (t, .inl formal))), rfl⟩

theorem exists_localOf (v : Parts Derivation (.alt (.nt .varDecl) (.nt .localFunction))) :
    ∃ u, localOf u = v := by
  rcases v with d | d <;> obtain ⟨v, rfl⟩ := Tree.exists_node d
  · rcases v with ⟨m, ws, _ | t, i⟩ | ⟨m, t, name, i⟩
    · exact ⟨(m, .inl (ws, .inr i)), rfl⟩
    · exact ⟨(m, .inl (ws, .inl (t, i))), rfl⟩
    · exact ⟨(m, .inr (t, name, .inr i)), rfl⟩
  · obtain ⟨m, t, name, f⟩ := v
    exact ⟨(m, .inr (t, name, .inl f)), rfl⟩

theorem exists_statementOf (v : Parts Derivation (rule .statement)) : ∃ u, statementOf u = v := by
  rcases v with d | d | d | d | d | d | d | d | d | v
  · exact ⟨.inl d, rfl⟩
  · exact ⟨.inr (.inr (.inr (.inr (.inr (.inr (.inr (.inr (.inr d)))))))), rfl⟩
  · exact ⟨.inr (.inl d), rfl⟩
  · exact ⟨.inr (.inr (.inl d)), rfl⟩
  · exact ⟨.inr (.inr (.inr (.inl d))), rfl⟩
  · exact ⟨.inr (.inr (.inr (.inr (.inl d)))), rfl⟩
  · exact ⟨.inr (.inr (.inr (.inr (.inr (.inl d))))), rfl⟩
  · exact ⟨.inr (.inr (.inr (.inr (.inr (.inr (.inl d)))))), rfl⟩
  · exact ⟨.inr (.inr (.inr (.inr (.inr (.inr (.inr (.inl d))))))), rfl⟩
  · obtain ⟨u, rfl⟩ := exists_localOf v
    exact ⟨.inr (.inr (.inr (.inr (.inr (.inr (.inr (.inr (.inl u)))))))), rfl⟩

theorem exists_typeOf (v : Parts Derivation (rule .type)) : ∃ u, typeOf u = v := by
  have hcases : ∀ v : Parts Derivation (rule .type), (∃ x, firstTypeOf x = v) ∨
      ∃ u w, functionTypeOf u w = v ∧ (yield u).length < (yield v).length := by
    rintro (name | ⟨_ | d, w⟩)
    · exact .inl ⟨.inl name, rfl⟩
    · exact .inl ⟨.inr w, rfl⟩
    · obtain ⟨u, rfl⟩ := Tree.exists_node d
      obtain ⟨word, rest⟩ := w
      refine .inr ⟨u, (word, rest), rfl, ?_⟩
      change _ < (yield u ++ word.1 :: yield rest).length
      simp
  obtain ⟨x, vs, heq⟩ := exists_foldl hcases v
  exact ⟨(x, vs), heq⟩

theorem exists_suffixedOf (v : Parts Derivation (rule .suffixed)) : ∃ u, suffixedOf u = v := by
  have hcases : ∀ v : Parts Derivation (rule .suffixed), (∃ x, Sum.inl x = v) ∨
      ∃ u w, suffixOf u w = v ∧ (yield u).length < (yield v).length := by
    rintro (d | ⟨d, dot, name⟩ | ⟨d, args⟩ | ⟨d, bracket, index⟩ | ⟨d, step⟩)
    · exact .inl ⟨d, rfl⟩
    all_goals obtain ⟨u, rfl⟩ := Tree.exists_node d
    · refine .inr ⟨u, .inl (dot, name), rfl, ?_⟩
      change _ < (yield u ++ dot.1 :: yield name).length
      simp
    · refine .inr ⟨u, .inr (.inl args), rfl, ?_⟩
      obtain ⟨⟨paren, rest⟩, rfl⟩ := Tree.exists_node args
      change _ < (yield u ++ paren.1 :: yield rest).length
      simp
    · refine .inr ⟨u, .inr (.inr (.inl (bracket, index))), rfl, ?_⟩
      change _ < (yield u ++ bracket.1 :: yield index).length
      simp
    · refine .inr ⟨u, .inr (.inr (.inr step)), rfl, ?_⟩
      change _ < (yield u ++ [step.1]).length
      simp
  obtain ⟨x, vs, heq⟩ := exists_foldl hcases v
  exact ⟨(x, vs), heq⟩

theorem exists_chainOf (l : Chain) (v : Parts Derivation (rule (.chain l))) :
    ∃ first vs, chainOf l first vs = v := by
  have hcases : ∀ v : Parts Derivation (rule (.chain l)), (∃ x, Sum.inl x = v) ∨
      ∃ u w, binaryOf l u w = v ∧ (yield u).length < (yield v).length := by
    rintro (d | ⟨d, op, right⟩)
    · exact .inl ⟨d, rfl⟩
    · obtain ⟨u, rfl⟩ := Tree.exists_node d
      refine .inr ⟨u, (op, right), rfl, ?_⟩
      change _ < (yield u ++ op.1 :: yield right).length
      simp
  exact exists_foldl hcases v

theorem exists_comparisonOf (c : Comparison) (v : Parts Derivation (rule (.comparison c))) :
    ∃ left u, comparisonOf c left u = v := by
  rcases v with left | ⟨left, v⟩
  · exact ⟨left, none, rfl⟩
  · exact ⟨left, some v, rfl⟩

/-- The operands and operators of a level, from the derivation of the whole. -/
theorem exists_node_chainOf (l : Chain) (d : Derivation (.chain l)) :
    ∃ first vs, Tree.node (.chain l) (chainOf l first vs) = d := by
  obtain ⟨v, rfl⟩ := Tree.exists_node d
  obtain ⟨first, vs, rfl⟩ := exists_chainOf l v
  exact ⟨first, vs, rfl⟩

@[inherit_doc exists_node_chainOf]
theorem exists_node_comparisonOf (c : Comparison) (d : Derivation (.comparison c)) :
    ∃ left u, Tree.node (.comparison c) (comparisonOf c left u) = d := by
  obtain ⟨v, rfl⟩ := Tree.exists_node d
  obtain ⟨left, u, rfl⟩ := exists_comparisonOf c v
  exact ⟨left, u, rfl⟩

theorem exists_operatorsOf (d : Derivation (.chain .or)) : ∃ first v, operatorsOf first v = d := by
  obtain ⟨d, or, rfl⟩ := exists_node_chainOf .or d
  obtain ⟨d, and, rfl⟩ := exists_node_chainOf .and d
  obtain ⟨d, equality, rfl⟩ := exists_node_comparisonOf .equality d
  obtain ⟨d, relation, rfl⟩ := exists_node_comparisonOf .relation d
  obtain ⟨d, bitOr, rfl⟩ := exists_node_chainOf .bitOr d
  obtain ⟨d, bitXor, rfl⟩ := exists_node_chainOf .bitXor d
  obtain ⟨d, bitAnd, rfl⟩ := exists_node_chainOf .bitAnd d
  obtain ⟨d, shift, rfl⟩ := exists_node_chainOf .shift d
  obtain ⟨d, sum, rfl⟩ := exists_node_chainOf .sum d
  obtain ⟨d, product, rfl⟩ := exists_node_chainOf .product d
  exact ⟨d, (product, sum, shift, bitAnd, bitXor, bitOr, relation, equality, and, or), rfl⟩

theorem exists_exprOf (v : Parts Derivation (rule .expr)) : ∃ u, exprOf u = v := by
  rcases v with d | d | d | d
  · exact ⟨.inl d, rfl⟩
  · exact ⟨.inr (.inl d), rfl⟩
  · obtain ⟨⟨e, v⟩, rfl⟩ := Tree.exists_node d
    exact ⟨.inr (.inr (.inr (e, .inl v))), rfl⟩
  · obtain ⟨first, tails, rfl⟩ := exists_operatorsOf d
    obtain ⟨e | v, rfl⟩ := Tree.exists_node first
    · exact ⟨.inr (.inr (.inr (e, .inr tails))), rfl⟩
    · exact ⟨.inr (.inr (.inl (v, tails))), rfl⟩

end Reading

open Reading in
theorem exists_reshape (s : Symbol) (v : Parts Derivation (rule s)) : ∃ u, reshape s u = v := by
  cases s with
  | topDecl => exact exists_topOf v
  | classMember => exact exists_memberOf v
  | type => exact exists_typeOf v
  | param => exact exists_paramOf v
  | statement => exact exists_statementOf v
  | expr => exact exists_exprOf v
  | chain l =>
    obtain ⟨first, vs, rfl⟩ := exists_chainOf l v
    exact ⟨(first, vs), rfl⟩
  | comparison c =>
    obtain ⟨left, u, rfl⟩ := exists_comparisonOf c v
    exact ⟨(left, u), rfl⟩
  | suffixed => exact exists_suffixedOf v
  | _ => exact ⟨v, rfl⟩

end CheckedThrows.Grammar
