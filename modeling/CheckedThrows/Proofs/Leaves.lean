import CheckedThrows.Proofs.Contributions
import CheckedThrows.Proofs.Shapes
import Mathlib.Algebra.Order.Ring.Nat

/-!
# Tokens that are expressions

A name or a whole number that stands as an expression is one token of the text.
`mentions t` counts where a token `t` stands in a tree in this way: no more often
than it occurs in the text, and for numbers just as often.  So a number of a tree
can be read if those among the tokens can.
-/

namespace CheckedThrows

open List

variable {info : NodeInfo} {r : Rhs}

namespace Node

def mentions (t : Token) (n : Node) : Nat :=
  (n.nodes.filterMap leaf?).count t

theorem mentions_eq (t : Token) (n : Node) :
    n.mentions t = n.leaf?.toList.count t + (n.children.map fun c => c.2.mentions t).sum := by
  have hbelow : ∀ cs : List (Slot × Node),
      ((cs.flatMap fun c => c.2.nodes).filterMap leaf?).count t =
        (cs.map fun c => c.2.mentions t).sum := by
    intro cs
    induction cs with
    | nil => rfl
    | cons c cs ih =>
      rw [flatMap_cons, filterMap_append, count_append, ih]
      rfl
  rw [mentions, nodes_eq, ← hbelow]
  cases hleaf : n.leaf? with
  | none => simp [hleaf, nodesBelow]
  | some leaf => simp [hleaf, nodesBelow, count_cons, Nat.add_comm]

theorem mentions_expr (t : Token) (e : Expr) :
    (Node.expr e).mentions t = (leaf? (.expr e)).toList.count t +
      ((exprChildren e).map fun c => c.2.mentions t).sum :=
  mentions_eq t (.expr e)

theorem mentions_call (t : Token) (info : NodeInfo) (callee : Expr) (args : List Expr)
    (creation : Option CreationWord) :
    (Node.expr (.call info callee args creation)).mentions t =
      (Node.expr callee).mentions t + (args.map fun e => (Node.expr e).mentions t).sum := by
  rw [mentions_expr]
  simp [leaf?, exprChildren, Function.comp_def]

theorem mentions_eq_zero_iff {t : Token} {n : Node} :
    n.mentions t = 0 ↔ n.All fun m => m.leaf? ≠ some t := by
  rw [mentions, count_eq_zero, mem_filterMap, all_iff_forall_mem_nodes]
  simp

theorem mentions_type (t : Token) (ref : TypeRef) : (Node.type ref).mentions t = 0 :=
  mentions_eq_zero_iff.mpr (all_type (fun _ => nofun) ref)

abbrev mentionsIn (t : Token) (ns : List Node) : Nat :=
  (ns.map fun n => n.mentions t).sum

theorem mentions_eq_add (t : Token) (n : Node) :
    n.mentions t =
      n.leaf?.toList.count t + (mentionsIn t n.codeChildren + mentionsIn t n.asideChildren) := by
  have hsplit := (filter_append_perm isCode (n.children.map Prod.snd)).map fun c => c.mentions t
  rw [mentions_eq, ← sum_append, ← map_append, codeChildren, asideChildren,
    hsplit.sum_nat, map_map]
  rfl

theorem MadeOf.mentions {code aside : List Node} {n : Node}
    (hmade : n.MadeOf info code aside) (t : Token) :
    n.mentions t = mentionsIn t code + mentionsIn t aside := by
  rw [mentions_eq_add, hmade.leaf, hmade.code, mentionsIn, mentionsIn, (hmade.aside.map _).sum_nat]
  simp

end Node

namespace Grammar

variable {t : Token}

open Node

attribute [local simp] mentionsIn Ast.code Ast.aside Parts.collect

theorem Contributes.mentions {code aside code' aside' : List Node}
    (hcontributes : Contributes info code aside code' aside') (t : Token) :
    mentionsIn t code' + mentionsIn t aside' = mentionsIn t code + mentionsIn t aside := by
  have hblock : ∀ place s, (Node.block ⟨place, [s]⟩).mentions t = (Node.stmt s).mentions t :=
    fun place s => (madeOf_block place s).mentions t
  cases hcontributes with
  | parts hcode haside => rw [hcode, haside]
  | code hmade | aside hmade => simp [hmade.mentions t]
  | wrapped hmade => simp [hblock, hmade.mentions t]
  | unwrapped hcode haside => simp [hcode, haside, hblock]

abbrev Parts.tokens (r : Rhs) (v : Parts Ast r) : List Token :=
  Parts.collect (fun t => [t]) (fun _ _ => []) r v

abbrev Parts.inner (e : Enclosure) (t : Token) (r : Rhs) (v : Parts Ast r) : Nat :=
  mentionsIn t (Parts.code e r v) + mentionsIn t (Parts.aside r v)

attribute [local simp] rule build Parts.tokens Parts.inner

def Parts.single? : (r : Rhs) → Parts Ast r → Option Token
  | .tok _, x => some x.1
  | .alt a _, .inl v => Parts.single? a v
  | .alt _ b, .inr v => Parts.single? b v
  | _, _ => none

theorem Tree.extent_eval_of_single? (d : Tree r)
    (hsingle : Parts.single? r d.eval.2 = Option.some t) : d.eval.1 = Option.some t.extent := by
  induction d with
  | tok x isKind =>
    obtain rfl : x = t := Option.some.inj hsingle
    rfl
  | inl x ih => exact ih hsingle
  | inr y ih => exact ih hsingle
  | nt | seq | none | some | nil | cons => simp [Parts.single?] at hsingle

/-- Rules other than those of primary expressions add no mention to those of
their parts. -/
theorem mentions_build (t : Token) (s : Symbol) (hs : s ≠ .primary) (info : NodeInfo)
    (v : Parts Ast (rule s)) (e : Enclosure) :
    ∃ e', mentionsIn t (Ast.code e s (build s info v)) +
      mentionsIn t (Ast.aside s (build s info v)) = Parts.inner e' t (rule s) v := by
  by_cases htoken : s ∈ tokenRules
  · refine ⟨.text, ?_⟩
    simp only [tokenRules, mem_cons, not_mem_nil, or_false] at htoken
    rcases htoken with rfl | rfl | rfl | rfl
    · obtain ⟨_, name⟩ := v
      simp [mentions_type]
    · obtain ⟨_, first, rest⟩ := v
      simp [Rhs.commaSeparated, mentions_type, Function.comp_def, flatMap_nothing]
    · obtain ⟨word, _⟩ := v
      simp [(madeOf_rethrow info _).mentions t, mentions_expr, exprChildren, leaf?]
    · exact absurd rfl hs
  · obtain ⟨e', hcontributes⟩ := contributes_build s info v e htoken
    exact ⟨e', hcontributes.mentions t⟩

def Rhs.kinds : Rhs → List TokenKind
  | .tok kinds => kinds
  | .nt _ => []
  | .seq a b | .alt a b => a.kinds ++ b.kinds
  | .opt a | .star a => a.kinds

theorem kind_mem_kinds {v : Parts Ast r} (ht : t ∈ Parts.tokens r v) :
    t.kind ∈ r.kinds := by
  induction r with
  | tok kinds =>
    rw [mem_singleton.mp ht]
    exact v.2
  | nt s => cases ht
  | seq a b iha ihb =>
    refine mem_append.mpr ((mem_append.mp ht).imp ?_ ?_)
    · exact iha
    · exact ihb
  | alt a b iha ihb =>
    rcases v with v | v
    · exact mem_append_left _ (iha ht)
    · exact mem_append_right _ (ihb ht)
  | opt a ih | star a ih =>
    obtain ⟨x, _, hx⟩ := mem_flatMap.mp ht
    exact ih hx

abbrev Parts.occurrences (e : Enclosure) (t : Token) (r : Rhs) (v : Parts Ast r) : Nat :=
  (Parts.tokens r v).count t + Parts.inner e t r v

attribute [local simp] Parts.occurrences

theorem occurrences_eq_inner (e : Enclosure) (r : Rhs) (hkind : t.kind ∉ r.kinds)
    (v : Parts Ast r) : Parts.occurrences e t r v = Parts.inner e t r v := by
  rw [Parts.occurrences, count_eq_zero.mpr fun ht => hkind (kind_mem_kinds ht), Nat.zero_add]

theorem intLiteral_notMem_kinds {s : Symbol} (hs : s ≠ .primary) :
    TokenKind.intLiteral ∉ (rule s).kinds := by
  cases s with
  | primary => exact absurd rfl hs
  | chain l => cases l <;> decide
  | comparison c => cases c <;> decide
  | _ => decide

theorem Token.mk_eq {x : Token} {kind : TokenKind} (hkind : x.kind = kind) :
    (⟨kind, x.text, x.extent⟩ : Token) = x := by
  subst hkind
  rfl

theorem mentions_creationCallee {owner : Token} (howner : owner.kind = .name)
    (name : Option Token) :
    (Node.expr (creationCallee owner name)).mentions t = [owner].count t := by
  cases name <;>
    simp [creationCallee, mentions_expr, exprChildren, leaf?, Token.mk_eq howner]

abbrev creationRule : Rhs :=
  .seq (.tok creationKinds) (.seq (.word .name)
    (.seq (.opt (.seq (.word .dot) (.word .name))) (.nt .args)))

theorem mentions_creation (info : NodeInfo) (v : Parts Ast creationRule) :
    (Node.expr (.call info (creationCallee v.2.1.1 (v.2.2.1.map fun n => n.2.1)) v.2.2.2
      (some (creationWord v.1.1)))).mentions t =
      [v.2.1.1].count t + Parts.inner .text t creationRule v := by
  obtain ⟨word, owner, name, args⟩ := v
  simp [mentions_call, mentions_creationCallee (mem_singleton.mp owner.2), flatMap_nothing,
    Function.comp_def]

theorem mentions_primary (ht : t.kind = .name ∨ t.kind = .intLiteral)
    (info : NodeInfo) (v : Parts Ast (rule .primary))
    (hinfo : ∀ x, Parts.single? (rule .primary) v = some x → info.extent = x.extent) :
    (Node.expr (build .primary info v)).mentions t ≤ Parts.occurrences .text t (rule .primary) v ∧
      (t.kind = .intLiteral →
        (Node.expr (build .primary info v)).mentions t =
          Parts.occurrences .text t (rule .primary) v) := by
  have of_eq : ∀ {a b : Nat}, a = b → a ≤ b ∧ (t.kind = .intLiteral → a = b) :=
    fun h => ⟨h.le, fun _ => h⟩
  have hother : ∀ {r : Rhs} (w : Parts Ast r), .name ∉ r.kinds ∧ .intLiteral ∉ r.kinds →
      Parts.occurrences .text t r w = Parts.inner .text t r w := by
    intro r w hkinds
    refine occurrences_eq_inner .text r ?_ w
    rcases ht with ht | ht
    · exact ht ▸ hkinds.1
    · exact ht ▸ hkinds.2
  rcases v with x | x | x | x | x | x | x | x | x | x | x | x
  case inl =>
    have hleaf : (⟨.name, x.1.text, info.extent⟩ : Token) = x.1 :=
      hinfo x.1 rfl ▸ Token.mk_eq (mem_singleton.mp x.2)
    apply of_eq
    simp [Image.primaryOf, mentions_expr, exprChildren, leaf?, hleaf]
  case inr.inr.inl =>
    have hleaf : (⟨.intLiteral, x.1.text, info.extent⟩ : Token) = x.1 :=
      hinfo x.1 rfl ▸ Token.mk_eq (mem_singleton.mp x.2)
    apply of_eq
    simp [Image.primaryOf, mentions_expr, exprChildren, leaf?, hleaf]
  case inr.inr.inr.inr.inr.inr.inr.inr.inl =>
    exact of_eq (((madeOf_list info x).mentions t).trans (hother x (by decide)).symm)
  case inr.inr.inr.inr.inr.inr.inr.inr.inr.inr.inl =>
    have hcreation := mentions_creation (t := t) info x
    have howner : [x.2.1.1].Sublist (Parts.tokens creationRule x) := by simp
    refine ⟨hcreation.trans_le (Nat.add_le_add_right (howner.count_le t) _), fun hint => ?_⟩
    have hnone : (Parts.tokens creationRule x).count t = 0 :=
      count_eq_zero.mpr fun hmem => absurd (hint ▸ kind_mem_kinds hmem) (by decide)
    have hzero : [x.2.1.1].count t = 0 := Nat.le_zero.mp (hnone ▸ howner.count_le t)
    exact hcreation.trans (congrArg (· + _) (hzero.trans hnone.symm))
  case inr.inr.inr.inr.inr.inr.inr.inr.inr.inr.inr =>
    refine of_eq (Eq.trans ?_ (hother x (by decide)).symm)
    simp [Image.primaryOf]
  all_goals
    refine of_eq (Eq.trans ?_ (hother x (by decide)).symm)
    simp [Image.primaryOf, mentions_expr, exprChildren, leaf?]

/-- A token is mentioned in what a tree contributes at most as often as it occurs
among the tokens of the tree, and if it is a number, just as often. -/
theorem Tree.mentions_eval (ht : t.kind = .name ∨ t.kind = .intLiteral)
    (d : Tree r) (e : Enclosure) :
    Parts.occurrences e t r d.eval.2 ≤ d.yield.count t ∧
      (t.kind = .intLiteral → Parts.occurrences e t r d.eval.2 = d.yield.count t) := by
  induction d generalizing e with
  | tok x isKind => exact ⟨Nat.le_refl _, fun _ => rfl⟩
  | @nt s body ih =>
    by_cases hs : s = .primary
    · subst hs
      obtain ⟨hle, heq⟩ := mentions_primary ht (infoOf body.eval.1) body.eval.2 fun x hx => by
        rw [body.extent_eval_of_single? hx]
        rfl
      have hself : Parts.occurrences e t (.nt .primary) (Tree.nt body).eval.2 =
          (Node.expr (build .primary (infoOf body.eval.1) body.eval.2)).mentions t := by
        simp [eval]
      rw [hself]
      exact ⟨hle.trans (ih .text).1, fun hint => (heq hint).trans ((ih .text).2 hint)⟩
    · obtain ⟨e', hbuild⟩ := mentions_build t s hs (infoOf body.eval.1) body.eval.2 e
      have hself : Parts.occurrences e t (.nt s) (Tree.nt body).eval.2 =
          Parts.inner e' t (rule s) body.eval.2 := (Nat.zero_add _).trans hbuild
      rw [hself]
      refine ⟨(Nat.le_add_left _ _).trans (ih e').1, fun hint => ?_⟩
      have hsame := occurrences_eq_inner e' _ (hint ▸ intLiteral_notMem_kinds hs) body.eval.2
      exact hsame.symm.trans ((ih e').2 hint)
  | seq x y ihx ihy | cons x y ihx ihy =>
    obtain ⟨hx, hx'⟩ := ihx e
    obtain ⟨hy, hy'⟩ := ihy e
    simp only [Parts.occurrences, Parts.inner, Parts.tokens, Parts.code, Parts.aside, mentionsIn,
      Parts.collect, eval, yield, count_append, map_append, sum_append,
      flatMap_cons] at hx hx' hy hy' ⊢
    refine ⟨by omega, fun hint => ?_⟩
    have hx := hx' hint
    have hy := hy' hint
    omega
  | inl x ih | inr x ih => exact ih e
  | none | nil => simp [Parts.collect, eval, yield]
  | some x ih => simpa [Parts.collect, eval, yield] using ih e

theorem mentions_image (ht : t.kind = .name ∨ t.kind = .intLiteral) (uri : String)
    (comments : List Comment) (d : Derivation .unit) :
    (Node.unit (image uri comments d)).mentions t ≤ d.yield.count t ∧
      (t.kind = .intLiteral → (Node.unit (image uri comments d)).mentions t = d.yield.count t) := by
  have hunit : (Node.unit (image uri comments d)).mentions t =
      Parts.occurrences .text t (.nt .unit) d.eval.2 := by
    rw [mentions_eq]
    simp [leaf?, children, image, Function.comp_def]
  rw [hunit]
  exact d.mentions_eval ht .text

section

variable {uri : String} {comments : List Comment} {d : Derivation .unit}

theorem exists_token_of_literal {spelling : String}
    (hmem : .expr (.literal info (.int spelling)) ∈ (Node.unit (image uri comments d)).nodes) :
    ∃ t ∈ d.yield, t.kind = .intLiteral ∧ t.text = spelling := by
  refine ⟨⟨.intLiteral, spelling, info.extent⟩, ?_, rfl, rfl⟩
  have hmentioned : 0 < (Node.unit (image uri comments d)).mentions
      ⟨.intLiteral, spelling, info.extent⟩ :=
    count_pos_iff.mpr (mem_filterMap.mpr ⟨_, hmem, rfl⟩)
  exact count_pos_iff.mp
    (Nat.lt_of_lt_of_le hmentioned (mentions_image (.inr rfl) uri comments d).1)

theorem exists_literal_of_token (uri : String) (comments : List Comment) {t : Token}
    (ht : t ∈ d.yield) (hkind : t.kind = .intLiteral) :
    ∃ info, .expr (.literal info (.int t.text)) ∈ (Node.unit (image uri comments d)).nodes := by
  have hmentioned : 0 < (Node.unit (image uri comments d)).mentions t := by
    rw [(mentions_image (.inr hkind) uri comments d).2 hkind]
    exact count_pos_iff.mpr ht
  obtain ⟨n, hn, hleaf⟩ := mem_filterMap.mp (count_pos_iff.mp hmentioned)
  unfold leaf? at hleaf
  split at hleaf
  next =>
    cases hleaf
    cases hkind
  next info spelling =>
    cases hleaf
    exact ⟨info, hn⟩
  next => cases hleaf

def ReadableToken (t : Token) : Prop :=
  t.kind = .intLiteral → (Literal.int t.text).excessDigits? = none

theorem readable_image (uri : String) (comments : List Comment) (d : Derivation .unit)
    (hyield : ∀ t ∈ d.yield, ReadableToken t) :
    (Node.unit (image uri comments d)).All Readable := by
  rw [all_iff_forall_mem_nodes]
  intro n hn
  unfold Readable
  split
  next info value =>
    cases value with
    | int spelling =>
      obtain ⟨t, ht, hkind, rfl⟩ := exists_token_of_literal hn
      exact hyield t ht hkind
    | _ => rfl
  next => trivial

end

end Grammar

end CheckedThrows
