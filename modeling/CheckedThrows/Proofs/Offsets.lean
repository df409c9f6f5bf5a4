import CheckedThrows.Proofs.Extents

/-!
# Trees without offsets

Where a token stands makes no difference to the grammar.  If the tokens of two
texts differ in their offsets only, then both parse or neither does, and so do
their trees differ.  A tree in which no offset is kept has all the lines and
columns of its text.
-/

namespace CheckedThrows

open List

variable {r : Rhs}

def Position.withoutOffset (p : Position) : Position :=
  { p with offset := 0 }

def Extent.withoutOffsets (e : Extent) : Extent :=
  ⟨e.start.withoutOffset, e.stop.withoutOffset⟩

def Token.withoutOffsets (t : Token) : Token :=
  { t with extent := t.extent.withoutOffsets }

def Relabeling.withoutOffsets : Relabeling :=
  ⟨id, Extent.withoutOffsets, fun _ => []⟩

namespace Grammar

/-! ## Derivations -/

namespace Tree

def withoutOffsets : {r : Rhs} → Tree r → Tree r
  | _, .tok t isKind => .tok t.withoutOffsets isKind
  | _, .nt body => .nt body.withoutOffsets
  | _, .seq x y => .seq x.withoutOffsets y.withoutOffsets
  | _, .inl x => .inl x.withoutOffsets
  | _, .inr y => .inr y.withoutOffsets
  | _, .none => .none
  | _, .some x => .some x.withoutOffsets
  | _, .nil => .nil
  | _, .cons x xs => .cons x.withoutOffsets xs.withoutOffsets

theorem yield_withoutOffsets (d : Tree r) :
    d.withoutOffsets.yield = d.yield.map Token.withoutOffsets := by
  induction d with
  | tok | none | nil => rfl
  | nt _ ih | inl _ ih | inr _ ih | some _ ih => exact ih
  | seq x y ihx ihy | cons x y ihx ihy =>
    simp [withoutOffsets, yield, ihx, ihy]

theorem exists_yield_eq (d : Tree r) {w : List Token}
    (hkinds : w.map Token.kind = d.yield.map Token.kind) : ∃ e : Tree r, e.yield = w := by
  induction d generalizing w with
  | tok t isKind =>
    obtain ⟨t', rfl, hkind⟩ : ∃ t', w = [t'] ∧ t'.kind = t.kind := by
      simpa [yield, map_eq_singleton_iff] using hkinds
    exact ⟨.tok t' (hkind ▸ isKind), rfl⟩
  | nt body ih =>
    obtain ⟨e, he⟩ := ih hkinds
    exact ⟨.nt e, he⟩
  | seq x y ihx ihy =>
    rw [yield, map_append] at hkinds
    obtain ⟨u, v, rfl, hu, hv⟩ := map_eq_append_iff.mp hkinds
    obtain ⟨e, he⟩ := ihx hu
    obtain ⟨f, hf⟩ := ihy hv
    exact ⟨.seq e f, by rw [yield, he, hf]⟩
  | inl x ih =>
    obtain ⟨e, he⟩ := ih hkinds
    exact ⟨.inl e, he⟩
  | inr y ih =>
    obtain ⟨e, he⟩ := ih hkinds
    exact ⟨.inr e, he⟩
  | none => exact ⟨.none, (map_eq_nil_iff.mp hkinds).symm⟩
  | some x ih =>
    obtain ⟨e, he⟩ := ih hkinds
    exact ⟨.some e, he⟩
  | nil => exact ⟨.nil, (map_eq_nil_iff.mp hkinds).symm⟩
  | cons x xs ihx ihxs =>
    rw [yield, map_append] at hkinds
    obtain ⟨u, v, rfl, hu, hv⟩ := map_eq_append_iff.mp hkinds
    obtain ⟨e, he⟩ := ihx hu
    obtain ⟨f, hf⟩ := ihxs hv
    exact ⟨.cons e f, by rw [yield, he, hf]⟩

end Tree

/-! ## Syntax trees -/

def Ast.withoutOffsets : (s : Symbol) → Ast s → Ast s
  | .unit, x =>
    (x.1.map (Directive.relabel .withoutOffsets), x.2.map (Declaration.relabel .withoutOffsets))
  | .directive, d => d.relabel .withoutOffsets
  | .topDecl, d => d.relabel .withoutOffsets
  | .metadata, ms => ms.map (Metadatum.relabel .withoutOffsets)
  | .metadatum, m => m.relabel .withoutOffsets
  | .modifiers, words => words
  | .type, t => t.relabel .withoutOffsets
  | .classDecl, d => d.relabel .withoutOffsets
  | .superclass, t => t.relabel .withoutOffsets
  | .interfaces, ts => ts.map (TypeName.relabel .withoutOffsets)
  | .classMember, f => fun owner => (f owner).relabel .withoutOffsets
  | .varDecl, f => fun e => (f e).relabel .withoutOffsets
  | .functionDecl, f => fun e => (f e).relabel .withoutOffsets
  | .getterDecl, d | .setterDecl, d | .operatorDecl, d | .namedConstructor, d
  | .localFunction, d => d.relabel .withoutOffsets
  | .operatorName, t => Token.withoutOffsets t
  | .params, ps => ps.map (Param.relabel .withoutOffsets)
  | .param, p => p.relabel .withoutOffsets
  | .fnBody, b => b.map (Body.relabel .withoutOffsets)
  | .block, b | .finallyClause, b => b.relabel .withoutOffsets
  | .statement, s | .exprStmt, s | .returnStmt, s | .whileStmt, s | .rethrowStmt, s
  | .breakStmt, s | .continueStmt, s | .tryStmt, s => s.relabel .withoutOffsets
  | .ifStmt, x => (x.1.relabel .withoutOffsets, x.2.relabel .withoutOffsets)
  | .catchClause, c => c.relabel .withoutOffsets
  | .catchBinders, names => names
  | .varInit, e | .expr, e | .lambda, e | .throwExpr, e | .assignment, e | .chain _, e
  | .comparison _, e | .unary, e | .suffixed, e | .primary, e => e.relabel .withoutOffsets
  | .args, es => es.map (Expr.relabel .withoutOffsets)

def Parts.withoutOffsets : (r : Rhs) → Parts Ast r → Parts Ast r
  | .tok _, t => ⟨t.1.withoutOffsets, t.2⟩
  | .nt s, x => Ast.withoutOffsets s x
  | .seq a b, v => (Parts.withoutOffsets a v.1, Parts.withoutOffsets b v.2)
  | .alt a _, .inl v => .inl (Parts.withoutOffsets a v)
  | .alt _ b, .inr v => .inr (Parts.withoutOffsets b v)
  | .opt a, v => Option.map (Parts.withoutOffsets a) v
  | .star a, vs => List.map (Parts.withoutOffsets a) vs

theorem commaSeparated_withoutOffsets (v : Parts Ast (Rhs.commaSeparated r)) :
    Image.commaSeparated (Parts.withoutOffsets (Rhs.commaSeparated r) v) =
      (Image.commaSeparated v).map (Parts.withoutOffsets r) := by
  obtain ⟨first, rest⟩ := v
  change _ :: List.map Prod.snd (List.map _ rest) = _ :: List.map _ (List.map Prod.snd rest)
  rw [map_map, map_map]
  rfl

theorem list_withoutOffsets (v : Option (Parts Ast (Rhs.commaSeparated r))) :
    ((v.map (Parts.withoutOffsets (Rhs.commaSeparated r))).map Image.commaSeparated).getD [] =
      ((v.map Image.commaSeparated).getD []).map (Parts.withoutOffsets r) := by
  cases v with
  | none => rfl
  | some v => exact commaSeparated_withoutOffsets v

theorem operatorName_withoutOffsets (t : Token) (ps : List Param) :
    operatorName t.withoutOffsets (ps.map (Param.relabel .withoutOffsets)) = operatorName t ps := by
  rw [operatorName, operatorName, isEmpty_map]
  rfl

theorem unaryExpr_withoutOffsets (t : Token) (info : NodeInfo) (operand : Expr) :
    unaryExpr t.withoutOffsets (info.relabel .withoutOffsets) (operand.relabel .withoutOffsets) =
      (unaryExpr t info operand).relabel .withoutOffsets := by
  have hkind : t.withoutOffsets.kind = t.kind := rfl
  have hstep : stepOp t.withoutOffsets = stepOp t := rfl
  unfold unaryExpr
  rw [hkind, hstep]
  split <;> simp_all [Expr.relabel]

theorem getD_map {α β : Type} (f : α → β) (o : Option (List α)) :
    (o.map fun xs => xs.map f).getD [] = (o.getD []).map f := by
  cases o <;> rfl

theorem getD_map_list {α β γ : Type} (f : β → γ) (g : α → List β) (o : Option α) :
    (o.map fun x => (g x).map f).getD [] = ((o.map g).getD []).map f := by
  cases o <;> rfl

@[simp] theorem kind_withoutOffsets (t : Token) : t.withoutOffsets.kind = t.kind := rfl

@[simp] theorem text_withoutOffsets (t : Token) : t.withoutOffsets.text = t.text := rfl

theorem className_withoutOffsets (t : Token) :
    className t.withoutOffsets = (className t).relabel .withoutOffsets := rfl

attribute [local simp] rule build Ast.withoutOffsets Parts.withoutOffsets Rhs.plus getD_map
  className_withoutOffsets commaSeparated_withoutOffsets operatorName_withoutOffsets getD_map_list
  TypeRef.relabel Expr.relabel Stmt.relabel Body.relabel
  ClassDecl.relabel Image.typeOf Image.classDeclOf Image.varDeclOf Image.functionDeclOf
  Image.getterDeclOf Image.setterDeclOf Image.operatorDeclOf Image.namedConstructorOf
  Image.localFunctionOf Image.paramOf Image.catchClauseOf Image.lambdaOf Image.suffixedOf
  Function.comp_def

theorem build_withoutOffsets (s : Symbol) (info : NodeInfo) (v : Parts Ast (rule s)) :
    build s (info.relabel .withoutOffsets) (Parts.withoutOffsets (rule s) v) =
      Ast.withoutOffsets s (build s info v) := by
  cases s with
  | unit | metadata | superclass | varInit | operatorName | exprStmt | whileStmt | rethrowStmt
  | breakStmt | continueStmt | finallyClause | throwExpr | assignment => rfl
  | directive => rcases v with v | v <;> rfl
  | topDecl => rcases v with v | v | v | v | v <;> rfl
  | classMember => rcases v with v | v | v | v | v | v <;> rfl
  | fnBody => rcases v with v | v | v <;> rfl
  | statement => rcases v with b | s | s | s | s | s | s | s | s | v | f <;> rfl
  | expr => rcases v with e | e | e | e <;> rfl
  | chain l => rcases v with e | ⟨left, op, right⟩ <;> cases l <;> rfl
  | comparison c => rcases v with e | ⟨left, op, right⟩ <;> cases c <;> rfl
  | ifStmt => obtain ⟨_, _, cond, _, thenBlock, _ | ⟨_, elseBlock | nested⟩⟩ := v <;> rfl
  | metadatum =>
    obtain ⟨_, name, args⟩ := v
    simp [Metadatum.relabel_eq]
  | modifiers =>
    obtain ⟨first, rest⟩ := v
    simp
  | type =>
    rcases v with ⟨name, nullable⟩ | ⟨returns, _, _, params, _, nullable⟩
    · cases nullable <;> rfl
    · simp
  | classDecl =>
    obtain ⟨metadata, isAbstract, _, name, superclass, interfaces, _, members, _⟩ := v
    simp
  | interfaces =>
    obtain ⟨_, names⟩ := v
    simp
  | varDecl =>
    rcases v with ⟨metadata, words, type, name, init, _⟩ | ⟨metadata, type, name, init, _⟩ <;>
      simp [VarDecl.relabel_eq]
  | functionDecl =>
    obtain ⟨metadata, words, type, name, params, body⟩ := v
    simp [FunctionDecl.relabel_eq]
  | getterDecl =>
    obtain ⟨metadata, words, type, _, name, body⟩ := v
    simp [FunctionDecl.relabel_eq]
  | setterDecl | operatorDecl =>
    obtain ⟨metadata, words, type, _, name, params, body⟩ := v
    simp [FunctionDecl.relabel_eq]
  | namedConstructor =>
    obtain ⟨metadata, words, owner, _, name, params, body⟩ := v
    simp only [Ast.withoutOffsets, FunctionDecl.relabel_eq]
    cases metadata <;> cases words <;> rfl
  | localFunction =>
    obtain ⟨metadata, type, name, params, body⟩ := v
    simp [FunctionDecl.relabel_eq]
  | params | args => exact list_withoutOffsets v.2.1
  | block | returnStmt =>
    obtain ⟨_, items, _⟩ := v
    simp [Block.relabel_eq]
  | param =>
    rcases v with ⟨metadata, _, type, name⟩ | ⟨metadata, type, _, _, name⟩ <;>
      simp [Param.relabel_eq]
  | tryStmt =>
    obtain ⟨_, body, catches, finallyBlock⟩ := v
    simp
  | catchClause =>
    rcases v with ⟨_, type, names, body⟩ | ⟨names, body⟩ <;> simp [CatchClause.relabel_eq]
  | catchBinders =>
    obtain ⟨_, _, first, second, _⟩ := v
    simp
  | lambda =>
    obtain ⟨_, params, _, body | ⟨_, value⟩⟩ := v <;> simp
  | unary =>
    rcases v with e | ⟨op, operand⟩
    · rfl
    · exact unaryExpr_withoutOffsets op.1 info operand
  | suffixed =>
    rcases v with e | ⟨target, _, name⟩ | ⟨callee, args⟩ | ⟨target, _, index, _⟩ | ⟨operand, op⟩
    case inr.inr.inl => simp
    all_goals rfl
  | primary =>
    rcases v with t | t | t | t | t | t | t | t | ⟨_, items, _⟩ | t |
      ⟨word, owner, name, args⟩ | ⟨_, e, _⟩
    case inr.inr.inr.inr.inr.inr.inr.inr.inl => simp [Image.primaryOf]
    case inr.inr.inr.inr.inr.inr.inr.inr.inr.inr.inl =>
      change Expr.call _ _ _ _ = Expr.call _ _ _ _
      rw [relabelExprs_eq_map]
      cases name <;> rfl
    all_goals rfl

theorem joinExtents_withoutOffsets (e f : Option Extent) :
    joinExtents (e.map Extent.withoutOffsets) (f.map Extent.withoutOffsets) =
      (joinExtents e f).map Extent.withoutOffsets := by
  cases e <;> cases f <;> rfl

theorem infoOf_withoutOffsets (e : Option Extent) :
    infoOf (e.map Extent.withoutOffsets) = (infoOf e).relabel .withoutOffsets := by
  cases e <;> rfl

theorem Tree.eval_withoutOffsets (d : Tree r) :
    d.withoutOffsets.eval =
      (d.eval.1.map Extent.withoutOffsets, Parts.withoutOffsets r d.eval.2) := by
  induction d with
  | tok | none | nil => rfl
  | nt body ih =>
    change (body.withoutOffsets.eval.1,
      build _ (infoOf body.withoutOffsets.eval.1) body.withoutOffsets.eval.2) = _
    rw [ih, infoOf_withoutOffsets, build_withoutOffsets]
    rfl
  | seq x y ihx ihy =>
    change (joinExtents x.withoutOffsets.eval.1 y.withoutOffsets.eval.1,
      (x.withoutOffsets.eval.2, y.withoutOffsets.eval.2)) = _
    rw [ihx, ihy, joinExtents_withoutOffsets]
    rfl
  | cons x xs ihx ihxs =>
    change (joinExtents x.withoutOffsets.eval.1 xs.withoutOffsets.eval.1,
      List.cons x.withoutOffsets.eval.2 xs.withoutOffsets.eval.2) = _
    rw [ihx, ihxs, joinExtents_withoutOffsets]
    rfl
  | inl x ih =>
    change (x.withoutOffsets.eval.1, Sum.inl x.withoutOffsets.eval.2) = _
    rw [ih]
    rfl
  | inr y ih =>
    change (y.withoutOffsets.eval.1, Sum.inr y.withoutOffsets.eval.2) = _
    rw [ih]
    rfl
  | some x ih =>
    change (x.withoutOffsets.eval.1, Option.some x.withoutOffsets.eval.2) = _
    rw [ih]
    rfl

theorem image_withoutOffsets (uri : String) (comments : List Comment) (d : Derivation .unit) :
    (image uri comments d).relabel .withoutOffsets = image uri [] d.withoutOffsets := by
  unfold image
  rw [d.eval_withoutOffsets]
  rfl

end Grammar

/-! ## Texts -/

namespace Token

theorem afterClosing_withoutOffsets (depth : Nat) (ts : List Token) :
    afterClosing depth (ts.map withoutOffsets) =
      (afterClosing depth ts).map (List.map withoutOffsets) := by
  fun_induction afterClosing depth ts with
  | case1 => rfl
  | case2 depth t ts hkind ih => simp [afterClosing, withoutOffsets, hkind, ih]
  | case3 t ts hkind => simp [afterClosing, withoutOffsets, hkind]
  | case4 t ts inner hkind ih => simp [afterClosing, withoutOffsets, hkind, ih]
  | case5 depth t ts hopen hzero hinner ih =>
    rw [map_cons]
    refine Eq.trans ?_ ih
    conv_lhs => unfold afterClosing
    split
    next hkind => exact absurd hkind hopen
    next hkind => exact absurd rfl (hzero hkind)
    next hkind => exact absurd rfl (hinner _ hkind)
    next => rfl

theorem startsBody_withoutOffsets (ts : List Token) :
    startsBody (ts.map withoutOffsets) = startsBody ts := by
  cases ts <;> rfl

theorem markedKind_withoutOffsets (before : Option TokenKind) (t : Token) (after : List Token) :
    markedKind before t.withoutOffsets (after.map withoutOffsets) = markedKind before t after := by
  have hlambda : opensLambda before (after.map withoutOffsets) = opensLambda before after := by
    rw [opensLambda, opensLambda, afterClosing_withoutOffsets, Option.any_map]
    simp only [startsBody_withoutOffsets]
  have hcreation : startsCreation before (after.map withoutOffsets) =
      startsCreation before after := by
    rw [startsCreation, startsCreation, map_map]
    rfl
  rw [markedKind, markedKind, hlambda, hcreation]
  rfl

theorem mark_withoutOffsets (ts : List Token) :
    mark (ts.map withoutOffsets) = (mark ts).map withoutOffsets := by
  have hafter : ∀ before, markAfter before (ts.map withoutOffsets) =
      (markAfter before ts).map withoutOffsets := by
    induction ts with
    | nil => exact fun _ => rfl
    | cons t ts ih =>
      intro before
      rw [map_cons, markAfter, markedKind_withoutOffsets]
      exact congrArg (List.cons _) (ih (some t.kind))
  exact hafter none

end Token

theorem Node.all_readable_relabel (ρ : Relabeling) (n : Node) :
    (n.relabel ρ).All Readable ↔ n.All Readable := by
  have hnode : ∀ m : Node, (m.relabel ρ).Readable ↔ m.Readable := by
    intro m
    cases m with
    | expr e => cases e <;> simp [Readable, Expr.relabel]
    | _ => rfl
  rw [all_iff_forall_mem_nodes, all_iff_forall_mem_nodes, nodes_relabel, forall_mem_map]
  simp only [hnode]

theorem CompilationUnit.fault?_relabel_eq_none_iff (ρ : Relabeling) (u : CompilationUnit) :
    (u.relabel ρ).fault? = none ↔ u.fault? = none := by
  have hshape := Node.all_wellShaped_relabel ρ (.unit u)
  have hread := Node.all_readable_relabel ρ (.unit u)
  rw [Node.relabel_unit] at hshape hread
  rw [fault?_eq_none_iff, fault?_eq_none_iff, Node.faultless_iff, Node.faultless_iff, hshape, hread]

theorem CompilationUnit.number_withoutOffsets (u : CompilationUnit) (next : NodeId) :
    (u.relabel .withoutOffsets).number next =
      ((u.number next).1.relabel .withoutOffsets, (u.number next).2) :=
  number_relabel (ρ := .withoutOffsets) (δ := 0) u fun _ _ _ => rfl

namespace Source

variable {s s' : Source} {w w' : List Token}

/-- A text has the tree of every text whose tokens differ from its own in their
offsets only, offsets apart. -/
theorem parse_of_tokens (huri : s'.uri = s.uri) (hlex : s.tokens = .ok w)
    (hlex' : s'.tokens = .ok w')
    (hplaces : w'.map Token.withoutOffsets = w.map Token.withoutOffsets) {u : CompilationUnit}
    (hparse : s.parse = .ok (.ok u)) :
    ∃ u', s'.parse = .ok (.ok u') ∧ u'.relabel .withoutOffsets = u.relabel .withoutOffsets := by
  obtain ⟨htree, hfault⟩ := parse_eq_ok_iff.mp hparse
  obtain ⟨d, hd, rfl⟩ := (tree_eq_ok_iff hlex).mp htree
  have hkinds : w'.map Token.kind = d.yield.map Token.kind := by
    have hmap := congrArg (List.map Token.kind) hplaces
    rw [map_map, map_map] at hmap
    rw [hd]
    exact hmap
  obtain ⟨d', hd'⟩ := d.exists_yield_eq hkinds
  -- Without offsets both derivations have the same tokens, so they are the same.
  have hsame : d'.withoutOffsets = d.withoutOffsets := by
    apply Grammar.Parser.eq_of_yield_eq
    rw [Grammar.Tree.yield_withoutOffsets, Grammar.Tree.yield_withoutOffsets, hd', hd, hplaces]
  have himage : (Grammar.image s'.uri s'.comments d').relabel .withoutOffsets =
      (Grammar.image s.uri s.comments d).relabel .withoutOffsets := by
    rw [Grammar.image_withoutOffsets, Grammar.image_withoutOffsets, hsame, huri]
  refine ⟨Grammar.image s'.uri s'.comments d', parse_eq_ok_iff.mpr ⟨?_, ?_⟩, himage⟩
  · exact (tree_eq_ok_iff hlex').mpr ⟨d', hd', rfl⟩
  · rw [← CompilationUnit.fault?_relabel_eq_none_iff .withoutOffsets, himage,
      CompilationUnit.fault?_relabel_eq_none_iff]
    exact hfault

theorem parseFrom_of_tokens (huri : s'.uri = s.uri) (hlex : s.tokens = .ok w)
    (hlex' : s'.tokens = .ok w')
    (hplaces : w'.map Token.withoutOffsets = w.map Token.withoutOffsets) {u : CompilationUnit}
    {next after : NodeId} (hparse : s.parseFrom next = .ok (.ok u, after)) :
    ∃ u', s'.parseFrom next = .ok (.ok u', after) ∧
      u'.relabel .withoutOffsets = u.relabel .withoutOffsets := by
  obtain ⟨t, ht, hnumber⟩ := parseFrom_eq_ok_iff.mp hparse
  obtain ⟨t', ht', hsame⟩ := parse_of_tokens huri hlex hlex' hplaces ht
  have hold := t.number_withoutOffsets next
  have hnew := t'.number_withoutOffsets next
  rw [hsame, hold, hnumber] at hnew
  obtain ⟨htree, hafter⟩ := Prod.mk.inj hnew
  exact ⟨(t'.number next).1, parseFrom_eq_ok_iff.mpr ⟨t', ht', Prod.ext rfl hafter.symm⟩,
    htree.symm⟩

end Source

end CheckedThrows
