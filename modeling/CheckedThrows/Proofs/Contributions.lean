import CheckedThrows.Ast.Node
import CheckedThrows.Grammar.Image
import Mathlib.Data.List.Basic

/-!
# What the rules make of their parts

A rule passes on the nodes that its parts contribute, or it makes one node of
them.  Types and metadata are listed after what they precede in the text, so
they are kept apart from the others, which stand in the order of the text.
-/

namespace CheckedThrows

open List

namespace Node

def isType : Node → Bool
  | .type _ => true
  | _ => false

def isCode (n : Node) : Bool :=
  !n.isMetadatum && !n.isType

def codeChildren (n : Node) : List Node :=
  (n.children.map Prod.snd).filter isCode

def asideChildren (n : Node) : List Node :=
  (n.children.map Prod.snd).filter fun c => !c.isCode

@[simp] theorem isCode_expr (e : Expr) : (Node.expr e).isCode = true := rfl
@[simp] theorem isCode_stmt (s : Stmt) : (Node.stmt s).isCode = true := rfl
@[simp] theorem isCode_param (p : Param) : (Node.param p).isCode = true := rfl
@[simp] theorem isCode_clause (c : CatchClause) : (Node.clause c).isCode = true := rfl
@[simp] theorem isCode_metadatum (m : Metadatum) : (Node.metadatum m).isCode = false := rfl
@[simp] theorem isCode_type (t : TypeRef) : (Node.type t).isCode = false := rfl

@[simp] theorem isCode_ofBody (b : Body) : (ofBody b).isCode = true := by cases b <;> rfl
@[simp] theorem isCode_ofMember (m : Member) : (ofMember m).isCode = true := by cases m <;> rfl

theorem codeChildren_of_isCode {n : Node} (hcode : ∀ c ∈ n.children, c.2.isCode = true) :
    n.codeChildren = n.children.map Prod.snd ∧ n.asideChildren = [] := by
  rw [codeChildren, asideChildren, filter_eq_self, filter_eq_nil_iff,
    forall_mem_map, forall_mem_map]
  exact ⟨hcode, fun c hc => by simp [hcode c hc]⟩

theorem codeChildren_expr (e : Expr) :
    (Node.expr e).codeChildren = (exprChildren e).map Prod.snd ∧
      (Node.expr e).asideChildren = [] := by
  apply codeChildren_of_isCode
  cases e <;> simp [children, exprChildren, or_imp, forall_and]

theorem codeChildren_varDecl (d : VarDecl) :
    (Node.varDecl d).codeChildren = d.init.toList.map .expr ∧
      (Node.varDecl d).asideChildren = d.type.toList.map .type ++ d.metadata.map .metadatum := by
  simp [codeChildren, asideChildren, children, stmtChildren, filter_map, Function.comp_def]

theorem codeChildren_functionDecl (d : FunctionDecl) :
    (Node.functionDecl d).codeChildren = d.params.map .param ++ d.body.toList.map ofBody ∧
      (Node.functionDecl d).asideChildren =
        d.returns.toList.map .type ++ d.metadata.map .metadatum := by
  simp [codeChildren, asideChildren, children, stmtChildren, filter_map, Function.comp_def]

def declares : Stmt → Bool
  | .variable _ | .function _ => true
  | _ => false

theorem codeChildren_stmt {s : Stmt} (hplain : declares s = false) :
    (Node.stmt s).codeChildren = (stmtChildren s).map Prod.snd ∧
      (Node.stmt s).asideChildren = [] := by
  apply codeChildren_of_isCode
  cases s with
  | «variable» d => cases hplain
  | function d => cases hplain
  | guarded info body catches finallyBlock =>
    simp only [children, stmtChildren, cons_append, forall_mem_cons,
      forall_mem_append, forall_mem_map]
    simp
  | _ => simp [children, stmtChildren]

theorem codeChildren_class (d : ClassDecl) :
    (Node.class d).codeChildren = d.members.map ofMember ∧
      (Node.class d).asideChildren = d.superclass.toList.map (fun t => .type (.named t)) ++
        (d.interfaces.map (fun t => .type (.named t)) ++ d.metadata.map .metadatum) := by
  simp [codeChildren, asideChildren, children, filter_map, Function.comp_def]

theorem codeChildren_param (p : Param) :
    (Node.param p).codeChildren = [] ∧
      (Node.param p).asideChildren = p.type.toList.map .type ++ p.metadata.map .metadatum := by
  simp [codeChildren, asideChildren, children, filter_map, Function.comp_def]

theorem codeChildren_metadatum (m : Metadatum) :
    (Node.metadatum m).codeChildren = (m.args.getD []).map .expr ∧
      (Node.metadatum m).asideChildren = [] := by
  simp [codeChildren, asideChildren, children, filter_map, Function.comp_def]

theorem codeChildren_type (t : TypeRef) :
    (Node.type t).codeChildren = [] ∧ (Node.type t).asideChildren = typeChildren t := by
  cases t <;> simp [codeChildren, asideChildren, children, typeChildren, filter_map, Function.comp_def]

theorem codeChildren_clause (c : CatchClause) :
    (Node.clause c).codeChildren = [.block c.body] ∧
      (Node.clause c).asideChildren = c.exceptionType.toList.map .type := by
  simp [codeChildren, asideChildren, children, filter_map, Function.comp_def]

def leaf? : Node → Option Token
  | .expr (.name info name) => some ⟨.name, name, info.extent⟩
  | .expr (.literal info (.int spelling)) => some ⟨.intLiteral, spelling, info.extent⟩
  | _ => none

structure MadeOf (info : NodeInfo) (code aside : List Node) (n : Node) : Prop where
  extent : n.extent? = some info.extent
  leaf : n.leaf? = none
  code : n.codeChildren = code
  aside : n.asideChildren.Perm aside

section

variable {info : NodeInfo} {code aside : List Node}

theorem MadeOf.expr {t : Expr} (hextent : t.extent = info.extent) (hleaf : leaf? (.expr t) = none)
    (hcode : (exprChildren t).map Prod.snd = code) (haside : aside = []) :
    (Node.expr t).MadeOf info code aside :=
  ⟨congrArg some hextent, hleaf, (codeChildren_expr t).1.trans hcode,
    .of_eq ((codeChildren_expr t).2.trans haside.symm)⟩

theorem MadeOf.stmt {t : Stmt} (hplain : declares t = false) (hextent : stmtExtent t = info.extent)
    (hcode : (stmtChildren t).map Prod.snd = code) (haside : aside = []) :
    (Node.stmt t).MadeOf info code aside :=
  ⟨congrArg some hextent, rfl, (codeChildren_stmt hplain).1.trans hcode,
    .of_eq ((codeChildren_stmt hplain).2.trans haside.symm)⟩

end

end Node

namespace Grammar

open Node

def Enclosure.owner : Enclosure → String
  | .class name => name
  | _ => ""

def Ast.code (e : Enclosure) : (s : Symbol) → Ast s → List Node
  | .unit, x => x.1.map .directive ++ x.2.map ofDeclaration
  | .directive, d => [.directive d]
  | .topDecl, d => [ofDeclaration d]
  | .metadata, _ | .metadatum, _ | .modifiers, _ | .type, _ | .superclass, _ | .interfaces, _
  | .operatorName, _ | .catchBinders, _ => []
  | .classDecl, d => [.class d]
  | .classMember, f => [ofMember (f e.owner)]
  | .varDecl, f => [.varDecl (f e)]
  | .functionDecl, f => [.functionDecl (f e)]
  | .getterDecl, d | .setterDecl, d | .operatorDecl, d | .namedConstructor, d
  | .localFunction, d => [.functionDecl d]
  | .params, ps => ps.map .param
  | .param, p => [.param p]
  | .fnBody, b => b.toList.map ofBody
  | .block, b | .finallyClause, b => [.block b]
  | .statement, s | .exprStmt, s | .returnStmt, s | .whileStmt, s | .rethrowStmt, s
  | .breakStmt, s | .continueStmt, s | .tryStmt, s => [.stmt s]
  | .ifStmt, x => [.block ⟨x.1, [x.2]⟩]
  | .catchClause, c => [.clause c]
  | .varInit, x | .expr, x | .lambda, x | .throwExpr, x | .assignment, x | .chain _, x
  | .comparison _, x | .unary, x | .suffixed, x | .primary, x => [.expr x]
  | .args, es => es.map .expr

def Ast.aside : (s : Symbol) → Ast s → List Node
  | .metadata, ms => ms.map .metadatum
  | .metadatum, m => [.metadatum m]
  | .type, t => [.type t]
  | .superclass, t => [.type (.named t)]
  | .interfaces, ts => ts.map fun t => .type (.named t)
  | _, _ => []

def Parts.collect {α : Type} (ofToken : Token → List α) (ofSymbol : (s : Symbol) → Ast s → List α) :
    (r : Rhs) → Parts Ast r → List α
  | .tok _, t => ofToken t.1
  | .nt s, x => ofSymbol s x
  | .seq a b, v => Parts.collect ofToken ofSymbol a v.1 ++ Parts.collect ofToken ofSymbol b v.2
  | .alt a b, v => Sum.elim (Parts.collect ofToken ofSymbol a) (Parts.collect ofToken ofSymbol b) v
  | .opt a, v =>
    (show Option (Parts Ast a) from v).toList.flatMap (Parts.collect ofToken ofSymbol a)
  | .star a, vs => (show List (Parts Ast a) from vs).flatMap (Parts.collect ofToken ofSymbol a)

abbrev Parts.code (e : Enclosure) (r : Rhs) (v : Parts Ast r) : List Node :=
  Parts.collect (fun _ => []) (Ast.code e) r v

abbrev Parts.aside (r : Rhs) (v : Parts Ast r) : List Node :=
  Parts.collect (fun _ => []) Ast.aside r v

/-- What a rule contributes, given what its parts do. -/
inductive Contributes (info : NodeInfo) (code aside : List Node) : List Node → List Node → Prop
  | parts {code' aside' : List Node} (hcode : code' = code) (haside : aside' = aside) :
      Contributes info code aside code' aside'
  | code {n : Node} (made : n.MadeOf info code aside) : Contributes info code aside [n] []
  | aside {n : Node} (made : n.MadeOf info code aside) : Contributes info code aside [] [n]
  /-- A statement is put into a block of its own. -/
  | wrapped {s : Stmt} (made : (Node.stmt s).MadeOf info code aside) :
      Contributes info code aside [.block ⟨info, [s]⟩] []
  /-- The statement in such a block is taken out again. -/
  | unwrapped {s : Stmt} {place : NodeInfo} (hcode : code = [.block ⟨place, [s]⟩])
      (haside : aside = []) : Contributes info code aside [.stmt s] []

theorem flatMap_singletons {α β : Type} (f : α → β) (xs : List α) :
    (xs.flatMap fun x => [f x]) = xs.map f :=
  map_eq_flatMap.symm

theorem flatMap_nothing {α β : Type} (xs : List α) : (xs.flatMap fun _ => ([] : List β)) = [] := by
  simp

theorem flatMap_toList {α β : Type} (f : α → β) (o : Option (List α)) :
    (o.toList.flatMap fun xs => xs.map f) = (o.getD []).map f := by
  cases o <;> simp

theorem collect_list {α : Type} (f : (s : Symbol) → Ast s → List α) {s : Symbol}
    (v : Option (Parts Ast (Rhs.commaSeparated (.nt s)))) :
    v.toList.flatMap (Parts.collect (fun _ => []) f (Rhs.commaSeparated (.nt s))) =
      ((v.map Image.commaSeparated).getD []).flatMap fun x => f s x := by
  cases v with
  | none => rfl
  | some v =>
    obtain ⟨first, rest⟩ := v
    change (f s first ++ rest.flatMap fun x => [] ++ f s x.2) ++ [] =
      f s first ++ (rest.map Prod.snd).flatMap (f s)
    simp [flatMap_map]

def tokenRules : List Symbol :=
  [.superclass, .interfaces, .rethrowStmt, .primary]

attribute [local simp] rule build Ast.code Ast.aside Parts.collect Enclosure.owner Rhs.plus
  collect_list flatMap_nothing flatMap_singletons flatMap_toList codeChildren_varDecl
  codeChildren_functionDecl codeChildren_class codeChildren_param codeChildren_metadatum
  codeChildren_type codeChildren_clause typeChildren exprChildren stmtChildren ofBody
  Image.typeOf Image.classDeclOf Image.varDeclOf Image.functionDeclOf Image.getterDeclOf
  Image.setterDeclOf Image.operatorDeclOf Image.namedConstructorOf Image.localFunctionOf
  Image.paramOf Image.catchClauseOf Image.lambdaOf Image.suffixedOf Function.comp_def
  perm_append_comm

theorem contributes_build (s : Symbol) (info : NodeInfo) (v : Parts Ast (rule s)) (e : Enclosure)
    (hs : s ∉ tokenRules) :
    ∃ e', Contributes info (Parts.code e' (rule s) v) (Parts.aside (rule s) v)
      (Ast.code e s (build s info v)) (Ast.aside s (build s info v)) := by
  cases s with
  | superclass | interfaces | rethrowStmt | primary => simp [tokenRules] at hs
  | unit | metadata | modifiers =>
    obtain ⟨first, rest⟩ := v
    exact ⟨.text, .parts (by simp) (by simp)⟩
  | params | args =>
    obtain ⟨_, items, _⟩ := v
    exact ⟨.text, .parts (by simp) (by simp)⟩
  | catchBinders =>
    obtain ⟨_, _, first, second, _⟩ := v
    exact ⟨.text, .parts (by simp) (by simp)⟩
  | varInit | operatorName | finallyClause => exact ⟨.text, .parts rfl rfl⟩
  | topDecl => rcases v with c | f | g | s | v <;> exact ⟨.text, .parts rfl rfl⟩
  | classMember =>
    rcases v with f | g | s | o | c | v <;> exact ⟨.class e.owner, .parts rfl rfl⟩
  | fnBody => rcases v with body | ⟨_, e, _⟩ | _ <;> exact ⟨.text, .parts rfl rfl⟩
  | statement =>
    rcases v with b | s | s | s | s | s | s | s | s | v | f
    case inr.inr.inr.inr.inr.inr.inr.inr.inr.inl => exact ⟨.block, .parts rfl rfl⟩
    case inr.inr.inr.inl => exact ⟨.text, .unwrapped rfl rfl⟩
    all_goals exact ⟨.text, .parts rfl rfl⟩
  | expr => rcases v with e | e | e | e <;> exact ⟨.text, .parts rfl rfl⟩
  | directive =>
    rcases v with ⟨_, uri, _⟩ | ⟨_, uri, _⟩ <;> exact ⟨.text, .code ⟨rfl, rfl, rfl, .nil⟩⟩
  | metadatum =>
    obtain ⟨_, name, args⟩ := v
    exact ⟨.text, .aside ⟨rfl, rfl, by simp, by simp⟩⟩
  | type =>
    rcases v with ⟨name, nullable⟩ | ⟨returns, _, _, params, _, nullable⟩ <;>
      exact ⟨.text, .aside ⟨rfl, rfl, by simp, .of_eq (by simp)⟩⟩
  | classDecl =>
    obtain ⟨metadata, isAbstract, _, name, superclass, interfaces, _, members, _⟩ := v
    refine ⟨.class name.1.text, .code ⟨rfl, rfl, by simp, ?_⟩⟩
    simp only [codeChildren_class, ← append_assoc]
    exact perm_append_comm.trans (.of_eq (by simp))
  | functionDecl =>
    obtain ⟨metadata, words, type, name, params, body⟩ := v
    exact ⟨.text, .code ⟨rfl, rfl, by simp, by simp⟩⟩
  | getterDecl =>
    obtain ⟨metadata, words, type, _, name, body⟩ := v
    exact ⟨.text, .code ⟨rfl, rfl, by simp, by simp⟩⟩
  | setterDecl | operatorDecl | namedConstructor =>
    obtain ⟨metadata, words, type, _, name, params, body⟩ := v
    exact ⟨.text, .code ⟨rfl, rfl, by simp, by simp⟩⟩
  | localFunction =>
    obtain ⟨metadata, type, name, params, body⟩ := v
    exact ⟨.text, .code ⟨rfl, rfl, by simp, by simpa using (perm_append_singleton _ _).symm⟩⟩
  | varDecl =>
    rcases v with ⟨metadata, words, type, name, init, _⟩ | ⟨metadata, type, name, init, _⟩
    · exact ⟨.text, .code ⟨rfl, rfl, by simp, by simp⟩⟩
    · exact ⟨.text, .code ⟨rfl, rfl, by simp, by simpa using (perm_append_singleton _ _).symm⟩⟩
  | param =>
    rcases v with ⟨metadata, _, type, name⟩ | ⟨metadata, type, _, _, name⟩ <;>
      exact ⟨.text, .code ⟨rfl, rfl, by simp, by simp⟩⟩
  | catchClause =>
    rcases v with ⟨_, type, names, body⟩ | ⟨names, body⟩ <;>
      exact ⟨.text, .code ⟨rfl, rfl, by simp, by simp⟩⟩
  | exprStmt | whileStmt | breakStmt | continueStmt =>
    exact ⟨.text, .code (.stmt rfl rfl rfl rfl)⟩
  | block | returnStmt =>
    obtain ⟨_, inner, _⟩ := v
    exact ⟨.text, .code (.stmt rfl rfl (by simp) (by simp))⟩
  | tryStmt =>
    obtain ⟨_, body, catches, finallyBlock⟩ := v
    exact ⟨.text, .code (.stmt rfl rfl (by simp) (by simp))⟩
  | ifStmt =>
    obtain ⟨_, _, cond, _, thenBlock, _ | ⟨_, elseBlock | nested⟩⟩ := v <;>
      exact ⟨.text, .wrapped (.stmt rfl rfl rfl rfl)⟩
  | lambda =>
    obtain ⟨_, params, _, body | ⟨_, value⟩⟩ := v <;>
      exact ⟨.text, .code (.expr rfl rfl (by simp) (by simp))⟩
  | throwExpr | assignment => exact ⟨.text, .code (.expr rfl rfl rfl rfl)⟩
  | chain l =>
    rcases v with e | ⟨left, op, right⟩
    · cases l <;> exact ⟨.text, .parts rfl rfl⟩
    · cases l <;> exact ⟨.text, .code (.expr rfl rfl rfl rfl)⟩
  | comparison c =>
    rcases v with e | ⟨left, op, right⟩
    · cases c <;> exact ⟨.text, .parts rfl rfl⟩
    · cases c <;> exact ⟨.text, .code (.expr rfl rfl rfl rfl)⟩
  | unary =>
    rcases v with e | ⟨op, operand⟩
    · exact ⟨.text, .parts rfl rfl⟩
    · simp only [build, unaryExpr]
      split <;> exact ⟨.text, .code (.expr rfl rfl rfl rfl)⟩
  | suffixed =>
    rcases v with e | ⟨target, _, name⟩ | ⟨callee, args⟩ | ⟨target, _, index, _⟩ | ⟨operand, op⟩
    case inl => exact ⟨.text, .parts rfl rfl⟩
    case inr.inr.inl => exact ⟨.text, .code (.expr rfl rfl (by simp) rfl)⟩
    all_goals exact ⟨.text, .code (.expr rfl rfl rfl rfl)⟩

theorem madeOf_block (info : NodeInfo) (s : Stmt) :
    (Node.block ⟨info, [s]⟩).MadeOf info [.stmt s] [] :=
  .stmt rfl rfl rfl rfl

theorem madeOf_rethrow (info site : NodeInfo) :
    (Node.stmt (.expr info (.rethrow site))).MadeOf info [.expr (.rethrow site)] [] :=
  .stmt rfl rfl rfl rfl

abbrev listRule : Rhs :=
  .seq (.word .openBracket) (.seq (.opt (Rhs.commaSeparated (.nt .expr))) (.word .closeBracket))

theorem madeOf_list (info : NodeInfo) (v : Parts Ast listRule) :
    (Node.expr (.list info ((v.2.1.map Image.commaSeparated).getD []))).MadeOf info
      (Parts.code .text listRule v) (Parts.aside listRule v) := by
  obtain ⟨_, items, _⟩ := v
  exact .expr rfl rfl (by simp) (by simp)

end Grammar

end CheckedThrows
