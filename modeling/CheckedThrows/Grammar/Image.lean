import CheckedThrows.Ast.Basic
import CheckedThrows.Grammar.Tree

/-!
# The syntax tree of a derivation

Every rule builds its part of the syntax tree from the parts built by the
symbols in it and from the extent of the tokens it derives.  Parentheses leave
no trace but in the extents around them.
-/

namespace CheckedThrows.Grammar

/-- Where a declaration stands: directly in a text, in the class named, or in a
block. -/
inductive Enclosure
  | text
  | class (name : String)
  | block

namespace Enclosure

def varKind : Enclosure → VarKind
  | .text => .topLevel
  | .class _ => .field
  | .block => .local

/-- The kind and the name of a function declared by a plain name.  One that has
the name of its class is the unnamed constructor. -/
def functionName (e : Enclosure) (name : String) : FunctionKind × String :=
  match e with
  | .text => (.function, name)
  | .class owner => if name = owner then (.constructor, "") else (.method, name)
  | .block => (.local, name)

end Enclosure

/-- What a symbol contributes to the syntax tree.  Declarations have to be told
where they stand. -/
abbrev Ast : Symbol → Type
  | .unit => List Directive × List Declaration
  | .directive => Directive
  | .topDecl => Declaration
  | .metadata => List Metadatum
  | .metadatum => Metadatum
  | .modifiers => List TokenKind
  | .type => TypeRef
  | .classDecl => ClassDecl
  | .superclass => TypeName
  | .interfaces => List TypeName
  | .classMember => String → Member
  | .varDecl => Enclosure → VarDecl
  | .functionDecl => Enclosure → FunctionDecl
  | .getterDecl | .setterDecl | .operatorDecl | .namedConstructor | .localFunction =>
    FunctionDecl
  | .operatorName => Token
  | .params => List Param
  | .param => Param
  | .fnBody => Option Body
  | .block | .finallyClause => Block
  | .statement | .exprStmt | .returnStmt | .whileStmt | .rethrowStmt | .breakStmt
  | .continueStmt | .tryStmt => Stmt
  | .ifStmt => NodeInfo × Stmt
  | .catchClause => CatchClause
  | .catchBinders => String × Option String
  | .varInit | .expr | .lambda | .throwExpr | .assignment | .chain _ | .comparison _
  | .unary | .suffixed | .primary => Expr
  | .args => List Expr

def joinExtents : Option Extent → Option Extent → Option Extent
  | some a, some b => some ⟨a.start, b.stop⟩
  | some a, none => some a
  | none, b => b

def infoOf (e : Option Extent) : NodeInfo where
  extent := e.getD ⟨.start, .start⟩

section Operators

variable (t : Token)

def binaryOp : BinaryOp := (BinaryOp.ofSpelling? t.text).getD .or

def stepOp : StepOp := if t.text = "++" then .increment else .decrement

def assignOp : AssignOp :=
  if t.text = "=" then .plain
  else
    match BinaryOp.ofSpelling? (String.ofList t.text.toList.dropLast) with
    | some op => .compound op
    | none => .ifNull

def unaryExpr (info : NodeInfo) (operand : Expr) : Expr :=
  match t.kind with
  | .minus => .unary info .negate operand
  | .bang => .unary info .not operand
  | .tilde => .unary info .complement operand
  | _ => .step info (stepOp t) .before operand

def creationWord : CreationWord :=
  match t.kind with
  | .newWord => .new
  | _ => .const

def className : TypeName := ⟨{ extent := t.extent }, t.text, false⟩

end Operators

def varModifiers (words : List TokenKind) : VarModifiers where
  isFinal := words.contains .finalWord
  isConst := words.contains .constWord
  isLate := words.contains .lateWord
  isStatic := words.contains .staticWord

def accessorModifiers (words : List TokenKind) : FunctionModifiers where
  isStatic := words.contains .staticWord
  isExternal := words.contains .externalWord

def functionModifiers (words : List TokenKind) : FunctionModifiers where
  isStatic := words.contains .staticWord
  isExternal := words.contains .externalWord
  isConst := words.contains .constWord

def constructorModifiers (words : List TokenKind) : FunctionModifiers where
  isExternal := words.contains .externalWord
  isConst := words.contains .constWord

/-- The name of an operator.  A minus without parameters is the sign and has a
name of its own. -/
def operatorName (t : Token) (params : List Param) : String :=
  if t.text = "-" && params.isEmpty then "unary-" else t.text

def directiveOf (info : NodeInfo) (kind : DirectiveKind) (uri : Token) : Directive :=
  ⟨info, kind, StringContent.decode .ruled (Literal.content uri.text)⟩

/-- What a creation calls: a class, or a constructor of it by name. -/
def creationCallee (owner : Token) (name : Option Token) : Expr :=
  let class_ := Expr.name { extent := owner.extent } owner.text
  match name with
  | some n => .member { extent := ⟨owner.extent.start, n.extent.stop⟩ } class_ n.text
  | none => class_

/-! ## The rules -/

namespace Image

def commaSeparated {r : Rhs} (v : Parts Ast (Rhs.commaSeparated r)) : List (Parts Ast r) :=
  v.1 :: v.2.map Prod.snd

def topDeclOf : Parts Ast (rule .topDecl) → Declaration
  | .inl c => .class c
  | .inr (.inl f) => .function (f .text)
  | .inr (.inr (.inl g)) => .function g
  | .inr (.inr (.inr (.inl s))) => .function s
  | .inr (.inr (.inr (.inr v))) => .variable (v .text)

def classMemberOf (owner : String) : Parts Ast (rule .classMember) → Member
  | .inl f => .function (f (.class owner))
  | .inr (.inl g) => .function g
  | .inr (.inr (.inl s)) => .function s
  | .inr (.inr (.inr (.inl o))) => .function o
  | .inr (.inr (.inr (.inr (.inl c)))) => .function c
  | .inr (.inr (.inr (.inr (.inr v)))) => .variable (v (.class owner))

def typeOf (info : NodeInfo) : Parts Ast (rule .type) → TypeRef
  | .inl (name, nullable) => .named ⟨info, name.1.text, nullable.isSome⟩
  | .inr (returns, _, _, params, _, nullable) =>
    .function info returns ((params.map commaSeparated).getD []) nullable.isSome

def classDeclOf (info : NodeInfo) : Parts Ast (rule .classDecl) → ClassDecl
  | (metadata, isAbstract, _, name, superclass, interfaces, _, members, _) =>
    ⟨info, name.1.text, members.map fun m => m name.1.text, superclass,
      interfaces.getD [], isAbstract.isSome, metadata.getD []⟩

def varDeclOf (info : NodeInfo) (e : Enclosure) : Parts Ast (rule .varDecl) → VarDecl
  | .inl (metadata, words, type, name, init, _) =>
    ⟨info, name.1.text, e.varKind, type, init, varModifiers words, metadata.getD []⟩
  | .inr (metadata, type, name, init, _) =>
    ⟨info, name.1.text, e.varKind, some type, init, varModifiers [], metadata.getD []⟩

def functionDeclOf (info : NodeInfo) (e : Enclosure) :
    Parts Ast (rule .functionDecl) → FunctionDecl
  | (metadata, words, type, name, params, body) =>
    let (kind, name) := e.functionName name.1.text
    ⟨info, name, kind, none, params, type, body, functionModifiers (words.getD []),
      metadata.getD []⟩

def getterDeclOf (info : NodeInfo) : Parts Ast (rule .getterDecl) → FunctionDecl
  | (metadata, words, type, _, name, body) =>
    ⟨info, name.1.text, .getter, none, [], type, body, accessorModifiers (words.getD []),
      metadata.getD []⟩

def setterDeclOf (info : NodeInfo) : Parts Ast (rule .setterDecl) → FunctionDecl
  | (metadata, words, type, _, name, params, body) =>
    ⟨info, name.1.text, .setter, none, params, type, body,
      accessorModifiers (words.getD []), metadata.getD []⟩

def operatorDeclOf (info : NodeInfo) : Parts Ast (rule .operatorDecl) → FunctionDecl
  | (metadata, words, type, _, op, params, body) =>
    ⟨info, operatorName op params, .operator, none, params, type, body,
      accessorModifiers (words.getD []), metadata.getD []⟩

def namedConstructorOf (info : NodeInfo) :
    Parts Ast (rule .namedConstructor) → FunctionDecl
  | (metadata, words, owner, _, name, params, body) =>
    ⟨info, name.1.text, .constructor, some ⟨owner.1.text, owner.1.extent⟩, params, none,
      body, constructorModifiers (words.getD []), metadata.getD []⟩

def localFunctionOf (info : NodeInfo) : Parts Ast (rule .localFunction) → FunctionDecl
  | (metadata, type, name, params, body) =>
    let (kind, name) := Enclosure.block.functionName name.1.text
    ⟨info, name, kind, none, params, some type, body, {}, metadata.getD []⟩

def paramOf (info : NodeInfo) : Parts Ast (rule .param) → Param
  | .inl (metadata, _, type, name) => ⟨info, name.1.text, type, false, metadata.getD []⟩
  | .inr (metadata, type, _, _, name) => ⟨info, name.1.text, type, true, metadata.getD []⟩

def fnBodyOf : Parts Ast (rule .fnBody) → Option Body
  | .inl b => some (.block b)
  | .inr (.inl (_, e, _)) => some (.value e)
  | .inr (.inr _) => none

def statementOf : Parts Ast (rule .statement) → Stmt
  | .inl b => .block b
  | .inr (.inl s) | .inr (.inr (.inl s)) => s
  | .inr (.inr (.inr (.inl s))) => s.2
  | .inr (.inr (.inr (.inr (.inl s)))) | .inr (.inr (.inr (.inr (.inr (.inl s)))))
  | .inr (.inr (.inr (.inr (.inr (.inr (.inl s))))))
  | .inr (.inr (.inr (.inr (.inr (.inr (.inr (.inl s)))))))
  | .inr (.inr (.inr (.inr (.inr (.inr (.inr (.inr (.inl s)))))))) => s
  | .inr (.inr (.inr (.inr (.inr (.inr (.inr (.inr (.inr (.inl v))))))))) =>
    .variable (v .block)
  | .inr (.inr (.inr (.inr (.inr (.inr (.inr (.inr (.inr (.inr f))))))))) => .function f

/-- An `if` statement.  Another one after `else` is a block of its own. -/
def ifStmtOf (info : NodeInfo) : Parts Ast (rule .ifStmt) → Stmt
  | (_, _, cond, _, thenBlock, none) => .branch info cond thenBlock none
  | (_, _, cond, _, thenBlock, some (_, .inl elseBlock)) =>
    .branch info cond thenBlock (some elseBlock)
  | (_, _, cond, _, thenBlock, some (_, .inr nested)) =>
    .branch info cond thenBlock (some ⟨nested.1, [nested.2]⟩)

def catchClauseOf (info : NodeInfo) : Parts Ast (rule .catchClause) → CatchClause
  | .inl (_, type, names, body) =>
    ⟨info, some type, names.map Prod.fst, names.bind Prod.snd, body⟩
  | .inr (names, body) => ⟨info, none, some names.1, names.2, body⟩

def lambdaOf (info : NodeInfo) : Parts Ast (rule .lambda) → Expr
  | (_, params, _, .inl body) =>
    .lambda info ((params.map commaSeparated).getD []) (.block body)
  | (_, params, _, .inr (_, value)) =>
    .lambda info ((params.map commaSeparated).getD []) (.value value)

def suffixedOf (info : NodeInfo) : Parts Ast (rule .suffixed) → Expr
  | .inl e => e
  | .inr (.inl (target, _, name)) => .member info target name.1.text
  | .inr (.inr (.inl (callee, args))) => .call info callee args none
  | .inr (.inr (.inr (.inl (target, _, index, _)))) => .index info target index
  | .inr (.inr (.inr (.inr (operand, op)))) => .step info (stepOp op.1) .after operand

def primaryOf (info : NodeInfo) : Parts Ast (rule .primary) → Expr
  | .inl t => .name info t.1.text
  | .inr (.inl _) => .self info
  | .inr (.inr (.inl t)) => .literal info (.int t.1.text)
  | .inr (.inr (.inr (.inl t))) => .literal info (.double t.1.text)
  | .inr (.inr (.inr (.inr (.inl t)))) => .literal info (.string t.1.text)
  | .inr (.inr (.inr (.inr (.inr (.inl _))))) => .literal info (.bool true)
  | .inr (.inr (.inr (.inr (.inr (.inr (.inl _)))))) => .literal info (.bool false)
  | .inr (.inr (.inr (.inr (.inr (.inr (.inr (.inl _))))))) => .literal info .null
  | .inr (.inr (.inr (.inr (.inr (.inr (.inr (.inr (.inl (_, items, _))))))))) =>
    .list info ((items.map commaSeparated).getD [])
  | .inr (.inr (.inr (.inr (.inr (.inr (.inr (.inr (.inr (.inl _))))))))) => .list info []
  | .inr (.inr (.inr (.inr (.inr (.inr (.inr (.inr (.inr (.inr
      (.inl (word, owner, name, args))))))))))) =>
      .call info (creationCallee owner.1 (name.map fun n => n.2.1)) args
        (some (creationWord word.1))
  | .inr (.inr (.inr (.inr (.inr (.inr (.inr (.inr (.inr (.inr (.inr (_, e, _))))))))))) => e

/-- Every operand of a level is an expression, whichever level is below. -/
def chainOperand : (l : Chain) → Ast l.operand → Expr
  | .or, e | .and, e | .bitOr, e | .bitXor, e | .bitAnd, e | .shift, e | .sum, e
  | .product, e => e

@[inherit_doc chainOperand]
def comparisonOperand : (c : Comparison) → Ast c.operand → Expr
  | .equality, e | .relation, e => e

def chainOf (l : Chain) (info : NodeInfo) : Parts Ast (rule (.chain l)) → Expr
  | .inl e => chainOperand l e
  | .inr (left, op, right) => .binary info (binaryOp op.1) left (chainOperand l right)

def comparisonOf (c : Comparison) (info : NodeInfo) :
    Parts Ast (rule (.comparison c)) → Expr
  | .inl e => comparisonOperand c e
  | .inr (left, op, right) =>
    .binary info (binaryOp op.1) (comparisonOperand c left) (comparisonOperand c right)

end Image

open Image in
/-- What a symbol contributes to the syntax tree, given what the symbols of its
rule do. -/
def build : (s : Symbol) → NodeInfo → Parts Ast (rule s) → Ast s
  | .unit, _, v => v
  | .directive, info, .inl (_, uri, _) => directiveOf info .imports uri.1
  | .directive, info, .inr (_, uri, _) => directiveOf info .exports uri.1
  | .topDecl, _, v => topDeclOf v
  | .metadata, _, (first, rest) => first :: rest
  | .metadatum, info, (_, name, args) => ⟨info, name.1.text, args⟩
  | .modifiers, _, (first, rest) => first.1.kind :: rest.map fun t => t.1.kind
  | .type, info, v => typeOf info v
  | .classDecl, info, v => classDeclOf info v
  | .superclass, _, (_, name) => className name.1
  | .interfaces, _, (_, names) => (commaSeparated names).map fun t => className t.1
  | .classMember, _, v => fun owner => classMemberOf owner v
  | .varDecl, info, v => fun e => varDeclOf info e v
  | .varInit, _, (_, e) => e
  | .functionDecl, info, v => fun e => functionDeclOf info e v
  | .getterDecl, info, v => getterDeclOf info v
  | .setterDecl, info, v => setterDeclOf info v
  | .operatorDecl, info, v => operatorDeclOf info v
  | .namedConstructor, info, v => namedConstructorOf info v
  | .localFunction, info, v => localFunctionOf info v
  | .operatorName, _, t => t.1
  | .params, _, (_, params, _) => (params.map commaSeparated).getD []
  | .param, info, v => paramOf info v
  | .fnBody, _, v => fnBodyOf v
  | .block, info, (_, statements, _) => ⟨info, statements⟩
  | .statement, _, v => statementOf v
  | .exprStmt, info, (e, _) => .expr info e
  | .returnStmt, info, (_, value, _) => .ret info value
  | .ifStmt, info, v => (info, ifStmtOf info v)
  | .whileStmt, info, (_, _, cond, _, body) => .loop info cond body
  | .rethrowStmt, info, (t, _) => .expr info (.rethrow { extent := t.1.extent })
  | .breakStmt, info, _ => .leave info
  | .continueStmt, info, _ => .next info
  | .tryStmt, info, (_, body, catches, finallyBlock) =>
    .guarded info body catches finallyBlock
  | .catchClause, info, v => catchClauseOf info v
  | .catchBinders, _, (_, _, first, second, _) =>
    (first.1.text, second.map fun t => t.2.1.text)
  | .finallyClause, _, (_, b) => b
  | .expr, _, .inl e | .expr, _, .inr (.inl e) | .expr, _, .inr (.inr (.inl e))
  | .expr, _, .inr (.inr (.inr e)) => e
  | .lambda, info, v => lambdaOf info v
  | .throwExpr, info, (_, e) => .throw info e
  | .assignment, info, (target, op, value) => .assign info (assignOp op.1) target value
  | .chain l, info, v => chainOf l info v
  | .comparison c, info, v => comparisonOf c info v
  | .unary, _, .inl e => e
  | .unary, info, .inr (op, operand) => unaryExpr op.1 info operand
  | .suffixed, info, v => suffixedOf info v
  | .args, _, (_, args, _) => (args.map commaSeparated).getD []
  | .primary, info, v => primaryOf info v

/-- The extent of the tokens of a tree, and what its symbols contribute. -/
def Tree.eval : {r : Rhs} → Tree r → Option Extent × Parts Ast r
  | _, .tok t isKind => (Option.some t.extent, (⟨t, isKind⟩ : { t : Token // t.kind ∈ _ }))
  | _, .nt body =>
    let (e, v) := body.eval
    (e, build _ (infoOf e) v)
  | _, .seq x y =>
    let (e, v) := x.eval
    let (f, w) := y.eval
    (joinExtents e f, (v, w))
  | _, .inl x =>
    let (e, v) := x.eval
    (e, Sum.inl v)
  | _, .inr y =>
    let (e, v) := y.eval
    (e, Sum.inr v)
  | _, .none => (Option.none, Option.none)
  | _, .some x =>
    let (e, v) := x.eval
    (e, Option.some v)
  | _, .nil => (Option.none, List.nil)
  | _, .cons x xs =>
    let (e, v) := x.eval
    let (f, vs) := xs.eval
    (joinExtents e f, List.cons v vs)

def image (uri : String) (comments : List Comment) (d : Derivation .unit) :
    CompilationUnit :=
  let (extent, directives, declarations) := d.eval
  { extent, uri, directives, declarations, comments }

end CheckedThrows.Grammar
