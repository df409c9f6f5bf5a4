import CheckedThrows.Token.Basic

/-!
# The grammar

`rule` gives the right-hand side of every symbol.  Binary operators stand on
levels, each of which has operands of the next tighter one.  Most levels chain
to the left; the comparisons do not, so no two of one level stand side by side.
-/

namespace CheckedThrows.Grammar

/-- The levels whose operators chain to the left, loosest first. -/
inductive Chain
  | or | and | bitOr | bitXor | bitAnd | shift | sum | product
  deriving DecidableEq, Repr

/-- The levels whose operators stand at most once, loosest first. -/
inductive Comparison
  | equality | relation
  deriving DecidableEq, Repr

inductive Symbol
  | unit | directive | topDecl
  | metadata | metadatum | modifiers | type
  | classDecl | superclass | interfaces | classMember
  | varDecl | varInit | functionDecl | getterDecl | setterDecl | operatorDecl
  | namedConstructor | localFunction | operatorName
  | params | param | fnBody
  | block | statement | exprStmt | returnStmt | ifStmt | whileStmt | rethrowStmt
  | breakStmt | continueStmt | tryStmt | catchClause | catchBinders | finallyClause
  | expr | lambda | throwExpr | assignment
  | chain (l : Chain) | comparison (c : Comparison) | unary | suffixed | args | primary
  deriving DecidableEq, Repr

/-- The right-hand side of a rule: one token of certain kinds, a symbol, or
parts put together. -/
inductive Rhs
  | tok (kinds : List TokenKind)
  | nt (s : Symbol)
  | seq (first second : Rhs)
  | alt (left right : Rhs)
  | opt (inner : Rhs)
  | star (inner : Rhs)
  deriving DecidableEq

namespace Chain

def kinds : Chain → List TokenKind
  | .or => [.orOr]
  | .and => [.andAnd]
  | .bitOr => [.bitOr]
  | .bitXor => [.bitXor]
  | .bitAnd => [.bitAnd]
  | .shift => [.shiftLeft, .shiftRight]
  | .sum => [.plus, .minus]
  | .product => [.product]

def operand : Chain → Symbol
  | .or => .chain .and
  | .and => .comparison .equality
  | .bitOr => .chain .bitXor
  | .bitXor => .chain .bitAnd
  | .bitAnd => .chain .shift
  | .shift => .chain .sum
  | .sum => .chain .product
  | .product => .unary

end Chain

namespace Comparison

def kinds : Comparison → List TokenKind
  | .equality => [.equality]
  | .relation => [.less, .greater, .atMost, .atLeast]

def operand : Comparison → Symbol
  | .equality => .comparison .relation
  | .relation => .chain .bitOr

end Comparison

namespace Rhs

abbrev word (kind : TokenKind) : Rhs := .tok [kind]

def plus (inner : Rhs) : Rhs := .seq inner (.star inner)

def commaSeparated (inner : Rhs) : Rhs :=
  .seq inner (.star (.seq (word .comma) inner))

end Rhs

def modifierKinds : List TokenKind :=
  [.staticWord, .externalWord, .finalWord, .constWord, .lateWord, .varWord]

def operatorNameKinds : List TokenKind :=
  [.indexGet, .indexSet, .equality, .plus, .minus, .product, .less, .greater, .atMost,
    .atLeast, .shiftLeft, .shiftRight, .bitAnd, .bitOr, .bitXor, .tilde]

def unaryKinds : List TokenKind := [.minus, .bang, .tilde, .step]

def assignKinds : List TokenKind := [.assign, .compoundAssign]

def creationKinds : List TokenKind := [.newWord, .constCreation]

open Rhs in
def rule : Symbol → Rhs
  | .unit => seq (star (nt .directive)) (star (nt .topDecl))
  | .directive =>
    alt (seq (word .importWord) <| seq (word .stringLiteral) <| word .semicolon)
      (seq (word .exportWord) <| seq (word .stringLiteral) <| word .semicolon)
  | .topDecl =>
    alt (nt .classDecl) <| alt (nt .functionDecl) <| alt (nt .getterDecl) <|
      alt (nt .setterDecl) <| nt .varDecl
  | .metadata => plus (nt .metadatum)
  | .metadatum => seq (word .at) <| seq (word .name) <| opt (nt .args)
  | .modifiers => plus (tok modifierKinds)
  | .type =>
    alt (seq (word .name) <| opt (word .question))
      (seq (opt (nt .type)) <| seq (word .functionWord) <| seq (word .openParen) <|
        seq (opt (commaSeparated (nt .type))) <| seq (word .closeParen) <|
        opt (word .question))
  | .classDecl =>
    seq (opt (nt .metadata)) <| seq (opt (word .abstractWord)) <|
      seq (word .classWord) <| seq (word .name) <| seq (opt (nt .superclass)) <|
      seq (opt (nt .interfaces)) <| seq (word .openBrace) <|
      seq (star (nt .classMember)) <| word .closeBrace
  | .superclass => seq (word .extendsWord) <| word .name
  | .interfaces => seq (word .implementsWord) <| commaSeparated (word .name)
  | .classMember =>
    alt (nt .functionDecl) <| alt (nt .getterDecl) <| alt (nt .setterDecl) <|
      alt (nt .operatorDecl) <| alt (nt .namedConstructor) <| nt .varDecl
  | .varDecl =>
    alt (seq (opt (nt .metadata)) <| seq (nt .modifiers) <| seq (opt (nt .type)) <|
        seq (word .name) <| seq (opt (nt .varInit)) <| word .semicolon)
      (seq (opt (nt .metadata)) <| seq (nt .type) <|
        seq (word .name) <| seq (opt (nt .varInit)) <| word .semicolon)
  | .varInit => seq (word .assign) <| nt .expr
  | .functionDecl =>
    seq (opt (nt .metadata)) <| seq (opt (nt .modifiers)) <| seq (opt (nt .type)) <|
      seq (word .name) <| seq (nt .params) <| nt .fnBody
  | .getterDecl =>
    seq (opt (nt .metadata)) <| seq (opt (nt .modifiers)) <| seq (opt (nt .type)) <|
      seq (word .getWord) <| seq (word .name) <| nt .fnBody
  | .setterDecl =>
    seq (opt (nt .metadata)) <| seq (opt (nt .modifiers)) <| seq (opt (nt .type)) <|
      seq (word .setWord) <| seq (word .name) <| seq (nt .params) <| nt .fnBody
  | .operatorDecl =>
    seq (opt (nt .metadata)) <| seq (opt (nt .modifiers)) <| seq (opt (nt .type)) <|
      seq (word .operatorWord) <| seq (nt .operatorName) <| seq (nt .params) <|
      nt .fnBody
  | .namedConstructor =>
    seq (opt (nt .metadata)) <| seq (opt (nt .modifiers)) <| seq (word .name) <|
      seq (word .dot) <| seq (word .name) <| seq (nt .params) <| nt .fnBody
  | .localFunction =>
    seq (opt (nt .metadata)) <| seq (nt .type) <| seq (word .name) <|
      seq (nt .params) <| nt .fnBody
  | .operatorName => tok operatorNameKinds
  | .params =>
    seq (word .openParen) <| seq (opt (commaSeparated (nt .param))) <| word .closeParen
  | .param =>
    alt (seq (opt (nt .metadata)) <| seq (opt (word .finalWord)) <|
        seq (opt (nt .type)) <| word .name)
      (seq (opt (nt .metadata)) <| seq (opt (nt .type)) <|
        seq (word .thisWord) <| seq (word .dot) <| word .name)
  | .fnBody =>
    alt (nt .block) <|
      alt (seq (word .arrow) <| seq (nt .expr) <| word .semicolon) (word .semicolon)
  | .block => seq (word .openBrace) <| seq (star (nt .statement)) <| word .closeBrace
  | .statement =>
    alt (nt .block) <| alt (nt .exprStmt) <| alt (nt .returnStmt) <|
      alt (nt .ifStmt) <| alt (nt .whileStmt) <| alt (nt .tryStmt) <|
      alt (nt .rethrowStmt) <| alt (nt .breakStmt) <| alt (nt .continueStmt) <|
      alt (nt .varDecl) <| nt .localFunction
  | .exprStmt => seq (nt .expr) <| word .semicolon
  | .returnStmt => seq (word .returnWord) <| seq (opt (nt .expr)) <| word .semicolon
  | .ifStmt =>
    seq (word .ifWord) <| seq (word .openParen) <| seq (nt .expr) <|
      seq (word .closeParen) <| seq (nt .block) <|
      opt (seq (word .elseWord) <| alt (nt .block) (nt .ifStmt))
  | .whileStmt =>
    seq (word .whileWord) <| seq (word .openParen) <| seq (nt .expr) <|
      seq (word .closeParen) <| nt .block
  | .rethrowStmt => seq (word .rethrowWord) <| word .semicolon
  | .breakStmt => seq (word .breakWord) <| word .semicolon
  | .continueStmt => seq (word .continueWord) <| word .semicolon
  | .tryStmt =>
    seq (word .tryWord) <| seq (nt .block) <| seq (star (nt .catchClause)) <|
      opt (nt .finallyClause)
  | .catchClause =>
    alt (seq (word .onWord) <| seq (nt .type) <| seq (opt (nt .catchBinders)) <|
        nt .block)
      (seq (nt .catchBinders) <| nt .block)
  | .catchBinders =>
    seq (word .catchWord) <| seq (word .openParen) <| seq (word .name) <|
      seq (opt (seq (word .comma) <| word .name)) <| word .closeParen
  | .finallyClause => seq (word .finallyWord) <| nt .block
  | .expr =>
    alt (nt .lambda) <| alt (nt .throwExpr) <| alt (nt .assignment) <| nt (.chain .or)
  | .lambda =>
    seq (word .lambdaOpen) <| seq (opt (commaSeparated (nt .param))) <|
      seq (word .closeParen) <|
      alt (nt .block) (seq (word .arrow) <| nt .expr)
  | .throwExpr => seq (word .throwWord) <| nt .expr
  | .assignment => seq (nt .suffixed) <| seq (tok assignKinds) <| nt .expr
  | .chain l =>
    alt (nt l.operand)
      (seq (nt (.chain l)) <| seq (tok l.kinds) <| nt l.operand)
  | .comparison c =>
    alt (nt c.operand)
      (seq (nt c.operand) <| seq (tok c.kinds) <| nt c.operand)
  | .unary => alt (nt .suffixed) (seq (tok unaryKinds) <| nt .unary)
  | .suffixed =>
    alt (nt .primary) <|
      alt (seq (nt .suffixed) <| seq (word .dot) <| word .name) <|
      alt (seq (nt .suffixed) <| nt .args) <|
      alt (seq (nt .suffixed) <| seq (word .openBracket) <| seq (nt .expr) <|
        word .closeBracket) <|
      seq (nt .suffixed) <| word .step
  | .args =>
    seq (word .openParen) <| seq (opt (commaSeparated (nt .expr))) <| word .closeParen
  | .primary =>
    alt (word .name) <| alt (word .thisWord) <| alt (word .intLiteral) <|
      alt (word .doubleLiteral) <| alt (word .stringLiteral) <|
      alt (word .trueWord) <| alt (word .falseWord) <| alt (word .nullWord) <|
      alt (seq (word .openBracket) <| seq (opt (commaSeparated (nt .expr))) <|
        word .closeBracket) <|
      alt (word .indexGet) <|
      alt (seq (tok creationKinds) <| seq (word .name) <|
        seq (opt (seq (word .dot) <| word .name)) <| nt .args) <|
      seq (word .openParen) <| seq (nt .expr) <| word .closeParen

end CheckedThrows.Grammar
