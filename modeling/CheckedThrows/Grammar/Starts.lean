import CheckedThrows.Grammar.Basic

/-!
# How the words of a right-hand side start

The parser decides by the tokens in front, so it has to know which tokens the
words of a right-hand side can start with.  One token is nearly always enough;
only where a name starts a type or an expression the next one matters too.
-/

namespace CheckedThrows.Grammar

structure Starts where
  /-- The kinds a word can start with whatever comes next. -/
  kinds : List TokenKind := []
  /-- The kinds that come second in words that start with a name. -/
  names : List TokenKind := []
  /-- Whether a word can be a single name. -/
  lone : Bool := false
  /-- Whether the empty word is one. -/
  nullable : Bool := false

namespace Starts

def heads (s : Starts) : List TokenKind :=
  if s.lone || !s.names.isEmpty then .name :: s.kinds else s.kinds

def tok (kinds : List TokenKind) : Starts where
  kinds := kinds.filter (· ≠ .name)
  lone := kinds.contains .name

def seq (a b : Starts) : Starts where
  kinds := if a.nullable then a.kinds ++ b.kinds else a.kinds
  names := a.names ++ (if a.lone then b.heads else []) ++ if a.nullable then b.names else []
  lone := a.lone && b.nullable || a.nullable && b.lone
  nullable := a.nullable && b.nullable

def alt (a b : Starts) : Starts where
  kinds := a.kinds ++ b.kinds
  names := a.names ++ b.names
  lone := a.lone || b.lone
  nullable := a.nullable || b.nullable

def opt (a : Starts) : Starts := { a with nullable := true }

def star (a : Starts) : Starts :=
  { a with names := a.names ++ (if a.lone then a.heads else []), nullable := true }

end Starts

def primaryKinds : List TokenKind :=
  [.thisWord, .intLiteral, .doubleLiteral, .stringLiteral, .trueWord, .falseWord, .nullWord,
    .openBracket, .indexGet, .newWord, .constCreation, .openParen]

def suffixKinds : List TokenKind := [.dot, .openParen, .openBracket, .step]

def binaryKinds : List TokenKind :=
  [.orOr, .andAnd, .equality, .less, .greater, .atMost, .atLeast, .bitOr, .bitXor, .bitAnd,
    .shiftLeft, .shiftRight, .plus, .minus, .product]

def exprKinds : List TokenKind := .lambdaOpen :: .throwWord :: unaryKinds ++ primaryKinds

def localKinds : List TokenKind := .at :: .name :: .functionWord :: modifierKinds

def memberKinds : List TokenKind := .getWord :: .setWord :: localKinds

def starts : Symbol → Starts
  | .unit =>
    { kinds := .importWord :: .exportWord :: .abstractWord :: .classWord :: memberKinds,
      nullable := true }
  | .directive => { kinds := [.importWord, .exportWord] }
  | .topDecl => { kinds := .abstractWord :: .classWord :: memberKinds }
  | .metadata | .metadatum => { kinds := [.at] }
  | .modifiers => { kinds := modifierKinds }
  | .type =>
    { kinds := [.functionWord], names := [.question, .functionWord], lone := true }
  | .classDecl => { kinds := [.at, .abstractWord, .classWord] }
  | .superclass => { kinds := [.extendsWord] }
  | .interfaces => { kinds := [.implementsWord] }
  | .classMember => { kinds := .operatorWord :: memberKinds }
  | .varDecl | .functionDecl | .namedConstructor | .localFunction =>
    { kinds := localKinds }
  | .getterDecl | .setterDecl => { kinds := memberKinds }
  | .operatorDecl => { kinds := .operatorWord :: localKinds }
  | .varInit => { kinds := [.assign] }
  | .operatorName => { kinds := operatorNameKinds }
  | .params | .args => { kinds := [.openParen] }
  | .param => { kinds := [.at, .finalWord, .name, .functionWord, .thisWord] }
  | .fnBody => { kinds := [.openBrace, .arrow, .semicolon] }
  | .block => { kinds := [.openBrace] }
  | .statement =>
    { kinds := .openBrace :: .returnWord :: .ifWord :: .whileWord :: .tryWord ::
        .rethrowWord :: .breakWord :: .continueWord :: localKinds ++ exprKinds }
  | .exprStmt =>
    { kinds := exprKinds, names := .semicolon :: suffixKinds ++ binaryKinds ++ assignKinds }
  | .returnStmt => { kinds := [.returnWord] }
  | .ifStmt => { kinds := [.ifWord] }
  | .whileStmt => { kinds := [.whileWord] }
  | .rethrowStmt => { kinds := [.rethrowWord] }
  | .breakStmt => { kinds := [.breakWord] }
  | .continueStmt => { kinds := [.continueWord] }
  | .tryStmt => { kinds := [.tryWord] }
  | .catchClause => { kinds := [.onWord, .catchWord] }
  | .catchBinders => { kinds := [.catchWord] }
  | .finallyClause => { kinds := [.finallyWord] }
  | .expr =>
    { kinds := exprKinds, names := suffixKinds ++ binaryKinds ++ assignKinds, lone := true }
  | .lambda => { kinds := [.lambdaOpen] }
  | .throwExpr => { kinds := [.throwWord] }
  | .assignment => { kinds := primaryKinds, names := suffixKinds ++ assignKinds }
  | .chain _ | .comparison _ =>
    { kinds := unaryKinds ++ primaryKinds, names := suffixKinds ++ binaryKinds, lone := true }
  | .unary => { kinds := unaryKinds ++ primaryKinds, names := suffixKinds, lone := true }
  | .suffixed => { kinds := primaryKinds, names := suffixKinds, lone := true }
  | .primary => { kinds := primaryKinds, lone := true }

def Rhs.starts : Rhs → Starts
  | .tok kinds => .tok kinds
  | .nt s => Grammar.starts s
  | .seq a b => .seq a.starts b.starts
  | .alt a b => .alt a.starts b.starts
  | .opt a => .opt a.starts
  | .star a => .star a.starts

end CheckedThrows.Grammar
