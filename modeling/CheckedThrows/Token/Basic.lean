import CheckedThrows.Position

/-!
# Tokens and comments

A token keeps the words it was written with and where they stand.  No token
spans more than one line, but two kinds are told apart by their surroundings
only: a parenthesis that opens a function literal and a `const` that starts an
instance creation.
-/

namespace CheckedThrows

inductive TokenKind
  | name | intLiteral | doubleLiteral | stringLiteral
  | importWord | exportWord | classWord | abstractWord | extendsWord
  | implementsWord | staticWord | externalWord | finalWord | constWord
  | newWord | lateWord | varWord | getWord | setWord | operatorWord
  | functionWord | thisWord | returnWord | ifWord | elseWord | whileWord
  | breakWord | continueWord | tryWord | onWord | catchWord | finallyWord
  | throwWord | rethrowWord | trueWord | falseWord | nullWord
  | indexSet | indexGet | compoundAssign | assign | orOr | andAnd | equality
  | atMost | atLeast | shiftLeft | shiftRight | less | greater
  | bitOr | bitXor | bitAnd | step | plus | minus | product
  | bang | tilde | question
  | openParen | closeParen | openBrace | closeBrace | openBracket | closeBracket
  | comma | dot | semicolon | at | arrow
  | lambdaOpen | constCreation
  deriving DecidableEq, Repr

namespace TokenKind

def keywords : List (String × TokenKind) := [
  ("import", .importWord), ("export", .exportWord), ("class", .classWord),
  ("abstract", .abstractWord), ("extends", .extendsWord),
  ("implements", .implementsWord), ("static", .staticWord),
  ("external", .externalWord), ("final", .finalWord), ("const", .constWord),
  ("new", .newWord), ("late", .lateWord), ("var", .varWord), ("get", .getWord),
  ("set", .setWord), ("operator", .operatorWord), ("Function", .functionWord),
  ("this", .thisWord), ("return", .returnWord), ("if", .ifWord),
  ("else", .elseWord), ("while", .whileWord), ("break", .breakWord),
  ("continue", .continueWord), ("try", .tryWord), ("on", .onWord),
  ("catch", .catchWord), ("finally", .finallyWord), ("throw", .throwWord),
  ("rethrow", .rethrowWord), ("true", .trueWord), ("false", .falseWord),
  ("null", .nullWord)]

/-- The operators and marks, longer ones first, so that the first that fits is
the longest that fits. -/
def marks : List (String × TokenKind) := [
  ("<<=", .compoundAssign), (">>=", .compoundAssign), ("??=", .compoundAssign),
  ("[]=", .indexSet),
  ("+=", .compoundAssign), ("-=", .compoundAssign), ("*=", .compoundAssign),
  ("/=", .compoundAssign), ("%=", .compoundAssign), ("&=", .compoundAssign),
  ("|=", .compoundAssign), ("^=", .compoundAssign), ("~/", .product),
  ("++", .step), ("--", .step), ("==", .equality), ("!=", .equality),
  ("&&", .andAnd), (">=", .atLeast), ("[]", .indexGet), ("<=", .atMost),
  ("||", .orOr), ("<<", .shiftLeft), (">>", .shiftRight), ("=>", .arrow),
  ("*", .product), ("/", .product), ("%", .product), ("=", .assign),
  ("<", .less), (">", .greater), ("|", .bitOr), ("^", .bitXor),
  ("&", .bitAnd), ("+", .plus), ("-", .minus), ("!", .bang), ("~", .tilde),
  ("?", .question), ("(", .openParen), (")", .closeParen),
  ("\x7b", .openBrace), ("\x7d", .closeBrace), ("[", .openBracket),
  ("]", .closeBracket), (",", .comma), (".", .dot), (";", .semicolon),
  ("@", .at)]

def label : TokenKind → String
  | .name => "NAME"
  | .intLiteral => "INT"
  | .doubleLiteral => "DOUBLE"
  | .stringLiteral => "STRING"
  | .importWord => "IMPORT"
  | .exportWord => "EXPORT"
  | .classWord => "CLASS"
  | .abstractWord => "ABSTRACT"
  | .extendsWord => "EXTENDS"
  | .implementsWord => "IMPLEMENTS"
  | .staticWord => "STATIC"
  | .externalWord => "EXTERNAL"
  | .finalWord => "FINAL"
  | .constWord => "CONST"
  | .newWord => "NEW"
  | .lateWord => "LATE"
  | .varWord => "VAR"
  | .getWord => "GET"
  | .setWord => "SET"
  | .operatorWord => "OPERATOR"
  | .functionWord => "FUNCTION"
  | .thisWord => "THIS"
  | .returnWord => "RETURN"
  | .ifWord => "IF"
  | .elseWord => "ELSE"
  | .whileWord => "WHILE"
  | .breakWord => "BREAK"
  | .continueWord => "CONTINUE"
  | .tryWord => "TRY"
  | .onWord => "ON"
  | .catchWord => "CATCH"
  | .finallyWord => "FINALLY"
  | .throwWord => "THROW"
  | .rethrowWord => "RETHROW"
  | .trueWord => "TRUE"
  | .falseWord => "FALSE"
  | .nullWord => "NULL"
  | .indexSet => "INDEX_SET_OP"
  | .indexGet => "INDEX_OP"
  | .compoundAssign => "COMPOUND_ASSIGN"
  | .assign => "ASSIGN"
  | .orOr => "OR_OP"
  | .andAnd => "AND_OP"
  | .equality => "EQ_OP"
  | .atMost => "LE"
  | .atLeast => "GE"
  | .shiftLeft => "SHL"
  | .shiftRight => "SHR"
  | .less => "LT"
  | .greater => "GT"
  | .bitOr => "BITOR"
  | .bitXor => "BITXOR"
  | .bitAnd => "BITAND"
  | .step => "INCDEC"
  | .plus => "PLUS"
  | .minus => "MINUS"
  | .product => "MUL_OP"
  | .bang => "BANG"
  | .tilde => "TILDE"
  | .question => "QMARK"
  | .openParen => "LPAR"
  | .closeParen => "RPAR"
  | .openBrace => "LBRACE"
  | .closeBrace => "RBRACE"
  | .openBracket => "LSQB"
  | .closeBracket => "RSQB"
  | .comma => "COMMA"
  | .dot => "DOT"
  | .semicolon => "SEMICOLON"
  | .at => "AT"
  | .arrow => "__ANON_0"
  | .lambdaOpen => "LAMBDA_LPAR"
  | .constCreation => "CONST_CREATE"

end TokenKind

structure Token where
  kind : TokenKind
  text : String
  extent : Extent
  deriving DecidableEq, Repr

/-- A `//` comment.  It stands on its own line if only blanks precede it
there. -/
structure Comment where
  text : String
  extent : Extent
  ownLine : Bool
  deriving DecidableEq, Repr

end CheckedThrows
