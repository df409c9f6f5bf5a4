import CheckedThrows.Token.Basic

/-!
# Marking by context

Two tokens mean different things in different surroundings.  A parenthesis
opens a function literal if the token before it can only precede an expression
and the parenthesis that closes it is followed by `=>` or a brace.  A `const`
starts an instance creation if the token before it can only precede an
expression and `Name(` or `Name.name(` follows.
-/

namespace CheckedThrows

namespace TokenKind

/-- Tokens after which only an expression can stand. -/
def precedesExpression : TokenKind → Bool
  | .openParen | .comma | .openBracket | .assign | .arrow | .returnWord
  | .compoundAssign => true
  | _ => false

end TokenKind

namespace Token

/-- The tokens after the parenthesis that closes the last one opened before
`ts`, where `depth` more are open inside it. -/
def afterClosing : (depth : Nat) → (ts : List Token) → Option (List Token)
  | _, [] => none
  | depth, t :: ts =>
    match t.kind, depth with
    | .openParen, _ => afterClosing (depth + 1) ts
    | .closeParen, 0 => some ts
    | .closeParen, inner + 1 => afterClosing inner ts
    | _, _ => afterClosing depth ts

def startsBody : List Token → Bool
  | t :: _ => t.kind = .arrow || t.kind = .openBrace
  | [] => false

/-- Whether a parenthesis followed by `after` opens a function literal. -/
def opensLambda (before : Option TokenKind) (after : List Token) : Bool :=
  before.any TokenKind.precedesExpression &&
    (afterClosing 0 after).any startsBody

/-- Whether a `const` followed by `after` starts an instance creation. -/
def startsCreation (before : Option TokenKind) (after : List Token) : Bool :=
  before.any (fun k => k.precedesExpression || k = .throwWord) &&
    match after.map Token.kind with
    | .name :: .openParen :: _ => true
    | .name :: .dot :: .name :: .openParen :: _ => true
    | _ => false

def markedKind (before : Option TokenKind) (t : Token) (after : List Token) : TokenKind :=
  match t.kind with
  | .openParen => if opensLambda before after then .lambdaOpen else .openParen
  | .constWord => if startsCreation before after then .constCreation else .constWord
  | kind => kind

def markAfter (before : Option TokenKind) : List Token → List Token
  | [] => []
  | t :: ts => { t with kind := markedKind before t ts } :: markAfter (some t.kind) ts

/-- The tokens of a text, each with the kind that its context gives it. -/
def mark (ts : List Token) : List Token :=
  markAfter none ts

end Token

end CheckedThrows
