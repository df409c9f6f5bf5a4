import CheckedThrows.Grammar.Tree

/-!
# Rules in the order of reading

Some rules cannot be followed from left to right: their alternatives begin
alike, or with the symbol itself.  `reading` gives every symbol an equivalent
right-hand side that can, and `reshape` turns what was read by it into what the
rule of the symbol says.  Declarations begin with metadata, modifiers and a
type, so the symbols for the single kinds of declarations are never read on
their own, but only as a part of where they stand.
-/

namespace CheckedThrows.Grammar

open Rhs

/-! ## Right-hand sides -/

def functionTail : Rhs := seq (nt .params) (nt .fnBody)

def varTail : Rhs := seq (opt (nt .varInit)) (word .semicolon)

def constructorTail : Rhs := seq (word .dot) <| seq (word .name) functionTail

def getterTail : Rhs := seq (word .getWord) <| seq (word .name) (nt .fnBody)

def setterTail : Rhs := seq (word .setWord) <| seq (word .name) functionTail

def operatorTail : Rhs := seq (word .operatorWord) <| seq (nt .operatorName) functionTail

def classTail : Rhs :=
  seq (opt (word .abstractWord)) <| seq (word .classWord) <| seq (word .name) <|
    seq (opt (nt .superclass)) <| seq (opt (nt .interfaces)) <| seq (word .openBrace) <|
    seq (star (nt .classMember)) <| word .closeBrace

/-- A declaration directly in a text after its type; `named` is what can follow
its name. -/
def topTail (named : Rhs) : Rhs :=
  alt getterTail <| alt setterTail <| seq (word .name) named

def memberTail (named : Rhs) : Rhs :=
  alt getterTail <| alt setterTail <| alt operatorTail <| seq (word .name) named

/-- A declaration after its metadata, by what can follow its name: if there is a
type, if there are only modifiers, and if there is nothing of both. -/
def declaration (tail : Rhs → Rhs) (typed modified bare : Rhs) : Rhs :=
  alt (seq (nt .modifiers) <| alt (seq (nt .type) (tail typed)) (tail modified)) <|
    alt (seq (nt .type) (tail typed)) (tail bare)

def topDeclaration : Rhs :=
  declaration topTail (alt functionTail varTail) (alt functionTail varTail) functionTail

def memberDeclaration : Rhs :=
  declaration memberTail (alt functionTail varTail)
    (alt functionTail <| alt constructorTail varTail) (alt functionTail constructorTail)

def localDeclaration : Rhs :=
  seq (opt (nt .metadata)) <|
    alt (seq (nt .modifiers) <|
      alt (seq (nt .type) <| seq (word .name) varTail) (seq (word .name) varTail))
    (seq (nt .type) <| seq (word .name) <| alt functionTail varTail)

def fieldFormal : Rhs := seq (word .thisWord) <| seq (word .dot) <| word .name

def functionTypeTail : Rhs :=
  seq (word .functionWord) <| seq (word .openParen) <|
    seq (opt (commaSeparated (nt .type))) <| seq (word .closeParen) <| opt (word .question)

def suffix : Rhs :=
  alt (seq (word .dot) <| word .name) <| alt (nt .args) <|
    alt (seq (word .openBracket) <| seq (nt .expr) <| word .closeBracket) (word .step)

/-- What follows the first operand of a level. -/
def chainTail (l : Chain) : Rhs := star (seq (tok l.kinds) (nt l.operand))

@[inherit_doc chainTail]
def comparisonTail (c : Comparison) : Rhs := opt (seq (tok c.kinds) (nt c.operand))

/-- What can follow an operand of the tightest level in an expression. -/
def operatorTails : Rhs :=
  seq (chainTail .product) <| seq (chainTail .sum) <| seq (chainTail .shift) <|
    seq (chainTail .bitAnd) <| seq (chainTail .bitXor) <| seq (chainTail .bitOr) <|
    seq (comparisonTail .relation) <| seq (comparisonTail .equality) <|
    seq (chainTail .and) <| chainTail .or

/-- The right-hand side by which a symbol is read. -/
def reading : Symbol → Rhs
  | .topDecl => seq (opt (nt .metadata)) <| alt classTail topDeclaration
  | .classMember => seq (opt (nt .metadata)) memberDeclaration
  | .type =>
    seq (alt (seq (word .name) <| opt (word .question)) functionTypeTail)
      (star functionTypeTail)
  | .param =>
    seq (opt (nt .metadata)) <|
      alt (seq (word .finalWord) <| alt (seq (nt .type) (word .name)) (word .name)) <|
      alt (seq (nt .type) (alt fieldFormal (word .name))) (alt fieldFormal (word .name))
  | .statement =>
    alt (nt .block) <| alt (nt .returnStmt) <| alt (nt .ifStmt) <|
      alt (nt .whileStmt) <| alt (nt .tryStmt) <| alt (nt .rethrowStmt) <|
      alt (nt .breakStmt) <| alt (nt .continueStmt) <|
      alt localDeclaration (nt .exprStmt)
  | .expr =>
    alt (nt .lambda) <| alt (nt .throwExpr) <|
      alt (seq (seq (tok unaryKinds) (nt .unary)) operatorTails) <|
      seq (nt .suffixed) <| alt (seq (tok assignKinds) (nt .expr)) operatorTails
  | .chain l => seq (nt l.operand) (chainTail l)
  | .comparison c => seq (nt c.operand) (comparisonTail c)
  | .suffixed => seq (nt .primary) (star suffix)
  | s => rule s

/-! ## What was read -/

namespace Reading

section Declarations

variable (m : Parts Derivation (opt (nt .metadata)))
  (ws : Parts Derivation (opt (nt .modifiers))) (t : Parts Derivation (opt (nt .type)))

def topOfTail (r : Rhs)
    (named : Parts Derivation (word .name) → Parts Derivation r →
      Parts Derivation (rule .topDecl)) :
    Parts Derivation (topTail r) → Parts Derivation (rule .topDecl)
  | .inl g => .inr (.inr (.inl (Tree.node .getterDecl (m, ws, t, g))))
  | .inr (.inl s) => .inr (.inr (.inr (.inl (Tree.node .setterDecl (m, ws, t, s)))))
  | .inr (.inr (name, v)) => named name v

def topFunction (name : Parts Derivation (word .name)) (f : Parts Derivation functionTail) :
    Parts Derivation (rule .topDecl) :=
  .inr (.inl (Tree.node .functionDecl (m, ws, t, name, f)))

def topVar (v : Parts Derivation (rule .varDecl)) : Parts Derivation (rule .topDecl) :=
  .inr (.inr (.inr (.inr (Tree.node .varDecl v))))

def memberOfTail (r : Rhs)
    (named : Parts Derivation (word .name) → Parts Derivation r →
      Parts Derivation (rule .classMember)) :
    Parts Derivation (memberTail r) → Parts Derivation (rule .classMember)
  | .inl g => .inr (.inl (Tree.node .getterDecl (m, ws, t, g)))
  | .inr (.inl s) => .inr (.inr (.inl (Tree.node .setterDecl (m, ws, t, s))))
  | .inr (.inr (.inl o)) => .inr (.inr (.inr (.inl (Tree.node .operatorDecl (m, ws, t, o)))))
  | .inr (.inr (.inr (name, v))) => named name v

def memberFunction (name : Parts Derivation (word .name))
    (f : Parts Derivation functionTail) : Parts Derivation (rule .classMember) :=
  .inl (Tree.node .functionDecl (m, ws, t, name, f))

def memberConstructor (name : Parts Derivation (word .name))
    (c : Parts Derivation constructorTail) : Parts Derivation (rule .classMember) :=
  .inr (.inr (.inr (.inr (.inl (Tree.node .namedConstructor (m, ws, name, c))))))

def memberVar (v : Parts Derivation (rule .varDecl)) : Parts Derivation (rule .classMember) :=
  .inr (.inr (.inr (.inr (.inr (Tree.node .varDecl v)))))

end Declarations

def topOf : Parts Derivation (reading .topDecl) → Parts Derivation (rule .topDecl)
  | (m, .inl c) => .inl (Tree.node .classDecl (m, c))
  | (m, .inr (.inl (ws, .inl (t, v)))) =>
    topOfTail m (some ws) (some t) (alt functionTail varTail) (fun name => Sum.elim
      (topFunction m (some ws) (some t) name)
      fun v => topVar (.inl (m, ws, some t, name, v))) v
  | (m, .inr (.inl (ws, .inr v))) =>
    topOfTail m (some ws) none (alt functionTail varTail) (fun name => Sum.elim
      (topFunction m (some ws) none name)
      fun v => topVar (.inl (m, ws, none, name, v))) v
  | (m, .inr (.inr (.inl (t, v)))) =>
    topOfTail m none (some t) (alt functionTail varTail) (fun name => Sum.elim
      (topFunction m none (some t) name)
      fun v => topVar (.inr (m, t, name, v))) v
  | (m, .inr (.inr (.inr v))) => topOfTail m none none functionTail (topFunction m none none) v

def memberOf : Parts Derivation (reading .classMember) → Parts Derivation (rule .classMember)
  | (m, .inl (ws, .inl (t, v))) =>
    memberOfTail m (some ws) (some t) (alt functionTail varTail) (fun name => Sum.elim
      (memberFunction m (some ws) (some t) name)
      fun v => memberVar (.inl (m, ws, some t, name, v))) v
  | (m, .inl (ws, .inr v)) =>
    memberOfTail m (some ws) none (alt functionTail <| alt constructorTail varTail)
      (fun name => Sum.elim
      (memberFunction m (some ws) none name) <| Sum.elim
      (memberConstructor m (some ws) name)
      fun v => memberVar (.inl (m, ws, none, name, v))) v
  | (m, .inr (.inl (t, v))) =>
    memberOfTail m none (some t) (alt functionTail varTail) (fun name => Sum.elim
      (memberFunction m none (some t) name)
      fun v => memberVar (.inr (m, t, name, v))) v
  | (m, .inr (.inr v)) =>
    memberOfTail m none none (alt functionTail constructorTail) (fun name => Sum.elim
      (memberFunction m none none name) (memberConstructor m none name)) v

def paramOf : Parts Derivation (reading .param) → Parts Derivation (rule .param)
  | (m, .inl (f, .inl (t, name))) => .inl (m, some f, some t, name)
  | (m, .inl (f, .inr name)) => .inl (m, some f, none, name)
  | (m, .inr (.inl (t, .inl formal))) => .inr (m, some t, formal)
  | (m, .inr (.inl (t, .inr name))) => .inl (m, none, some t, name)
  | (m, .inr (.inr (.inl formal))) => .inr (m, none, formal)
  | (m, .inr (.inr (.inr name))) => .inl (m, none, none, name)

def localOf : Parts Derivation localDeclaration →
    Parts Derivation (alt (nt .varDecl) (nt .localFunction))
  | (m, .inl (ws, .inl (t, v))) => .inl (Tree.node .varDecl (.inl (m, ws, some t, v)))
  | (m, .inl (ws, .inr v)) => .inl (Tree.node .varDecl (.inl (m, ws, none, v)))
  | (m, .inr (t, name, .inl f)) => .inr (Tree.node .localFunction (m, t, name, f))
  | (m, .inr (t, name, .inr v)) => .inl (Tree.node .varDecl (.inr (m, t, name, v)))

def statementOf : Parts Derivation (reading .statement) → Parts Derivation (rule .statement)
  | .inl d => .inl d
  | .inr (.inl d) => .inr (.inr (.inl d))
  | .inr (.inr (.inl d)) => .inr (.inr (.inr (.inl d)))
  | .inr (.inr (.inr (.inl d))) => .inr (.inr (.inr (.inr (.inl d))))
  | .inr (.inr (.inr (.inr (.inl d)))) => .inr (.inr (.inr (.inr (.inr (.inl d)))))
  | .inr (.inr (.inr (.inr (.inr (.inl d))))) =>
    .inr (.inr (.inr (.inr (.inr (.inr (.inl d))))))
  | .inr (.inr (.inr (.inr (.inr (.inr (.inl d)))))) =>
    .inr (.inr (.inr (.inr (.inr (.inr (.inr (.inl d)))))))
  | .inr (.inr (.inr (.inr (.inr (.inr (.inr (.inl d))))))) =>
    .inr (.inr (.inr (.inr (.inr (.inr (.inr (.inr (.inl d))))))))
  | .inr (.inr (.inr (.inr (.inr (.inr (.inr (.inr (.inl v)))))))) =>
    .inr (.inr (.inr (.inr (.inr (.inr (.inr (.inr (.inr (localOf v)))))))))
  | .inr (.inr (.inr (.inr (.inr (.inr (.inr (.inr (.inr d)))))))) => .inr (.inl d)

/-- A type, given what was read before the last word `Function`. -/
def functionTypeOf (returns : Parts Derivation (rule .type))
    (v : Parts Derivation functionTypeTail) : Parts Derivation (rule .type) :=
  .inr (some (Tree.node .type returns), v)

def firstTypeOf :
    Parts Derivation (alt (seq (word .name) <| opt (word .question)) functionTypeTail) →
      Parts Derivation (rule .type)
  | .inl name => .inl name
  | .inr v => .inr (none, v)

def typeOf (v : Parts Derivation (reading .type)) : Parts Derivation (rule .type) :=
  v.2.foldl functionTypeOf (firstTypeOf v.1)

def suffixOf (target : Parts Derivation (rule .suffixed)) (v : Parts Derivation suffix) :
    Parts Derivation (rule .suffixed) :=
  let target := Tree.node .suffixed target
  match v with
  | .inl member => .inr (.inl (target, member))
  | .inr (.inl args) => .inr (.inr (.inl (target, args)))
  | .inr (.inr (.inl index)) => .inr (.inr (.inr (.inl (target, index))))
  | .inr (.inr (.inr step)) => .inr (.inr (.inr (.inr (target, step))))

def suffixedOf (v : Parts Derivation (reading .suffixed)) : Parts Derivation (rule .suffixed) :=
  v.2.foldl suffixOf (.inl v.1)

def binaryOf (l : Chain) (left : Parts Derivation (rule (.chain l)))
    (v : Parts Derivation (seq (tok l.kinds) (nt l.operand))) :
    Parts Derivation (rule (.chain l)) :=
  .inr (Tree.node (.chain l) left, v)

def chainOf (l : Chain) (first : Derivation l.operand) (vs : Parts Derivation (chainTail l)) :
    Parts Derivation (rule (.chain l)) :=
  vs.foldl (binaryOf l) (.inl first)

def comparisonOf (c : Comparison) (left : Derivation c.operand)
    (v : Parts Derivation (comparisonTail c)) : Parts Derivation (rule (.comparison c)) :=
  match v with
  | none => .inl left
  | some v => .inr (left, v)

def operatorsOf (first : Derivation .unary) :
    Parts Derivation operatorTails → Derivation (.chain .or)
  | (product, sum, shift, bitAnd, bitXor, bitOr, relation, equality, and, or) =>
    let e := Tree.node (.chain .product) (chainOf .product first product)
    let e := Tree.node (.chain .sum) (chainOf .sum e sum)
    let e := Tree.node (.chain .shift) (chainOf .shift e shift)
    let e := Tree.node (.chain .bitAnd) (chainOf .bitAnd e bitAnd)
    let e := Tree.node (.chain .bitXor) (chainOf .bitXor e bitXor)
    let e := Tree.node (.chain .bitOr) (chainOf .bitOr e bitOr)
    let e := Tree.node (.comparison .relation) (comparisonOf .relation e relation)
    let e := Tree.node (.comparison .equality) (comparisonOf .equality e equality)
    let e := Tree.node (.chain .and) (chainOf .and e and)
    Tree.node (.chain .or) (chainOf .or e or)

def exprOf : Parts Derivation (reading .expr) → Parts Derivation (rule .expr)
  | .inl d => .inl d
  | .inr (.inl d) => .inr (.inl d)
  | .inr (.inr (.inl (v, tails))) =>
    .inr (.inr (.inr (operatorsOf (Tree.node .unary (.inr v)) tails)))
  | .inr (.inr (.inr (e, .inl v))) => .inr (.inr (.inl (Tree.node .assignment (e, v))))
  | .inr (.inr (.inr (e, .inr tails))) =>
    .inr (.inr (.inr (operatorsOf (Tree.node .unary (.inl e)) tails)))

end Reading

open Reading in
def reshape : (s : Symbol) → Parts Derivation (reading s) → Parts Derivation (rule s)
  | .topDecl, v => topOf v
  | .classMember, v => memberOf v
  | .type, v => typeOf v
  | .param, v => paramOf v
  | .statement, v => statementOf v
  | .expr, v => exprOf v
  | .chain l, v => chainOf l v.1 v.2
  | .comparison c, v => comparisonOf c v.1 v.2
  | .suffixed, v => suffixedOf v
  | .unit, v | .directive, v | .metadata, v | .metadatum, v | .modifiers, v
  | .classDecl, v | .superclass, v | .interfaces, v | .varDecl, v | .varInit, v
  | .functionDecl, v | .getterDecl, v | .setterDecl, v | .operatorDecl, v
  | .namedConstructor, v | .localFunction, v | .operatorName, v | .params, v | .fnBody, v
  | .block, v | .exprStmt, v | .returnStmt, v | .ifStmt, v | .whileStmt, v
  | .rethrowStmt, v | .breakStmt, v | .continueStmt, v | .tryStmt, v | .catchClause, v
  | .catchBinders, v | .finallyClause, v | .lambda, v | .throwExpr, v | .assignment, v
  | .unary, v | .args, v | .primary, v => v

def isRead : Symbol → Bool
  | .classDecl | .varDecl | .functionDecl | .getterDecl | .setterDecl | .operatorDecl
  | .namedConstructor | .localFunction | .assignment => false
  | _ => true

end CheckedThrows.Grammar
