import CheckedThrows.Ast.Basic

/-!
# Trees that are no programs

The grammar admits some trees that the language rejects.  `fault?` finds the
first fault of a tree.  Faults are met in a fixed order, which is mostly that
of the source text; but the metadata of a declaration comes after the rest of
it, that of a class before its members, the alternative of an `if` before its
condition, and a fault of a construct as a whole after those of its parts, the
names of constructors, the targets of assignments and the parameters of setters
excepted, which come as soon as they are known.
-/

namespace CheckedThrows

inductive ShapeFault
  /-- The left side of an assignment is nothing that can be assigned to. -/
  | target (place : Extent)
  /-- The operand of `++` or `--` is nothing that can be assigned to. -/
  | stepOperand (op : StepOp) (place : Extent)
  /-- A `try` has neither a clause nor a `finally`. -/
  | unguarded (place : Extent)
  /-- A setter has no parameter or several. -/
  | setterParams (place : Extent)
  /-- The name of a constructor does not begin with that of its class. -/
  | constructorName (qualifier : Qualifier) (name : String) (className : String)
  /-- A parameter of a function literal is written `this.x`. -/
  | lambdaFieldFormal (place : Extent)
  /-- A decimal number has too many digits. -/
  | digits (count : Nat)
  deriving DecidableEq, Repr

def faultIf (condition : Bool) (fault : ShapeFault) : Option ShapeFault :=
  if condition then some fault else none

mutual

def Expr.fault? : Expr → Option ShapeFault
  | .name .. | .self _ | .rethrow _ => none
  | .literal _ value => value.excessDigits?.map .digits
  | .list _ items => exprsFault? items
  | .member _ target _ => target.fault?
  | .call _ callee args _ => callee.fault? <|> exprsFault? args
  | .index _ target index => target.fault? <|> index.fault?
  | .binary _ _ left right => left.fault? <|> right.fault?
  | .unary _ _ operand => operand.fault?
  | .step _ op _ operand =>
    operand.fault? <|> faultIf (!operand.isAssignable) (.stepOperand op operand.extent)
  | .assign _ _ target value =>
    target.fault? <|> faultIf (!target.isAssignable) (.target target.extent) <|>
      value.fault?
  | .throw _ value => value.fault?
  | .lambda info params body =>
    paramsFault? params <|> body.fault? <|>
      faultIf (params.any Param.isFieldFormal) (.lambdaFieldFormal info.extent)

def exprsFault? : List Expr → Option ShapeFault
  | [] => none
  | e :: es => e.fault? <|> exprsFault? es

def Body.fault? : Body → Option ShapeFault
  | .block b => b.fault?
  | .value e => e.fault?

def Param.fault? : Param → Option ShapeFault
  | ⟨_, _, _, _, entries⟩ => metadataFault? entries

def paramsFault? : List Param → Option ShapeFault
  | [] => none
  | p :: ps => p.fault? <|> paramsFault? ps

def Metadatum.fault? : Metadatum → Option ShapeFault
  | ⟨_, _, none⟩ => none
  | ⟨_, _, some args⟩ => exprsFault? args

def metadataFault? : List Metadatum → Option ShapeFault
  | [] => none
  | m :: ms => m.fault? <|> metadataFault? ms

def Block.fault? : Block → Option ShapeFault
  | ⟨_, statements⟩ => stmtsFault? statements

def stmtsFault? : List Stmt → Option ShapeFault
  | [] => none
  | s :: ss => s.fault? <|> stmtsFault? ss

def Stmt.fault? : Stmt → Option ShapeFault
  | .block b => b.fault?
  | .expr _ e => e.fault?
  | .ret _ (some e) => e.fault?
  | .ret _ none | .leave _ | .next _ => none
  | .branch _ cond thenBlock (some elseBlock) =>
    elseBlock.fault? <|> cond.fault? <|> thenBlock.fault?
  | .branch _ cond thenBlock none => cond.fault? <|> thenBlock.fault?
  | .loop _ cond body => cond.fault? <|> body.fault?
  | .guarded _ body catches (some finallyBlock) =>
    body.fault? <|> catchesFault? catches <|> finallyBlock.fault?
  | .guarded info body catches none =>
    body.fault? <|> catchesFault? catches <|>
      faultIf catches.isEmpty (.unguarded info.extent)
  | .variable d => d.fault?
  | .function d => d.fault?

def CatchClause.fault? : CatchClause → Option ShapeFault
  | ⟨_, _, _, _, body⟩ => body.fault?

def catchesFault? : List CatchClause → Option ShapeFault
  | [] => none
  | c :: cs => c.fault? <|> catchesFault? cs

def VarDecl.fault? : VarDecl → Option ShapeFault
  | ⟨_, _, _, _, some init, _, entries⟩ => init.fault? <|> metadataFault? entries
  | ⟨_, _, _, _, none, _, entries⟩ => metadataFault? entries

def FunctionDecl.fault? : FunctionDecl → Option ShapeFault
  | ⟨info, _, kind, _, params, _, body, _, entries⟩ =>
    paramsFault? params <|>
      faultIf (kind = .setter && params.length ≠ 1) (.setterParams info.extent) <|>
      bodyFault? body <|> metadataFault? entries

def bodyFault? : Option Body → Option ShapeFault
  | none => none
  | some body => body.fault?

end

/-- A constructor whose declaration names another class than the one it is
in. -/
def FunctionDecl.qualifierFault? (className : String) (d : FunctionDecl) :
    Option ShapeFault :=
  d.qualifier.bind fun q =>
    faultIf (q.name ≠ className) (.constructorName q d.name className)

def Member.fault? (className : String) : Member → Option ShapeFault
  | .variable d => d.fault?
  | .function d => d.qualifierFault? className <|> d.fault?

def ClassDecl.fault? (d : ClassDecl) : Option ShapeFault :=
  metadataFault? d.metadata <|> d.members.findSome? (Member.fault? d.name)

def Declaration.fault? : Declaration → Option ShapeFault
  | .class d => d.fault?
  | .function d => d.fault?
  | .variable d => d.fault?

def CompilationUnit.fault? (u : CompilationUnit) : Option ShapeFault :=
  u.declarations.findSome? Declaration.fault?

end CheckedThrows
