import CheckedThrows.Ast.Operator
import CheckedThrows.Literal.Basic
import CheckedThrows.Token.Basic

/-!
# Syntax trees

The tree of a source text says how it is built and nothing about what its
names mean.  Every node knows its extent and has a number; the numbers of a
tree are given to it as a whole once it is complete (see `Ast.Numbering`).

Declarations are statements too, so local variables and functions stand in
blocks like any other statement.  Some trees that the grammar admits are no
programs, such as an assignment to a sum; `Ast.Shape` tells which.
-/

namespace CheckedThrows

abbrev NodeId := Nat

structure NodeInfo where
  extent : Extent
  id : NodeId := 0
  deriving DecidableEq, Repr

/-- A node that is made without a text. -/
def NodeInfo.bare (id : NodeId) : NodeInfo := { extent := ⟨.start, .start⟩, id }

/-- A type named by a class name, such as `String?`. -/
structure TypeName where
  info : NodeInfo
  name : String
  nullable : Bool
  deriving DecidableEq, Repr

def TypeName.bare (id : NodeId) (name : String) : TypeName := ⟨.bare id, name, false⟩

inductive TypeRef
  | named (type : TypeName)
  /-- A function type such as `int Function(String)`. -/
  | function (info : NodeInfo) (returns : Option TypeRef) (params : List TypeRef)
      (nullable : Bool)

/-- The word that an explicit instance creation starts with. -/
inductive CreationWord
  | new | const
  deriving DecidableEq, Repr

inductive VarKind
  | topLevel | field | local
  deriving DecidableEq, Repr

inductive FunctionKind
  | function | local | method | getter | setter | operator | constructor
  deriving DecidableEq, Repr

/-- The class name written before the dot in the declaration of a named
constructor. -/
structure Qualifier where
  name : String
  extent : Extent
  deriving DecidableEq, Repr

structure VarModifiers where
  isFinal : Bool := false
  isConst : Bool := false
  isLate : Bool := false
  isStatic : Bool := false
  deriving DecidableEq, Repr

structure FunctionModifiers where
  isStatic : Bool := false
  isExternal : Bool := false
  isConst : Bool := false
  deriving DecidableEq, Repr

mutual

inductive Expr
  | name (info : NodeInfo) (name : String)
  | literal (info : NodeInfo) (value : Literal)
  | list (info : NodeInfo) (items : List Expr)
  /-- The receiver of the enclosing method. -/
  | self (info : NodeInfo)
  | member (info : NodeInfo) (target : Expr) (name : String)
  | call (info : NodeInfo) (callee : Expr) (args : List Expr)
      (creation : Option CreationWord)
  | index (info : NodeInfo) (target : Expr) (index : Expr)
  | binary (info : NodeInfo) (op : BinaryOp) (left : Expr) (right : Expr)
  | unary (info : NodeInfo) (op : UnaryOp) (operand : Expr)
  | step (info : NodeInfo) (op : StepOp) (form : StepForm) (operand : Expr)
  | assign (info : NodeInfo) (op : AssignOp) (target : Expr) (value : Expr)
  | throw (info : NodeInfo) (value : Expr)
  | rethrow (info : NodeInfo)
  | lambda (info : NodeInfo) (params : List Param) (body : Body)

/-- The body of a function: a block, or a value after `=>`. -/
inductive Body
  | block (block : Block)
  | value (expr : Expr)

/-- A parameter; a field formal is one written `this.x`. -/
structure Param where
  info : NodeInfo
  name : String
  type : Option TypeRef
  isFieldFormal : Bool
  metadata : List Metadatum

/-- One entry `@name` or `@name(args)` of a declaration's metadata. -/
structure Metadatum where
  info : NodeInfo
  name : String
  args : Option (List Expr)

structure Block where
  info : NodeInfo
  statements : List Stmt

inductive Stmt
  | block (block : Block)
  | expr (info : NodeInfo) (expr : Expr)
  | ret (info : NodeInfo) (value : Option Expr)
  | branch (info : NodeInfo) (cond : Expr) (thenBlock : Block) (elseBlock : Option Block)
  | loop (info : NodeInfo) (cond : Expr) (body : Block)
  /-- `break` -/
  | leave (info : NodeInfo)
  /-- `continue` -/
  | next (info : NodeInfo)
  /-- `try`, with its clauses in source order.  Only the body is protected. -/
  | guarded (info : NodeInfo) (body : Block) (catches : List CatchClause)
      (finallyBlock : Option Block)
  | variable (decl : VarDecl)
  | function (decl : FunctionDecl)

structure CatchClause where
  info : NodeInfo
  exceptionType : Option TypeRef
  binder : Option String
  stackBinder : Option String
  body : Block

structure VarDecl where
  info : NodeInfo
  name : String
  kind : VarKind
  type : Option TypeRef
  init : Option Expr
  modifiers : VarModifiers
  metadata : List Metadatum

/-- A function, method, accessor, operator or constructor.  A constructor has
the name after the dot, and the empty one if there is none. -/
structure FunctionDecl where
  info : NodeInfo
  name : String
  kind : FunctionKind
  qualifier : Option Qualifier
  params : List Param
  returns : Option TypeRef
  body : Option Body
  modifiers : FunctionModifiers
  metadata : List Metadatum

end

inductive Member
  | variable (decl : VarDecl)
  | function (decl : FunctionDecl)

structure ClassDecl where
  info : NodeInfo
  name : String
  members : List Member
  superclass : Option TypeName
  interfaces : List TypeName
  isAbstract : Bool
  metadata : List Metadatum

inductive Declaration
  | class (decl : ClassDecl)
  | function (decl : FunctionDecl)
  | variable (decl : VarDecl)

inductive DirectiveKind
  | imports | exports
  deriving DecidableEq, Repr

structure Directive where
  info : NodeInfo
  kind : DirectiveKind
  uri : Text

/-- A source text that parses; one without tokens has no extent. -/
structure CompilationUnit where
  id : NodeId := 0
  extent : Option Extent
  uri : String
  directives : List Directive
  declarations : List Declaration
  comments : List Comment

namespace TypeRef

def info : TypeRef → NodeInfo
  | .named type => type.info
  | .function info _ _ _ => info

end TypeRef

namespace Expr

def info : Expr → NodeInfo
  | .name info _ | .literal info _ | .list info _ | .self info | .member info _ _
  | .call info _ _ _ | .index info _ _ | .binary info _ _ _ | .unary info _ _
  | .step info _ _ _ | .assign info _ _ _ | .throw info _ | .rethrow info
  | .lambda info _ _ => info

def id (e : Expr) : NodeId := e.info.id

def extent (e : Expr) : Extent := e.info.extent

def isNamed : Expr → Bool
  | .name .. | .member .. => true
  | _ => false

/-- Whether an expression can stand on the left of an assignment. -/
def isAssignable : Expr → Bool
  | .index .. | .member .. | .name .. => true
  | _ => false

end Expr

namespace FunctionDecl

def id (d : FunctionDecl) : NodeId := d.info.id

/-- A function without a body, unless it is implemented elsewhere or is a
constructor. -/
def isAbstract (d : FunctionDecl) : Bool :=
  d.body.isNone && !d.modifiers.isExternal && d.kind ≠ .constructor

end FunctionDecl

def VarDecl.id (d : VarDecl) : NodeId := d.info.id

def Param.id (p : Param) : NodeId := p.info.id

def ClassDecl.id (d : ClassDecl) : NodeId := d.info.id

def CatchClause.id (c : CatchClause) : NodeId := c.info.id

def Metadatum.id (m : Metadatum) : NodeId := m.info.id

namespace Member

def info : Member → NodeInfo
  | .variable d => d.info
  | .function d => d.info

def id (m : Member) : NodeId := m.info.id

def name : Member → String
  | .variable d => d.name
  | .function d => d.name

def toVar? : Member → Option VarDecl
  | .variable d => some d
  | .function _ => none

def toFunction? : Member → Option FunctionDecl
  | .function d => some d
  | .variable _ => none

end Member

namespace Declaration

def info : Declaration → NodeInfo
  | .class d => d.info
  | .function d => d.info
  | .variable d => d.info

def id (d : Declaration) : NodeId := d.info.id

def name : Declaration → String
  | .class d => d.name
  | .function d => d.name
  | .variable d => d.name

def toClass? : Declaration → Option ClassDecl
  | .class d => some d
  | _ => none

def toFunction? : Declaration → Option FunctionDecl
  | .function d => some d
  | _ => none

def toVar? : Declaration → Option VarDecl
  | .variable d => some d
  | _ => none

end Declaration

end CheckedThrows
