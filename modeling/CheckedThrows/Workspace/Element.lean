import CheckedThrows.Ast.Basic
import CheckedThrows.Types.Table

/-!
# Elements

An element is what a name can mean: a class, something that can be executed, a
variable or a parameter.  It is known by its declaration, and by the library
and class around it; what it is called, its metadata and its place come from
the declaration.  Two things have no declaration of their own: the constructor
of a class that declares none, and the variables that a `catch` clause binds.
-/

namespace CheckedThrows

/-- Which of the elements that a node stands for is meant. -/
inductive ElementRole
  | declared
  | implicitConstructor
  | exceptionBinder
  | stackBinder
  deriving DecidableEq, Repr

/-- Identifies an element by the node that brings it about. -/
structure ElementId where
  node : NodeId
  role : ElementRole := .declared
  deriving DecidableEq, Repr

structure ClassElement where
  decl : ClassDecl
  library : String
  type : TypeId

inductive ExecutableOrigin
  | declared (decl : FunctionDecl)
  /-- The constructor of a class that declares none. -/
  | implicit (decl : ClassDecl)

/-- A function, method, accessor, operator or constructor. -/
structure ExecutableElement where
  origin : ExecutableOrigin
  library : String
  owner : Option ClassElement

inductive VariableOrigin
  | declared (decl : VarDecl)
  /-- What a clause binds the exception to; such variables have a fixed type. -/
  | exception (clause : CatchClause) (name : String) (type : TypeId)
  /-- What a clause binds the stack trace to. -/
  | stackTrace (clause : CatchClause) (name : String) (type : TypeId)

structure VariableElement where
  origin : VariableOrigin
  library : String
  owner : Option ClassElement

structure ParameterElement where
  param : Param
  library : String
  index : Nat
  type : TypeId

inductive Element
  | class (element : ClassElement)
  | executable (element : ExecutableElement)
  | variable (element : VariableElement)
  | parameter (element : ParameterElement)

namespace ClassElement

def id (c : ClassElement) : ElementId := ⟨c.decl.id, .declared⟩

def name (c : ClassElement) : String := c.decl.name

end ClassElement

namespace ExecutableElement

def id (e : ExecutableElement) : ElementId :=
  match e.origin with
  | .declared d => ⟨d.id, .declared⟩
  | .implicit d => ⟨d.id, .implicitConstructor⟩

def name (e : ExecutableElement) : String :=
  match e.origin with
  | .declared d => d.name
  | .implicit _ => ""

def kind (e : ExecutableElement) : FunctionKind :=
  match e.origin with
  | .declared d => d.kind
  | .implicit _ => .constructor

def extent (e : ExecutableElement) : Extent :=
  match e.origin with
  | .declared d => d.info.extent
  | .implicit d => d.info.extent

def metadata (e : ExecutableElement) : List Metadatum :=
  match e.origin with
  | .declared d => d.metadata
  | .implicit _ => []

def isStatic (e : ExecutableElement) : Bool :=
  match e.origin with
  | .declared d => d.modifiers.isStatic
  | .implicit _ => false

def isConst (e : ExecutableElement) : Bool :=
  match e.origin with
  | .declared d => d.modifiers.isConst
  | .implicit _ => false

def isAbstract (e : ExecutableElement) : Bool :=
  match e.origin with
  | .declared d => d.isAbstract
  | .implicit _ => false

end ExecutableElement

namespace VariableElement

def id (v : VariableElement) : ElementId :=
  match v.origin with
  | .declared d => ⟨d.id, .declared⟩
  | .exception c _ _ => ⟨c.id, .exceptionBinder⟩
  | .stackTrace c _ _ => ⟨c.id, .stackBinder⟩

def name (v : VariableElement) : String :=
  match v.origin with
  | .declared d => d.name
  | .exception _ name _ => name
  | .stackTrace _ name _ => name

def kind (v : VariableElement) : VarKind :=
  match v.origin with
  | .declared d => d.kind
  | .exception .. | .stackTrace .. => .local

def extent (v : VariableElement) : Extent :=
  match v.origin with
  | .declared d => d.info.extent
  | .exception c _ _ => c.info.extent
  | .stackTrace c _ _ => c.info.extent

def metadata (v : VariableElement) : List Metadatum :=
  match v.origin with
  | .declared d => d.metadata
  | .exception .. | .stackTrace .. => []

def isStatic (v : VariableElement) : Bool :=
  match v.origin with
  | .declared d => d.modifiers.isStatic
  | .exception .. | .stackTrace .. => false

def constantInit? (v : VariableElement) : Option Expr :=
  match v.origin with
  | .declared d => if d.modifiers.isConst then d.init else none
  | .exception .. | .stackTrace .. => none

end VariableElement

namespace ParameterElement

def id (p : ParameterElement) : ElementId := ⟨p.param.id, .declared⟩

def name (p : ParameterElement) : String := p.param.name

def isFieldFormal (p : ParameterElement) : Bool := p.param.isFieldFormal

end ParameterElement

namespace Element

def id : Element → ElementId
  | .class c => c.id
  | .executable e => e.id
  | .variable v => v.id
  | .parameter p => p.id

def name : Element → String
  | .class c => c.name
  | .executable e => e.name
  | .variable v => v.name
  | .parameter p => p.name

def library : Element → String
  | .class c => c.library
  | .executable e => e.library
  | .variable v => v.library
  | .parameter p => p.library

def owner : Element → Option ClassElement
  | .class _ | .parameter _ => none
  | .executable e => e.owner
  | .variable v => v.owner

def extent : Element → Extent
  | .class c => c.decl.info.extent
  | .executable e => e.extent
  | .variable v => v.extent
  | .parameter p => p.param.info.extent

def metadata : Element → List Metadatum
  | .class c => c.decl.metadata
  | .executable e => e.metadata
  | .variable v => v.metadata
  | .parameter p => p.param.metadata

def isPrivate (e : Element) : Bool := e.name.startsWith "_"

def toClass? : Element → Option ClassElement
  | .class c => some c
  | _ => none

def toExecutable? : Element → Option ExecutableElement
  | .executable e => some e
  | _ => none

def toVar? : Element → Option VariableElement
  | .variable v => some v
  | _ => none

def isBinding : Element → Bool
  | .variable _ | .parameter _ => true
  | .class _ | .executable _ => false

/-- The name with the class around it; a constructor without a name is called
`new` there. -/
def qualifiedName (e : Element) : String :=
  match e with
  | .executable x =>
    match x.kind, x.owner with
    | .constructor, owner =>
      ((owner.map ClassElement.name).getD "?") ++ "." ++
        (if x.name = "" then "new" else x.name)
    | _, some c => c.name ++ "." ++ x.name
    | _, none => x.name
  | _ =>
    match e.owner with
    | some c => c.name ++ "." ++ e.name
    | none => e.name

end Element

/-- What can be read or written like a field of a class: a field, or a getter
or setter. -/
inductive Property
  | field (element : VariableElement)
  | accessor (element : ExecutableElement)

namespace Property

def toElement : Property → Element
  | .field v => .variable v
  | .accessor e => .executable e

def isStatic : Property → Bool
  | .field v => v.isStatic
  | .accessor e => e.isStatic

end Property

end CheckedThrows
