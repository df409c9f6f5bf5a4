import CheckedThrows.Workspace.Basic
import Std.Data.TreeMap

/-!
# What is known of the nodes

Resolving a workspace collects facts about its nodes, each under the number of
the node: what names and calls mean, the types of expressions, what is declared
where.  A node about which nothing is found out is in no table.  The types of
variables and the signatures of functions are facts too, because they become
known, and for variables also change, while the bodies are gone through.
-/

namespace CheckedThrows

/-- The parameters, the result and the function type of an executable. -/
structure Signature where
  params : List ParameterElement
  returns : TypeId
  type : TypeId

/-- What is worth telling to someone who follows the run. -/
inductive Notice
  | noCore
  | unresolvedMember (name : String) (span : Span)
  | unresolvedMethod (name : String) (span : Span)
  | resolved (libraries typedExpressions : Nat)
  deriving DecidableEq, Repr

def Notice.message : Notice → String
  | .noCore => "no " ++ Library.coreUri ++ " library in the workspace; core types unavailable"
  | .unresolvedMember name span =>
    "unresolved member '" ++ name ++ "' at " ++ span.render
  | .unresolvedMethod name span =>
    "unresolved method '" ++ name ++ "' at " ++ span.render
  | .resolved libraries typedExpressions =>
    "resolved " ++ toString libraries ++ " libraries, " ++ toString typedExpressions ++
      " typed expressions"

abbrev NodeMap (α : Type) := Std.TreeMap NodeId α

structure Facts where
  types : TypeTable
  /-- The element that a declaration declares. -/
  declared : NodeMap Element := {}
  /-- By declaration; that of an implicit constructor is under its class. -/
  signatures : NodeMap Signature := {}
  /-- By declaration. -/
  variableTypes : NodeMap TypeId := {}
  staticTypes : NodeMap TypeId := {}
  /-- What a name, member, call or metadata entry means. -/
  meanings : NodeMap Element := {}
  /-- What an assignment or a step reads before it writes. -/
  reads : NodeMap Element := {}
  /-- What an assignment or a step writes. -/
  writes : NodeMap Element := {}
  /-- The operator that an expression applies. -/
  operators : NodeMap ExecutableElement := {}
  /-- The parameter that an argument is for. -/
  arguments : NodeMap ParameterElement := {}
  /-- The type that a `catch` clause is for. -/
  catchTypes : NodeMap TypeId := {}
  warnings : List Diagnostic := []
  notices : List Notice := []
  /-- The numbers of values that are called and have a type in no table. -/
  faults : List UnknownType := []

namespace Facts

def initial (w : Workspace) : Facts where
  types := w.types
  declared := w.accepted.foldl (fun declared e => declared.insert e.id.node e) {}
  notices := if (w.libraries.find? Library.coreUri).isNone then [.noCore] else []

/-- A well-known class, or `dynamic` where the core library lacks it. -/
def coreType (f : Facts) (name : String) : TypeId :=
  (f.types.coreType name).getD .dynamic

def objectType (f : Facts) : TypeId :=
  f.types.object.getD .dynamic

def signature? (f : Facts) (e : ExecutableElement) : Option Signature :=
  f.signatures[e.id.node]?

def paramsOf (f : Facts) (e : ExecutableElement) : List ParameterElement :=
  ((f.signature? e).map Signature.params).getD []

def returnType (f : Facts) (e : ExecutableElement) : TypeId :=
  ((f.signature? e).map Signature.returns).getD .dynamic

def functionType (f : Facts) (e : ExecutableElement) : TypeId :=
  ((f.signature? e).map Signature.type).getD .dynamic

def variableType (f : Facts) (v : VariableElement) : TypeId :=
  match v.origin with
  | .declared d => (f.variableTypes[d.id]?).getD .dynamic
  | .exception _ _ type => type
  | .stackTrace _ _ type => type

/-- The type of an element that stands as an expression. -/
def typeOf (f : Facts) : Element → TypeId
  | .class _ => f.coreType "Type"
  | .executable e => if e.kind = .getter then f.returnType e else f.functionType e
  | .variable v => f.variableType v
  | .parameter p => p.type

/-- The type of what is written through an element: for a setter or an index
operator, that of its last parameter. -/
def writtenType (f : Facts) : Element → TypeId
  | .executable e => (((f.paramsOf e).getLast?).map ParameterElement.type).getD .dynamic
  | e => f.typeOf e

end Facts

abbrev Resolving := StateM Facts

namespace Resolving

def warn (code : String) (span : Span) (message : Text) : Resolving Unit :=
  modify fun f => { f with warnings := f.warnings ++ [warning code span message] }

def notice (n : Notice) : Resolving Unit :=
  modify fun f => { f with notices := f.notices ++ [n] }

def newFunction (params : List TypeId) (returns : TypeId) : Resolving TypeId :=
  modifyGet fun f =>
    let (type, types) := f.types.newFunction params (some returns)
    (type, { f with types })

def setDeclared (node : NodeId) (e : Element) : Resolving Unit :=
  modify fun f => { f with declared := f.declared.insert node e }

def setSignature (node : NodeId) (s : Signature) : Resolving Unit :=
  modify fun f => { f with signatures := f.signatures.insert node s }

def setVariableType (node : NodeId) (type : TypeId) : Resolving Unit :=
  modify fun f => { f with variableTypes := f.variableTypes.insert node type }

def setType (node : NodeId) (type : TypeId) : Resolving Unit :=
  modify fun f => { f with staticTypes := f.staticTypes.insert node type }

def setMeaning (node : NodeId) (e : Element) : Resolving Unit :=
  modify fun f => { f with meanings := f.meanings.insert node e }

def setRead (node : NodeId) (e : Element) : Resolving Unit :=
  modify fun f => { f with reads := f.reads.insert node e }

def setWrite (node : NodeId) (e : Element) : Resolving Unit :=
  modify fun f => { f with writes := f.writes.insert node e }

def setOperator (node : NodeId) (e : ExecutableElement) : Resolving Unit :=
  modify fun f => { f with operators := f.operators.insert node e }

def setArgument (node : NodeId) (p : ParameterElement) : Resolving Unit :=
  modify fun f => { f with arguments := f.arguments.insert node p }

def setCatchType (node : NodeId) (type : TypeId) : Resolving Unit :=
  modify fun f => { f with catchTypes := f.catchTypes.insert node type }

def fail (fault : UnknownType) : Resolving Unit :=
  modify fun f => { f with faults := f.faults ++ [fault] }

def callResult (type : TypeId) : Resolving TypeId := do
  match (← get).types.get type with
  | .ok (.function _ (some returns)) => return returns
  | .ok _ => return .dynamic
  | .error fault =>
    fail fault
    return .dynamic

/-- Gives an expression the type that is found for it. -/
def typed (node : NodeId) (find : Resolving TypeId) : Resolving TypeId := do
  let type ← find
  setType node type
  return type

end Resolving

end CheckedThrows
