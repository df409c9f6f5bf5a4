import CheckedThrows.Resolution.Lookup
import CheckedThrows.Resolution.Signature

/-!
# Bodies

Expressions and statements are gone through in source order.  Every expression
gets a type, if only `dynamic`.  A block hands the names it declares from each
statement to the next; what a function, clause or literal declares is seen in
its own body only.  A local variable is not seen in its own initial value, and
a local function is seen in its own body.

What an assignment or a step writes, and what it reads before, is noted at the
expression itself and not at its target, so a target is never taken for a plain
read.
-/

namespace CheckedThrows

open Resolving

def literalType : Literal → String
  | .null => "Null"
  | .bool _ => "bool"
  | .int _ => "int"
  | .double _ => "double"
  | .string _ => "String"

/-- The type of the receiver of the enclosing method. -/
def selfType (ctx : BodyContext) : TypeId :=
  match ctx.owner with
  | some c => if ctx.isStatic then .unknown else c.type
  | none => .unknown

def undefinedName (ctx : BodyContext) (info : NodeInfo) (name : String) : Resolving Unit :=
  warn "undefined_identifier" (.ofExtent ctx.library info.extent)
    ("Undefined name '" ++ name ++ "'.")

def resolveName (ctx : BodyContext) (scope : Names) (info : NodeInfo) (name : String) :
    Resolving TypeId := do
  match ctx.lookupRead scope name with
  | some e =>
    setMeaning info.id e
    return (← get).typeOf e
  | none =>
    undefinedName ctx info name
    return .unknown

/-- What stands before a dot: a class named itself, or a value of a class. -/
structure Receiver where
  cls : Option ClassElement
  isStatic : Bool

/-- Finds the receiver in an expression whose value is found by `value`. -/
def resolveReceiver (ctx : BodyContext) (scope : Names) (target : Expr)
    (value : Resolving TypeId) : Resolving Receiver := do
  match ctx.classNamed? scope target with
  | some c =>
    setMeaning target.id (.class c)
    setType target.id ((← get).coreType "Type")
    return ⟨some c, true⟩
  | none => return ⟨ctx.workspace.classOf? (← value), false⟩

def resolveMember (ctx : BodyContext) (info : NodeInfo) (r : Receiver) (name : String) :
    Resolving TypeId := do
  match r.cls.bind fun c => ctx.workspace.readOf? c r.isStatic name with
  | some e =>
    setMeaning info.id e
    return (← get).typeOf e
  | none =>
    notice (.unresolvedMember name (.ofExtent ctx.library info.extent))
    return .dynamic

def setCallee (node : NodeId) (callee : Option Element) : Resolving (Option Element) := do
  match callee with
  | some e =>
    setMeaning node e
    setType node ((← get).typeOf e)
  | none => setType node .unknown
  return callee

def resolveCalleeName (ctx : BodyContext) (scope : Names) (info : NodeInfo) (name : String) :
    Resolving (Option Element) := do
  let found := ctx.lookupRead scope name
  if found.isNone then undefinedName ctx info name
  setCallee info.id found

def resolveCalleeMember (ctx : BodyContext) (info : NodeInfo) (r : Receiver) (name : String) :
    Resolving (Option Element) := do
  let found := r.cls.bind fun c => ctx.workspace.calleeOf? c r.isStatic name
  if found.isNone then
    notice (.unresolvedMethod name (.ofExtent ctx.library info.extent))
  setCallee info.id found

/-- What a call executes, the parameters it has arguments for, and its type. -/
structure Invocation where
  executable : Option ExecutableElement := none
  params : List ParameterElement := []
  result : TypeId := .dynamic

def invoke (w : Workspace) : Element → Resolving Invocation
  | .class c => do
    let e := w.constructor? c ""
    return ⟨e, (e.map (← get).paramsOf).getD [], c.type⟩
  | .executable e => do
    let f ← get
    match e.kind, e.owner with
    | .constructor, some c => return ⟨some e, f.paramsOf e, c.type⟩
    | .getter, _ => return ⟨some e, [], ← callResult (f.returnType e)⟩
    | _, _ => return ⟨some e, f.paramsOf e, f.returnType e⟩
  | e => do return { result := ← callResult ((← get).typeOf e) }

def noteInvocation (node : NodeId) (i : Invocation) : Resolving Unit :=
  match i.executable with
  | some e => setMeaning node (.executable e)
  | none => return

/-- Applies an operator method of a receiver, if it has one. -/
def applyOperator (ctx : BodyContext) (node : NodeId) (receiver : TypeId) (name : String) :
    Resolving TypeId := do
  let found := (ctx.workspace.classOf? receiver).bind fun c =>
    ctx.workspace.method? c name (some false)
  match found with
  | some op =>
    setOperator node op
    return (← get).returnType op
  | none => return .dynamic

def applyBinary (ctx : BodyContext) (node : NodeId) (op : BinaryOp) (left : TypeId) :
    Resolving TypeId := do
  match op with
  | .and | .or => return (← get).coreType "bool"
  | .equal | .notEqual =>
    let _ ← applyOperator ctx node left BinaryOp.equal.spelling
    return (← get).coreType "bool"
  | op => applyOperator ctx node left op.spelling

def applyUnary (ctx : BodyContext) (node : NodeId) (op : UnaryOp) (operand : TypeId) :
    Resolving TypeId := do
  match op with
  | .not => return (← get).coreType "bool"
  | .negate => applyOperator ctx node operand "unary-"
  | .complement => applyOperator ctx node operand op.spelling

/-- Notes at `owner` what is written and read through a target, and gives the
target the type of what is read, or else written, there; `readType` is the type
of what is read. -/
def noteTarget (owner target : NodeId) (write read : Option Element)
    (readType : Facts → Element → TypeId) : Resolving TypeId := do
  if let some e := write then setWrite owner e
  if let some e := read then setRead owner e
  let f ← get
  let type :=
    match read, write with
    | some e, _ => readType f e
    | none, some e => f.writtenType e
    | none, none => .dynamic
  setType target type
  return type

def resolveTargetName (ctx : BodyContext) (scope : Names) (owner : NodeId) (reads : Bool)
    (info : NodeInfo) (name : String) : Resolving TypeId := do
  let write := ctx.lookupWrite scope name
  let read := if reads then ctx.lookupRead scope name else none
  if write.isNone ∧ read.isNone then undefinedName ctx info name
  noteTarget owner info.id write read Facts.typeOf

def resolveTargetMember (ctx : BodyContext) (owner : NodeId) (reads : Bool) (info : NodeInfo)
    (r : Receiver) (name : String) : Resolving TypeId :=
  let write := r.cls.bind fun c => ctx.workspace.setter? c name r.isStatic
  let read := if reads then r.cls.bind fun c => ctx.workspace.getter? c name r.isStatic else none
  noteTarget owner info.id (write.map Property.toElement) (read.map Property.toElement) Facts.typeOf

def resolveTargetIndex (ctx : BodyContext) (owner : NodeId) (reads : Bool) (info : NodeInfo)
    (target : TypeId) : Resolving TypeId :=
  let cls := ctx.workspace.classOf? target
  let write := cls.bind fun c => ctx.workspace.method? c "[]=" (some false)
  let read := if reads then cls.bind fun c => ctx.workspace.method? c "[]" (some false) else none
  noteTarget owner info.id (write.map .executable) (read.map .executable) fun f e =>
    match e with
    | .executable e => f.returnType e
    | e => f.typeOf e

/-- Finds what a metadata entry means: a constructor or a variable. -/
def resolveEntryName (ctx : BodyContext) (scope : Names) (info : NodeInfo) (name : String) :
    Resolving Unit := do
  match ctx.lookupRead scope name with
  | some (.class c) =>
    match ctx.workspace.constructor? c "" with
    | some e => setMeaning info.id (.executable e)
    | none => return
  | some (.variable v) => setMeaning info.id (.variable v)
  | _ =>
    warn "undefined_annotation" (.ofExtent ctx.library info.extent)
      ("Undefined name '" ++ name ++ "' used as an annotation.")

/-- Gives a variable without a written type that of its initial value. -/
def inferVariable (node : NodeId) (written : Option TypeRef) (type : TypeId) :
    Resolving Unit := do
  if written.isNone ∧ (← isDeclared node) then setVariableType node type

/-- Finds the type of a `catch` clause and that of the exception it binds. -/
def resolveClauseType (ctx : BodyContext) (node : NodeId) (written : Option TypeRef) :
    Resolving TypeId := do
  match written with
  | none => return (← get).objectType
  | some t =>
    let type ← resolveType ctx.workspace ctx.library t
    if type = .unknown then return (← get).objectType
    else
      setCatchType node type
      return type

def clauseNames (ctx : BodyContext) (f : Facts) (c : CatchClause) (type : TypeId) : Names :=
  let exception := c.binder.map fun name =>
    (name, Element.variable ⟨.exception c name type, ctx.library, none⟩)
  let stackTrace := c.stackBinder.map fun name =>
    (name, Element.variable ⟨.stackTrace c name (f.coreType "StackTrace"), ctx.library, none⟩)
  stackTrace.toList ++ exception.toList

mutual

def resolveExpr (ctx : BodyContext) (scope : Names) : Expr → Resolving TypeId
  | .name info name => typed info.id (resolveName ctx scope info name)
  | .literal info value => typed info.id do
    return (← get).coreType (literalType value)
  | .list info items => typed info.id do
    resolveExprs ctx scope items
    return (← get).coreType "List"
  | .self info => typed info.id (return selfType ctx)
  | .member info target name => typed info.id do
    let r ← resolveReceiver ctx scope target (resolveExpr ctx scope target)
    resolveMember ctx info r name
  | .call info callee args _ => typed info.id do
    let i ←
      if callee.isNamed then do
        match ← resolveCallee ctx scope callee with
        | some e => invoke ctx.workspace e
        | none => pure {}
      else do
        pure { result := ← callResult (← resolveExpr ctx scope callee) }
    noteInvocation info.id i
    resolveArgs ctx scope i.params args
    return i.result
  | .index info target index => typed info.id do
    let receiver ← resolveExpr ctx scope target
    let _ ← resolveExpr ctx scope index
    applyOperator ctx info.id receiver "[]"
  | .binary info op left right => typed info.id do
    let type ← resolveExpr ctx scope left
    let _ ← resolveExpr ctx scope right
    applyBinary ctx info.id op type
  | .unary info op operand => typed info.id do
    let type ← resolveExpr ctx scope operand
    applyUnary ctx info.id op type
  | .step info op _ operand => typed info.id do
    let type ← resolveTarget ctx scope info.id true operand
    let _ ← applyOperator ctx info.id type op.operator.spelling
    return type
  | .assign info op target value => typed info.id do
    let old ← resolveTarget ctx scope info.id op.reads target
    let type ← resolveExpr ctx scope value
    match op with
    | .plain | .ifNull => return type
    | .compound op => applyOperator ctx info.id old op.spelling
  | .throw info value => typed info.id do
    let _ ← resolveExpr ctx scope value
    return .never
  | .rethrow info => typed info.id (return .never)
  | .lambda info params body => typed info.id do
    let elements ← resolveLambdaParams ctx scope 0 params
    let inner := (elements.map fun p => (p.name, Element.parameter p)).reverse ++ scope
    let returns ← resolveBody ctx inner body
    newFunction (elements.map ParameterElement.type) returns

def resolveExprs (ctx : BodyContext) (scope : Names) : List Expr → Resolving Unit
  | [] => return
  | e :: rest => do
    let _ ← resolveExpr ctx scope e
    resolveExprs ctx scope rest

/-- Arguments, each for the parameter in its place if there is one. -/
def resolveArgs (ctx : BodyContext) (scope : Names) :
    List ParameterElement → List Expr → Resolving Unit
  | _, [] => return
  | params, e :: rest => do
    if let some p := params.head? then setArgument e.id p
    let _ ← resolveExpr ctx scope e
    resolveArgs ctx scope params.tail rest

def resolveCallee (ctx : BodyContext) (scope : Names) : Expr → Resolving (Option Element)
  | .name info name => resolveCalleeName ctx scope info name
  | .member info target name => do
    let r ← resolveReceiver ctx scope target (resolveExpr ctx scope target)
    resolveCalleeMember ctx info r name
  | _ => return none

/-- The target of an assignment or a step, with its type. -/
def resolveTarget (ctx : BodyContext) (scope : Names) (owner : NodeId) (reads : Bool) :
    Expr → Resolving TypeId
  | .name info name => resolveTargetName ctx scope owner reads info name
  | .member info target name => do
    let r ← resolveReceiver ctx scope target (resolveExpr ctx scope target)
    resolveTargetMember ctx owner reads info r name
  | .index info target index => do
    let type ← resolveExpr ctx scope target
    let _ ← resolveExpr ctx scope index
    resolveTargetIndex ctx owner reads info type
  | e => noteTarget owner e.id none none Facts.typeOf

/-- The type of what a body gives back: that of a block is not known. -/
def resolveBody (ctx : BodyContext) (scope : Names) : Body → Resolving TypeId
  | .block b => do
    resolveBlock ctx scope b
    return .dynamic
  | .value e => resolveExpr ctx scope e

def resolveBody? (ctx : BodyContext) (scope : Names) : Option Body → Resolving Unit
  | none => return
  | some b => do
    let _ ← resolveBody ctx scope b

def resolveLambdaParams (ctx : BodyContext) (scope : Names) (index : Nat) :
    List Param → Resolving (List ParameterElement)
  | [] => return []
  | p :: rest => do
    resolveParamMetadata ctx scope p
    let type ← resolveType? ctx.workspace ctx.library p.type
    let element ← declareParam ctx.library p index type
    return element :: (← resolveLambdaParams ctx scope (index + 1) rest)

def resolveParamMetadata (ctx : BodyContext) (scope : Names) : Param → Resolving Unit
  | ⟨_, _, _, _, entries⟩ => resolveMetadata ctx scope entries

def resolveParamsMetadata (ctx : BodyContext) (scope : Names) : List Param → Resolving Unit
  | [] => return
  | p :: rest => do
    resolveParamMetadata ctx scope p
    resolveParamsMetadata ctx scope rest

def resolveMetadata (ctx : BodyContext) (scope : Names) : List Metadatum → Resolving Unit
  | [] => return
  | m :: rest => do
    resolveEntry ctx scope m
    resolveMetadata ctx scope rest

def resolveEntry (ctx : BodyContext) (scope : Names) : Metadatum → Resolving Unit
  | ⟨info, name, none⟩ => resolveEntryName ctx scope info name
  | ⟨info, name, some args⟩ => do
    resolveEntryName ctx scope info name
    resolveExprs ctx scope args

def resolveBlock (ctx : BodyContext) (scope : Names) : Block → Resolving Unit
  | ⟨_, statements⟩ => resolveStmts ctx scope statements

def resolveBlock? (ctx : BodyContext) (scope : Names) : Option Block → Resolving Unit
  | none => return
  | some b => resolveBlock ctx scope b

def resolveStmts (ctx : BodyContext) (scope : Names) : List Stmt → Resolving Unit
  | [] => return
  | s :: rest => do
    let scope ← resolveStmt ctx scope s
    resolveStmts ctx scope rest

/-- A statement, with the names that the next one sees. -/
def resolveStmt (ctx : BodyContext) (scope : Names) : Stmt → Resolving Names
  | .block b => do
    resolveBlock ctx scope b
    return scope
  | .expr _ e => do
    let _ ← resolveExpr ctx scope e
    return scope
  | .ret _ value => do
    resolveExpr? ctx scope value
    return scope
  | .branch _ cond thenBlock elseBlock => do
    let _ ← resolveExpr ctx scope cond
    resolveBlock ctx scope thenBlock
    resolveBlock? ctx scope elseBlock
    return scope
  | .loop _ cond body => do
    let _ ← resolveExpr ctx scope cond
    resolveBlock ctx scope body
    return scope
  | .leave _ | .next _ => return scope
  | .guarded _ body catches finallyBlock => do
    resolveBlock ctx scope body
    resolveClauses ctx scope catches
    resolveBlock? ctx scope finallyBlock
    return scope
  | .variable d => do
    let element := Element.variable ⟨.declared d, ctx.library, none⟩
    setVariableType d.id (← resolveType? ctx.workspace ctx.library d.type)
    setDeclared d.id element
    resolveVariable ctx scope d
    return (d.name, element) :: scope
  | .function d => do
    let element := Element.executable ⟨.declared d, ctx.library, none⟩
    let signature ← resolveSignature ctx.workspace ctx.library none d
    setDeclared d.id element
    let inner := (d.name, element) :: scope
    resolveFunction ctx inner signature.params d
    return inner

def resolveExpr? (ctx : BodyContext) (scope : Names) : Option Expr → Resolving Unit
  | none => return
  | some e => do
    let _ ← resolveExpr ctx scope e

def resolveClauses (ctx : BodyContext) (scope : Names) : List CatchClause → Resolving Unit
  | [] => return
  | c :: rest => do
    resolveClause ctx scope c
    resolveClauses ctx scope rest

def resolveClause (ctx : BodyContext) (scope : Names) : CatchClause → Resolving Unit
  | ⟨info, written, binder, stackBinder, body⟩ => do
    let type ← resolveClauseType ctx info.id written
    let names := clauseNames ctx (← get) ⟨info, written, binder, stackBinder, body⟩ type
    resolveBlock ctx (names ++ scope) body

def resolveVariable (ctx : BodyContext) (scope : Names) : VarDecl → Resolving Unit
  | ⟨info, _, _, written, init, _, entries⟩ => do
    resolveMetadata ctx scope entries
    resolveInit ctx scope info.id written init

def resolveInit (ctx : BodyContext) (scope : Names) (node : NodeId) (written : Option TypeRef) :
    Option Expr → Resolving Unit
  | none => return
  | some e => do
    let type ← resolveExpr ctx scope e
    inferVariable node written type

/-- The metadata and the body of a function with the given parameters; field
formals are not seen in the body. -/
def resolveFunction (ctx : BodyContext) (scope : Names) (elements : List ParameterElement) :
    FunctionDecl → Resolving Unit
  | ⟨_, _, _, _, params, _, body, _, entries⟩ => do
    resolveMetadata ctx scope entries
    resolveParamsMetadata ctx scope params
    let names := (elements.filter fun p => !p.isFieldFormal).map fun p =>
      (p.name, Element.parameter p)
    resolveBody? ctx (names.reverse ++ scope) body

end

end CheckedThrows
