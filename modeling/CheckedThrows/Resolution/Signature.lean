import CheckedThrows.Resolution.Facts

/-!
# Signatures

The types written in a library are classes found by name from its top level,
and function types made of them.  A name that is no class is reported, and its
type is unknown.  A field formal without a type has that of its field.
-/

namespace CheckedThrows

open Resolving

def resolveTypeName (w : Workspace) (uri : String) (t : TypeName) : Resolving TypeId :=
  match t.name with
  | "dynamic" => return .dynamic
  | "void" => return .void
  | "Never" => return .never
  | name =>
    match w.libraries.classNamed? uri name with
    | some c => return c.type
    | none => do
      warn "undefined_class" (.ofExtent uri t.info.extent) ("Undefined class '" ++ name ++ "'.")
      return .unknown

mutual

def resolveType (w : Workspace) (uri : String) : TypeRef → Resolving TypeId
  | .named t => resolveTypeName w uri t
  | .function _ returns params _ => do
    let returns ← resolveType? w uri returns
    newFunction (← resolveTypes w uri params) returns

/-- Where no type is written, it is `dynamic`. -/
def resolveType? (w : Workspace) (uri : String) : Option TypeRef → Resolving TypeId
  | none => return .dynamic
  | some t => resolveType w uri t

def resolveTypes (w : Workspace) (uri : String) : List TypeRef → Resolving (List TypeId)
  | [] => return []
  | t :: rest => return (← resolveType w uri t) :: (← resolveTypes w uri rest)

end

def formalField? (w : Workspace) (owner : Option ClassElement) (name : String) :
    Option VariableElement :=
  match owner.bind fun c => (w.classInfo? c.type).bind fun i => i.members.getters.lookup name with
  | some (.field v) => some v
  | _ => none

def resolveParamType (w : Workspace) (uri : String) (owner : Option ClassElement) (p : Param) :
    Resolving TypeId :=
  if p.isFieldFormal ∧ p.type.isNone then
    match formalField? w owner p.name with
    | some v => return (← get).variableType v
    | none => do
      warn "invalid_field_formal" (.ofExtent uri p.info.extent)
        ("'" ++ p.name ++ "' isn't a field in the enclosing class.")
      return .dynamic
  else resolveType? w uri p.type

def declareParam (uri : String) (p : Param) (index : Nat) (type : TypeId) :
    Resolving ParameterElement := do
  let element : ParameterElement := ⟨p, uri, index, type⟩
  setDeclared p.id (.parameter element)
  return element

def declareParams (w : Workspace) (uri : String) (owner : Option ClassElement) (index : Nat) :
    List Param → Resolving (List ParameterElement)
  | [] => return []
  | p :: rest => do
    let element ← declareParam uri p index (← resolveParamType w uri owner p)
    return element :: (← declareParams w uri owner (index + 1) rest)

/-- Finds the signature of a declaration, of a member if it has an owner. -/
def resolveSignature (w : Workspace) (uri : String) (owner : Option ClassElement)
    (d : FunctionDecl) : Resolving Signature := do
  let params ← declareParams w uri owner 0 d.params
  let returns ←
    match d.kind, owner with
    | .constructor, some c => pure c.type
    | .setter, _ => pure TypeId.void
    | _, _ => resolveType? w uri d.returns
  let type ← newFunction (params.map ParameterElement.type) returns
  let signature := ⟨params, returns, type⟩
  setSignature d.id signature
  return signature

def isDeclared (node : NodeId) : Resolving Bool :=
  return ((← get).declared[node]?).isSome

def resolveVariableType (w : Workspace) (uri : String) (d : VarDecl) : Resolving Unit := do
  if ← isDeclared d.id then
    setVariableType d.id (← resolveType? w uri d.type)

def resolveFunctionSignature (w : Workspace) (uri : String) (owner : Option ClassElement)
    (d : FunctionDecl) : Resolving Unit := do
  if ← isDeclared d.id then
    let _ ← resolveSignature w uri owner d

/-- Signatures of the members of a class: the fields first, because field
formals take their types from them. -/
def resolveClassSignatures (w : Workspace) (c : ClassElement) : Resolving Unit := do
  (c.decl.members.filterMap Member.toVar?).forM (resolveVariableType w c.library)
  (c.decl.members.filterMap Member.toFunction?).forM
    (resolveFunctionSignature w c.library (some c))
  match (w.constructor? c "").map ExecutableElement.origin with
  | some (.implicit d) =>
    setSignature d.id ⟨[], c.type, ← newFunction [] c.type⟩
  | _ => return

def resolveDeclarationSignature (w : Workspace) (uri : String) (d : Declaration) :
    Resolving Unit := do
  match d with
  | .class d =>
    match ((← get).declared[d.id]?).bind Element.toClass? with
    | some c => resolveClassSignatures w c
    | none => return
  | .function d => resolveFunctionSignature w uri none d
  | .variable d => resolveVariableType w uri d

def resolveSignatures (w : Workspace) : Resolving Unit :=
  w.libraries.forM fun l => l.unit.declarations.forM (resolveDeclarationSignature w l.uri)

end CheckedThrows
