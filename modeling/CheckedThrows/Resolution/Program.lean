import CheckedThrows.Resolution.Body

/-!
# Resolved programs

Once the signatures of the whole workspace are known, the bodies are gone
through library by library: first the top-level variables, then the classes,
their fields before their functions, then the top-level functions.  The result
answers what is known of any node.
-/

namespace CheckedThrows

open Resolving

def resolveDeclaredFunction (ctx : BodyContext) (d : FunctionDecl) : Resolving Unit := do
  match ((← get).declared[d.id]?).bind Element.toExecutable? with
  | some e => resolveFunction ctx [] ((← get).paramsOf e) d
  | none => return

def resolveClassBodies (ctx : BodyContext) (c : ClassElement) : Resolving Unit := do
  resolveMetadata ctx [] c.decl.metadata
  (c.decl.members.filterMap Member.toVar?).forM fun d =>
    resolveVariable { ctx with owner := some c, isStatic := d.modifiers.isStatic } [] d
  (c.decl.members.filterMap Member.toFunction?).forM fun d =>
    resolveDeclaredFunction { ctx with owner := some c, isStatic := d.modifiers.isStatic } d

def resolveLibrary (w : Workspace) (l : Library) : Resolving Unit := do
  let ctx : BodyContext := { workspace := w, library := l.uri }
  (l.unit.declarations.filterMap Declaration.toVar?).forM (resolveVariable ctx [])
  (l.unit.declarations.filterMap Declaration.toClass?).forM fun d => do
    match ((← get).declared[d.id]?).bind Element.toClass? with
    | some c => resolveClassBodies ctx c
    | none => return
  (l.unit.declarations.filterMap Declaration.toFunction?).forM (resolveDeclaredFunction ctx)

def resolveWorkspace (w : Workspace) : Resolving Unit := do
  resolveSignatures w
  w.libraries.forM (resolveLibrary w)
  notice (.resolved w.libraries.length (← get).staticTypes.size)

/-- A workspace with what is known of its nodes. -/
structure Program where
  workspace : Workspace
  facts : Facts

namespace Program

def ofUnits (units : List CompilationUnit) : Program :=
  let w := Workspace.ofUnits units
  ⟨w, ((resolveWorkspace w).run (Facts.initial w)).2⟩

def warnings (p : Program) : List Diagnostic :=
  p.workspace.warnings ++ p.facts.warnings

/-- The numbers of types that were needed and are in no table. -/
def faults (p : Program) : List UnknownType :=
  p.workspace.faults ++ p.facts.faults

def types (p : Program) : TypeTable := p.facts.types

def staticType? (p : Program) (node : NodeId) : Option TypeId :=
  p.facts.staticTypes[node]?

def meaning? (p : Program) (node : NodeId) : Option Element :=
  p.facts.meanings[node]?

def read? (p : Program) (node : NodeId) : Option Element :=
  p.facts.reads[node]?

def write? (p : Program) (node : NodeId) : Option Element :=
  p.facts.writes[node]?

def operator? (p : Program) (node : NodeId) : Option ExecutableElement :=
  p.facts.operators[node]?

def declared? (p : Program) (node : NodeId) : Option Element :=
  p.facts.declared[node]?

def parameterFor? (p : Program) (node : NodeId) : Option ParameterElement :=
  p.facts.arguments[node]?

def catchType? (p : Program) (node : NodeId) : Option TypeId :=
  p.facts.catchTypes[node]?

/-- The type that is written, or found, for a declared element. -/
def declaredType? (p : Program) : Element → Option TypeId
  | .class _ => none
  | .executable e => (p.facts.signature? e).map Signature.type
  | .variable v => some (p.facts.variableType v)
  | .parameter e => some e.type

/-- The class that a name denotes as seen from outside a library. -/
def typeNamed? (p : Program) (uri name : String) : Option TypeId :=
  p.workspace.libraries.typeNamed? uri name

end Program

end CheckedThrows
