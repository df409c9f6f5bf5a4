import CheckedThrows.Workspace.Class

/-!
# Workspaces

A workspace is a set of libraries linked with each other, before any body is
looked at.  It is made in four steps over all units, so that declarations can
refer to each other whatever their order: declarations, directives, class
headers, members.  Of units with the same uri only the first counts.
-/

namespace CheckedThrows

namespace TypeId

/-! The types that are there before any class is. -/

def dynamic : TypeId := 1
def void : TypeId := 2
def never : TypeId := 3
def unknown : TypeId := 4

end TypeId

namespace TypeTable

def initial : TypeTable where
  defs := #[.dynamic, .void, .never, .unknown]

end TypeTable

structure Workspace where
  libraries : Libraries := []
  classes : List ClassInfo := []
  types : TypeTable := .initial
  warnings : List Diagnostic := []
  /-- The numbers of classes that are linked and in no table. -/
  faults : List UnknownType := []

namespace Workspace

def duplicateLibrary (u : CompilationUnit) : Diagnostic :=
  warning "duplicate_library" u.span ("Duplicate library '" ++ u.uri ++ "' ignored.")

def addUnit (w : Workspace) (u : CompilationUnit) : Workspace :=
  if (w.libraries.find? u.uri).isSome then
    { w with warnings := w.warnings ++ [duplicateLibrary u] }
  else
    let (l, types, warnings) := Library.ofUnit w.types u
    { w with libraries := w.libraries ++ [l], types, warnings := w.warnings ++ warnings }

def declare (units : List CompilationUnit) : Workspace :=
  units.foldl addUnit {}

def linkDirectives (w : Workspace) : Workspace :=
  let known := w.libraries.map Library.uri
  let linked := w.libraries.map (Library.link known)
  { w with libraries := linked.map (·.1), warnings := w.warnings ++ linked.flatMap (·.2) }

/-- The classes of the core library that the language itself refers to. -/
def wellKnown : List String := [
  "Object", "Null", "bool", "num", "int", "double", "String", "Type", "StackTrace",
  "Exception", "Error", "Iterable", "List", "Map"]

def coreClass? (w : Workspace) (name : String) : Option ClassElement :=
  (w.libraries.find? Library.coreUri).bind fun l => l.classNamed? name

def registerCore (w : Workspace) : Workspace :=
  let register (types : TypeTable) (name : String) : TypeTable :=
    match w.coreClass? name with
    | some c => types.registerCore name c.type
    | none => types
  let types := wellKnown.foldl register w.types
  match w.coreClass? "Object" with
  | some object => { w with types := types.markObject object.type }
  | none => { w with types }

/-- Whether a class is the one that its name means in its library. -/
def counts (l : Library) (c : ClassElement) : Bool :=
  (l.declared? c.decl.id).isSome

def linkClass (w : Workspace) (l : Library) (c : ClassElement) : ClassInfo × List Diagnostic :=
  if counts l c then ClassInfo.link w.libraries (w.coreClass? "Object") c
  else ({ element := c }, [])

def enterParents (entered : TypeTable × List UnknownType) (c : ClassInfo) :
    TypeTable × List UnknownType :=
  match entered.1.setSupertypes c.type (c.parents.map ClassElement.type) with
  | .ok types => (types, entered.2)
  | .error fault => (entered.1, entered.2 ++ [fault])

def linkClasses (w : Workspace) : Workspace :=
  let linked := w.libraries.flatMap fun l => l.classes.map (w.linkClass l)
  let classes := linked.map (·.1)
  let (types, faults) := classes.foldl enterParents (w.types, w.faults)
  { w with classes, types, faults, warnings := w.warnings ++ linked.flatMap (·.2) }

def declareMembers (w : Workspace) : Workspace :=
  let withMembers := w.classes.map fun c =>
    if (w.libraries.find? c.element.library).any fun l => counts l c.element then
      let (members, warnings) := Members.ofClass c.element
      ({ c with members }, warnings)
    else (c, [])
  { w with classes := withMembers.map (·.1)
           warnings := w.warnings ++ withMembers.flatMap (·.2) }

def ofUnits (units : List CompilationUnit) : Workspace :=
  (declare units).linkDirectives.registerCore.linkClasses.declareMembers

/-! What the parts of a workspace mean. -/

def classInfo? (w : Workspace) (type : TypeId) : Option ClassInfo :=
  w.classes.find? fun c => c.type = type

def classOf? (w : Workspace) (type : TypeId) : Option ClassElement :=
  (w.classInfo? type).map ClassInfo.element

def parentTypes (w : Workspace) (type : TypeId) : List TypeId :=
  ((w.classInfo? type).map fun c => c.parents.map ClassElement.type).getD []

def parentCount (w : Workspace) : Nat :=
  total (fun c => c.parents.length) w.classes

/-- A class and those it inherits from, nearest first and each once. -/
def hierarchy (w : Workspace) (c : ClassElement) : List ClassInfo :=
  (breadthFirst w.parentTypes (w.parentCount + 2) [] [c.type]).filterMap w.classInfo?

/-- The first entry of a name in the tables of a class and of those it inherits
from; if it matters, only static or only instance members are considered. -/
def lookupMember {α : Type} (w : Workspace) (table : Members → NameTable α)
    (isStatic : α → Bool) (static : Option Bool) (c : ClassElement) (name : String) : Option α :=
  (w.hierarchy c).findSome? fun info =>
    ((table info.members).lookup name).filter fun m => static.all fun s => isStatic m = s

def method? (w : Workspace) (c : ClassElement) (name : String) (static : Option Bool) :
    Option ExecutableElement :=
  w.lookupMember Members.methods ExecutableElement.isStatic static c name

def getter? (w : Workspace) (c : ClassElement) (name : String) (static : Option Bool) :
    Option Property :=
  w.lookupMember Members.getters Property.isStatic static c name

def setter? (w : Workspace) (c : ClassElement) (name : String) (static : Option Bool) :
    Option Property :=
  w.lookupMember Members.setters Property.isStatic static c name

def constructor? (w : Workspace) (c : ClassElement) (name : String) :
    Option ExecutableElement :=
  (w.classInfo? c.type).bind fun info => info.members.constructors.lookup name

/-- The elements of all top-level and member declarations that count. -/
def accepted (w : Workspace) : List Element :=
  (w.libraries.flatMap fun l => l.scope.map (·.2)) ++
    w.classes.flatMap fun c => c.members.accepted

end Workspace

end CheckedThrows
