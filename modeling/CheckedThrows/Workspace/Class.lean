import CheckedThrows.NameTable
import CheckedThrows.Workspace.Library

/-!
# Classes

A class has a superclass and interfaces, found by name, and tables of its
members.  Only the core class `Object` need not have a superclass: where none
is written, or none is found, it is `Object`.  Fields and accessors share the
tables of getters and setters, so a field that can be assigned is in both.  A
class that declares no constructor has one all the same.
-/

namespace CheckedThrows

structure Members where
  methods : NameTable ExecutableElement := []
  getters : NameTable Property := []
  setters : NameTable Property := []
  constructors : NameTable ExecutableElement := []
  /-- The elements of the member declarations that count, in source order. -/
  accepted : List Element := []

namespace Members

def alreadyDefined (uri name : String) (place : Extent) : Diagnostic :=
  Library.alreadyDefined uri (if name = "" then "<unnamed constructor>" else name) place

/-- Whether the name of a member is free in the table that it belongs to. -/
def isFree (m : Members) : Member → Bool
  | .variable d => (m.getters.lookup d.name).isNone
  | .function d =>
    match d.kind with
    | .getter => (m.getters.lookup d.name).isNone
    | .setter => (m.setters.lookup d.name).isNone
    | .constructor => (m.constructors.lookup d.name).isNone
    | _ => (m.methods.lookup d.name).isNone

def addVariable (owner : ClassElement) (m : Members) (d : VarDecl) : Members :=
  let v : VariableElement := ⟨.declared d, owner.library, some owner⟩
  let isAssignable := !(d.modifiers.isFinal || d.modifiers.isConst)
  { m with
    getters := m.getters ++ [(d.name, .field v)]
    setters := if isAssignable then NameTable.insert d.name (.field v) m.setters else m.setters
    accepted := m.accepted ++ [.variable v] }

def addFunction (owner : ClassElement) (m : Members) (d : FunctionDecl) : Members :=
  let e : ExecutableElement := ⟨.declared d, owner.library, some owner⟩
  let m : Members := { m with accepted := m.accepted ++ [.executable e] }
  match d.kind with
  | .getter => { m with getters := m.getters ++ [(d.name, .accessor e)] }
  | .setter => { m with setters := m.setters ++ [(d.name, .accessor e)] }
  | .constructor => { m with constructors := m.constructors ++ [(d.name, e)] }
  | _ => { m with methods := m.methods ++ [(d.name, e)] }

def declareAll (owner : ClassElement) (m : Members) :
    List Member → Members × List Diagnostic
  | [] => (m, [])
  | d :: rest =>
    if m.isFree d then
      declareAll owner
        (match d with
          | .variable v => m.addVariable owner v
          | .function f => m.addFunction owner f)
        rest
    else
      let (m, warnings) := declareAll owner m rest
      (m, alreadyDefined owner.library d.name d.info.extent :: warnings)

def implicitConstructor (owner : ClassElement) : ExecutableElement :=
  ⟨.implicit owner.decl, owner.library, some owner⟩

def ofClass (owner : ClassElement) : Members × List Diagnostic :=
  let (m, warnings) := declareAll owner {} owner.decl.members
  if m.constructors.isEmpty then
    ({ m with constructors := [("", implicitConstructor owner)] }, warnings)
  else (m, warnings)

end Members

/-- A class with what it extends and implements, and its members. -/
structure ClassInfo where
  element : ClassElement
  superclass : Option ClassElement := none
  interfaces : List ClassElement := []
  members : Members := {}

namespace ClassInfo

def type (c : ClassInfo) : TypeId := c.element.type

def parents (c : ClassInfo) : List ClassElement :=
  c.superclass.toList ++ c.interfaces

/-- The class that a header names; if there is none, that is reported. -/
def headerClass (ls : Libraries) (uri : String) (t : TypeName) :
    Option ClassElement × List Diagnostic :=
  match ls.classNamed? uri t.name with
  | some c => (some c, [])
  | none =>
    (none, [warning "undefined_class" (.ofExtent uri t.info.extent)
      ("Undefined class '" ++ t.name ++ "'.")])

/-- Links the header of a class, given the class `Object` of the core library. -/
def link (ls : Libraries) (object : Option ClassElement) (c : ClassElement) :
    ClassInfo × List Diagnostic :=
  let named := c.decl.superclass.map (headerClass ls c.library)
  let interfaces := c.decl.interfaces.map (headerClass ls c.library)
  let superclass := (named.bind (·.1)).or (object.filter fun o => o.type ≠ c.type)
  ({ element := c, superclass, interfaces := interfaces.filterMap (·.1) },
    ((named.map (·.2)).getD []) ++ interfaces.flatMap (·.2))

end ClassInfo

end CheckedThrows
