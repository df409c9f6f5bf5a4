import CheckedThrows.Resolution.Facts

/-!
# Looking up names

From inside a body a name is looked for in the blocks around it, innermost
first, then among the members of the class around it, inherited ones included,
then at the top level of the library and in its imports.  In a static context
an instance member hides nothing and is not found.
-/

namespace CheckedThrows

/-- Where a body, an initial value or a metadata entry stands. -/
structure BodyContext where
  workspace : Workspace
  library : String
  owner : Option ClassElement := none
  isStatic : Bool := false

namespace BodyContext

/-- An element that is seen from the context, given whether it is static. -/
def visible (ctx : BodyContext) (isStatic : Bool) : Bool :=
  !ctx.isStatic || isStatic

def readMember? (ctx : BodyContext) (name : String) : Option Element := do
  let c ← ctx.owner
  match ctx.workspace.getter? c name none with
  | some p => if ctx.visible p.isStatic then some p.toElement else none
  | none =>
    let m ← ctx.workspace.method? c name none
    if ctx.visible m.isStatic then some (.executable m) else none

def writeMember? (ctx : BodyContext) (name : String) : Option Element := do
  let p ← (← ctx.owner.map fun c => ctx.workspace.setter? c name none)
  if ctx.visible p.isStatic then some p.toElement else none

/-- What a name means where it is read; `scope` has the names of the blocks
around, innermost first. -/
def lookupRead (ctx : BodyContext) (scope : Names) (name : String) : Option Element :=
  match scope.lookup name with
  | some e => some e
  | none =>
    match ctx.readMember? name with
    | some e => some e
    | none => ctx.workspace.libraries.lookup ctx.library name

/-- What a name means where it is written.  A setter, imported ones included,
comes before a variable. -/
def lookupWrite (ctx : BodyContext) (scope : Names) (name : String) : Option Element :=
  match scope.lookup name with
  | some e => if e.isBinding then some e else none
  | none =>
    match ctx.writeMember? name with
    | some e => some e
    | none =>
      match ctx.workspace.libraries.lookup ctx.library (name ++ "=") with
      | some e => some e
      | none =>
        (ctx.workspace.libraries.lookup ctx.library name).filter fun e =>
          e.toVar?.isSome

def classNamed? (ctx : BodyContext) (scope : Names) : Expr → Option ClassElement
  | .name _ name => (ctx.lookupRead scope name).bind Element.toClass?
  | _ => none

end BodyContext

namespace Workspace

def readOf? (w : Workspace) (c : ClassElement) (static : Bool) (name : String) : Option Element :=
  match w.getter? c name static with
  | some p => some p.toElement
  | none => (w.method? c name static).map .executable

/-- What `c.name` means where it is called; of a class named itself, also a
named constructor. -/
def calleeOf? (w : Workspace) (c : ClassElement) (static : Bool) (name : String) :
    Option Element :=
  match w.method? c name static with
  | some m => some (.executable m)
  | none =>
    match if static then w.constructor? c name else none with
    | some e => some (.executable e)
    | none => (w.getter? c name static).map Property.toElement

end Workspace

end CheckedThrows
