import CheckedThrows.Search
import CheckedThrows.Total

/-!
# The table of types

Types are numbered from one in the order in which they enter the table.
Classes enter one by one and are linked to their direct supertypes afterwards,
so that a class may refer to one declared later.  Function types and the four
special types are entered once: asking for one that is in the table gives its
number.  A number that is in no table stands for no type.
-/

namespace CheckedThrows

abbrev TypeId := Int

inductive TypeDef
  | class (name : String) (library : Option String)
  /-- A function of these parameters; its result is not told if `returns` is
  `none`. -/
  | function (params : List TypeId) (returns : Option TypeId)
  | dynamic
  | void
  | never
  | unknown
  deriving DecidableEq, Repr

namespace TypeDef

def name : TypeDef → String
  | .class name _ => name
  | .function _ _ => "Function"
  | .dynamic => "dynamic"
  | .void => "void"
  | .never => "Never"
  | .unknown => "Unknown"

def library : TypeDef → Option String
  | .class _ library => library
  | _ => none

def isClass : TypeDef → Bool
  | .class _ _ => true
  | _ => false

def isTop : TypeDef → Bool
  | .dynamic | .void => true
  | _ => false

end TypeDef

structure TypeTable where
  defs : Array TypeDef := #[]
  /-- The direct supertypes of classes, superclass first. -/
  edges : List (TypeId × List TypeId) := []
  /-- The class above every class. -/
  object : Option TypeId := none
  /-- Well-known classes by name. -/
  core : List (String × TypeId) := []
  deriving DecidableEq

/-- No type, or no class where a class is needed, has this number. -/
structure UnknownType where
  id : TypeId
  deriving DecidableEq, Repr

namespace TypeTable

/-- The number that stands for no type wherever one is asked for. -/
def noType : TypeId := 0

def def? (t : TypeTable) (ty : TypeId) : Option TypeDef :=
  if 0 < ty then t.defs[(ty - 1).toNat]? else none

def get (t : TypeTable) (ty : TypeId) : Except UnknownType TypeDef :=
  match t.def? ty with
  | some d => .ok d
  | none => .error ⟨ty⟩

def add (t : TypeTable) (d : TypeDef) : TypeId × TypeTable :=
  (t.defs.size + 1, { t with defs := t.defs.push d })

/-- The number of a type that is entered at most once. -/
def intern (t : TypeTable) (d : TypeDef) : TypeId × TypeTable :=
  match t.defs.findIdx? (· = d) with
  | some i => (i + 1, t)
  | none => t.add d

def newClass (t : TypeTable) (name : String) (library : Option String) :
    TypeId × TypeTable :=
  t.add (.class name library)

def newFunction (t : TypeTable) (params : List TypeId) (returns : Option TypeId) :
    TypeId × TypeTable :=
  t.intern (.function params returns)

/-- Sets the direct supertypes of a class; the class itself is none of them. -/
def setSupertypes (t : TypeTable) (ty : TypeId) (supertypes : List TypeId) :
    Except UnknownType TypeTable :=
  if (t.def? ty).any TypeDef.isClass then
    let edge := (ty, supertypes.filter (· ≠ ty))
    .ok { t with edges := edge :: t.edges.filter (·.1 ≠ ty) }
  else .error ⟨ty⟩

def supertypes (t : TypeTable) (ty : TypeId) : List TypeId :=
  (t.edges.lookup ty).getD []

def edgeCount (t : TypeTable) : Nat :=
  total (·.2.length) t.edges

/-- The types that can be reached from a type over direct supertypes, nearest
first. -/
def reachable (t : TypeTable) (ty : TypeId) : List TypeId :=
  let queue := t.supertypes ty
  breadthFirst t.supertypes (queue.length + t.edgeCount + 1) [ty] queue

/-- The supertypes of a type other than itself; the topmost class is one of
every class, if there is one. -/
def allSupertypes (t : TypeTable) (ty : TypeId) : Except UnknownType (List TypeId) :=
  let found := t.reachable ty
  match t.object with
  | none => .ok found
  | some object =>
    if object ∈ ty :: found then .ok found
    else do
      let d ← t.get ty
      return if d.isClass then found ++ [object] else found

def markObject (t : TypeTable) (ty : TypeId) : TypeTable :=
  { t with object := some ty }

def registerCore (t : TypeTable) (name : String) (ty : TypeId) : TypeTable :=
  { t with core := (name, ty) :: t.core }

def coreType (t : TypeTable) (name : String) : Option TypeId :=
  t.core.lookup name

/-- The first class of a name, in any library or in the one given. -/
def findClass (t : TypeTable) (name : String) (library : Option String) :
    Option TypeId :=
  (t.defs.findIdx? fun
    | .class n l => n = name && (library.isNone || l = library)
    | _ => false).map fun i => i + 1

def libraryOf (t : TypeTable) (ty : TypeId) : Option String :=
  (t.def? ty).bind TypeDef.library

/-- How a type is written, given how its parts are. -/
def write (t : TypeTable) (written : TypeId → String) (ty : TypeId) : String :=
  match t.def? ty with
  | none => "<invalid>"
  | some (.function params returns) =>
    (returns.map written).getD "dynamic" ++ " Function(" ++
      ", ".intercalate (params.map written) ++ ")"
  | some d => d.name

/-- How a type is written, given fuel for the parts of function types. -/
def displayNameFrom (t : TypeTable) : Nat → TypeId → String
  | 0, _ => "<invalid>"
  | fuel + 1, ty => t.write (t.displayNameFrom fuel) ty

/-- Where no function type is a part of itself, the size of the table bounds how
deep they are nested. -/
def displayName (t : TypeTable) (ty : TypeId) : String :=
  t.displayNameFrom (t.defs.size + 1) ty

/-- Whether the first of two types is below the second, given which pairs of their
parts are. -/
def relate (t : TypeTable) (below : TypeId × TypeId → Bool) : TypeId × TypeId → Bool
  | (sub, sup) =>
    sub = sup ||
      match t.def? sub, t.def? sup with
      | some subDef, some supDef =>
        if supDef.isTop || t.object = some sup || subDef = .never then true
        else
          match subDef, supDef with
          | .function _ _, .class name _ =>
            name = "Function" && t.coreType "Function" = some sup
          | .function params returns, .function params' returns' =>
            params.length = params'.length &&
              (match returns, returns' with
                | some r, some r' => below (r, r')
                | _, _ => true) &&
              (params.zip params').all fun pair => below pair.swap
          | .class _ _, .class _ _ => (t.reachable sub).contains sup
          | _, _ => false
      | _, _ => false

/-- The subtype relation, given fuel for the parts of function types. -/
def isSubtypeFrom (t : TypeTable) : Nat → TypeId × TypeId → Bool
  | 0, _ => false
  | fuel + 1, pair => t.relate (t.isSubtypeFrom fuel) pair

/-- Classes are related by their declared supertypes, function types by their
parts, where a result that is not told fits any; `dynamic`, `void` and the topmost
class are above every type, and `Never` is below. -/
def isSubtype (t : TypeTable) (sub sup : TypeId) : Bool :=
  t.isSubtypeFrom (t.defs.size + 1) (sub, sup)

end TypeTable

end CheckedThrows
