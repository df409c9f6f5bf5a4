import CheckedThrows.Constant
import CheckedThrows.Intrinsics.Table

/-!
# Effects of declarations

The effects of an element are the types that it is declared to throw.  They
come from its `@Throws` metadata or, where that names none, from the table of
intrinsic effects.  Metadata of which no list of classes can be made out
declares nothing.
-/

namespace CheckedThrows

/-- A program with the table of intrinsic effects. -/
structure EffectModel where
  program : Program
  intrinsics : IntrinsicTable

def isInfix (part whole : List Char) : Bool :=
  match whole with
  | [] => part.isEmpty
  | c :: rest => part.isPrefixOf (c :: rest) || isInfix part rest

def addTypes (old new : List TypeId) : List TypeId :=
  new.foldl (fun types t => if t ∈ types then types else types ++ [t]) old

namespace EffectModel

def throwsClass : String := "Throws"

def throwsLibrary : String := "package:throwable/throwable.dart"

def types (m : EffectModel) : TypeTable := m.program.types

def isThrows (m : EffectModel) (type : TypeId) : Bool :=
  m.types.displayName type = throwsClass &&
    (m.types.libraryOf type).any fun uri => isInfix throwsLibrary.toList uri.toList

def thrownBy (m : EffectModel) (c : Constant) : List TypeId :=
  if c.type?.any m.isThrows then
    ((((c.field? "types").bind Constant.items?).getD []).filterMap Constant.denoted?)
  else []

/-- The types of all `@Throws` entries, in order and each once. -/
def declaredEffects (m : EffectModel) (e : Element) : List TypeId :=
  addTypes [] (e.metadata.flatMap fun entry =>
    ((m.program.entryConstant? entry).map m.thrownBy).getD [])

/-- The types that the table has for an executable, as far as they can be found
from its library. -/
def intrinsicEffects (m : EffectModel) : Element → List TypeId
  | .executable e =>
    let names := m.intrinsics.lookup (Text.ofString e.library)
      (Text.ofString (Element.executable e).qualifiedName)
    addTypes [] (names.filterMap fun name =>
      name.toString?.bind (m.program.typeNamed? e.library))
  | _ => []

def effects (m : EffectModel) (e : Element) : List TypeId :=
  match m.declaredEffects e with
  | [] => m.intrinsicEffects e
  | declared => declared

def effects? (m : EffectModel) (e : Option Element) : List TypeId :=
  (e.map m.effects).getD []

def covers (m : EffectModel) (declared : List TypeId) (type : TypeId) : Bool :=
  declared.any fun d => m.types.isSubtype type d

end EffectModel

end CheckedThrows
