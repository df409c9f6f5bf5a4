import CheckedThrows.Diagnostic
import CheckedThrows.Workspace.Element
import CheckedThrows.Workspace.Uri

/-!
# Libraries

A library is a unit with its top-level declarations by name.  The first
declaration of a name counts; a setter `x` has the name `x=`, so that it can
stand beside a getter or a variable.  Private names, which start with an
underscore, are not seen by other libraries; the other names can be handed on
by exports, which may form cycles.
-/

namespace CheckedThrows

/-- A problem of meaning; none of them stops the analysis. -/
def warning (code : String) (span : Span) (message : Text) : Diagnostic where
  message := message
  code := some code
  phase := some "resolve"
  severity := "warning"
  span := span

def CompilationUnit.span (u : CompilationUnit) : Span :=
  match u.extent with
  | some e => .ofExtent u.uri e
  | none => { file := u.uri }

abbrev Names := List (String × Element)

structure Library where
  unit : CompilationUnit
  /-- The top-level declarations that count, in source order. -/
  scope : Names := []
  /-- Every class declared, whether its name was free or not. -/
  classes : List ClassElement := []
  imports : List String := []
  exports : List String := []

namespace Library

def uri (l : Library) : String := l.unit.uri

def key : Declaration → String
  | .function d => if d.kind = .setter then d.name ++ "=" else d.name
  | d => d.name

def elementOf (uri : String) (types : TypeTable) : Declaration → Element × TypeTable
  | .class d =>
    let (type, types) := types.newClass d.name uri
    (.class ⟨d, uri, type⟩, types)
  | .function d => (.executable ⟨.declared d, uri, none⟩, types)
  | .variable d => (.variable ⟨.declared d, uri, none⟩, types)

def alreadyDefined (uri name : String) (place : Extent) : Diagnostic :=
  warning "duplicate_definition" (.ofExtent uri place)
    ("The name '" ++ name ++ "' is already defined.")

/-- Adds declarations to a library; each class becomes a type of its own. -/
def declareAll (l : Library) (types : TypeTable) :
    List Declaration → Library × TypeTable × List Diagnostic
  | [] => (l, types, [])
  | d :: rest =>
    let (element, types) := elementOf l.uri types d
    let classes := l.classes ++ element.toClass?.toList
    if (l.scope.lookup (key d)).isSome then
      let (l, types, warnings) := declareAll { l with classes } types rest
      (l, types, alreadyDefined l.uri d.name d.info.extent :: warnings)
    else
      declareAll { l with scope := l.scope ++ [(key d, element)], classes } types rest

def ofUnit (types : TypeTable) (u : CompilationUnit) :
    Library × TypeTable × List Diagnostic :=
  declareAll { unit := u } types u.declarations

def declared? (l : Library) (node : NodeId) : Option Element :=
  (l.scope.find? fun entry => entry.2.id.node = node).map (·.2)

def classNamed? (l : Library) (name : String) : Option ClassElement :=
  (l.scope.lookup name).bind Element.toClass?

def publicScope (l : Library) : Names :=
  l.scope.filter fun entry => !entry.1.startsWith "_"

def addUri (uris : List String) (uri : String) : List String :=
  if uri ∈ uris then uris else uris ++ [uri]

/-- Links a directive, whose target is one of the known libraries or is
reported. -/
def linkDirective (known : List String) (l : Library) (d : Directive) :
    Library × List Diagnostic :=
  match (d.uri.toString?.map (Uri.resolve known l.uri)).filter (· ∈ known) with
  | some uri =>
    match d.kind with
    | .imports => ({ l with imports := addUri l.imports uri }, [])
    | .exports => ({ l with exports := addUri l.exports uri }, [])
  | none =>
    (l, [warning "uri_does_not_exist" (.ofExtent l.uri d.info.extent)
      (("Target of URI doesn't exist: '" : Text) ++ d.uri ++ ("'." : Text))])

def coreUri : String := "dart:core"

/-- Every other library imports the core library, last unless it says so
itself. -/
def importCore (known : List String) (l : Library) : Library :=
  if coreUri ∈ known ∧ l.uri ≠ coreUri then { l with imports := addUri l.imports coreUri }
  else l

def link (known : List String) (l : Library) : Library × List Diagnostic :=
  let (linked, warnings) := l.unit.directives.foldl
    (fun (l, warnings) d =>
      let (l, more) := linkDirective known l d
      (l, warnings ++ more))
    (l, [])
  (importCore known linked, warnings)

end Library

abbrev Libraries := List Library

namespace Libraries

def find? (ls : Libraries) (uri : String) : Option Library :=
  List.find? (fun l => l.uri = uri) ls

/-- The libraries whose names a library hands on, itself first, in the
depth-first order of the exports.  Libraries already `seen` are passed over,
and those `pending` are still to be visited. -/
def exporters (ls : Libraries) : (fuel : Nat) → (seen pending : List String) → List Library
  | 0, _, _ => []
  | _ + 1, _, [] => []
  | fuel + 1, seen, uri :: pending =>
    if uri ∈ seen then exporters ls fuel seen pending
    else
      match ls.find? uri with
      | none => exporters ls fuel (uri :: seen) pending
      | some l => l :: exporters ls fuel (uri :: seen) (l.exports ++ pending)

def exportCount (ls : Libraries) : Nat :=
  total (fun l => l.exports.length) ls

/-- The public names that an importer of a library sees: its own and those it
hands on, where the first declaration of a name counts. -/
def namespaceOf (ls : Libraries) (uri : String) : Names :=
  (exporters ls (ls.exportCount + 2) [] [uri]).foldl
    (fun names l => l.publicScope.foldl
      (fun names entry =>
        if (names.lookup entry.1).isSome then names else names ++ [entry])
      names)
    []

/-- What a name means at the top level of a library: its own declaration, or
that of the first import that has one. -/
def lookup (ls : Libraries) (uri name : String) : Option Element :=
  match ls.find? uri with
  | none => none
  | some l =>
    match l.scope.lookup name with
    | some e => some e
    | none => l.imports.findSome? fun i => (ls.namespaceOf i).lookup name

def classNamed? (ls : Libraries) (uri name : String) : Option ClassElement :=
  (ls.lookup uri name).bind Element.toClass?

/-- The class that a name denotes as seen from outside: in the namespace of the
library, in those of its imports, in those of its exports. -/
def typeNamed? (ls : Libraries) (uri name : String) : Option TypeId :=
  match ls.find? uri with
  | none => none
  | some l =>
    (uri :: l.imports ++ l.exports).findSome? fun i =>
      ((ls.namespaceOf i).lookup name).bind fun e => e.toClass?.map ClassElement.type

end Libraries

end CheckedThrows
