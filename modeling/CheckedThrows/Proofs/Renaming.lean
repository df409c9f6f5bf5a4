import CheckedThrows.Proofs.Renumbering
import CheckedThrows.Resolution.Program

/-!
# Programs with other numbers

The numbers of nodes and of types say nothing about a program but what is the
same and what is not, and where nodes stand matters only to reports.  A renaming
gives other numbers and places to all of them.  What is found under a name does
not depend on these.
-/

namespace CheckedThrows

/-- Other labels for trees and other numbers for types, where different numbers
stay different.  Places in reports change as the extents of nodes do. -/
structure Renaming extends Relabeling where
  type : TypeId → TypeId
  span : Span → Span
  node_injective : Function.Injective node
  type_injective : Function.Injective type
  span_ofExtent : ∀ uri e, span (.ofExtent uri e) = .ofExtent uri (extent e)
  span_ofFile : ∀ uri : String, span { file := uri } = { file := uri }
  file_span : ∀ s, (span s).file = s.file

instance : Coe Renaming Relabeling := ⟨Renaming.toRelabeling⟩

section
variable (r : Renaming)

def TypeDef.rename : TypeDef → TypeDef
  | .function params returns => .function (params.map r.type) (returns.map r.type)
  | d => d

def ElementId.rename (id : ElementId) : ElementId :=
  { id with node := r.node id.node }

def ClassElement.rename (c : ClassElement) : ClassElement :=
  ⟨c.decl.relabel r, c.library, r.type c.type⟩

def ExecutableOrigin.rename : ExecutableOrigin → ExecutableOrigin
  | .declared d => .declared (d.relabel r)
  | .implicit d => .implicit (d.relabel r)

def ExecutableElement.rename (e : ExecutableElement) : ExecutableElement :=
  ⟨e.origin.rename r, e.library, e.owner.map (ClassElement.rename r)⟩

def VariableOrigin.rename : VariableOrigin → VariableOrigin
  | .declared d => .declared (d.relabel r)
  | .exception c name type => .exception (c.relabel r) name (r.type type)
  | .stackTrace c name type => .stackTrace (c.relabel r) name (r.type type)

def VariableElement.rename (v : VariableElement) : VariableElement :=
  ⟨v.origin.rename r, v.library, v.owner.map (ClassElement.rename r)⟩

def ParameterElement.rename (p : ParameterElement) : ParameterElement :=
  ⟨p.param.relabel r, p.library, p.index, r.type p.type⟩

def Element.rename : Element → Element
  | .class c => .class (c.rename r)
  | .executable e => .executable (e.rename r)
  | .variable v => .variable (v.rename r)
  | .parameter p => .parameter (p.rename r)

def Property.rename : Property → Property
  | .field v => .field (v.rename r)
  | .accessor e => .accessor (e.rename r)

def NameTable.mapValues {α β : Type} (f : α → β) (table : NameTable α) : NameTable β :=
  table.map fun entry => (entry.1, f entry.2)

def Names.rename (names : Names) : Names :=
  NameTable.mapValues (Element.rename r) names

def Members.rename (m : Members) : Members where
  methods := m.methods.mapValues (ExecutableElement.rename r)
  getters := m.getters.mapValues (Property.rename r)
  setters := m.setters.mapValues (Property.rename r)
  constructors := m.constructors.mapValues (ExecutableElement.rename r)
  accepted := m.accepted.map (Element.rename r)

def ClassInfo.rename (c : ClassInfo) : ClassInfo where
  element := c.element.rename r
  superclass := c.superclass.map (ClassElement.rename r)
  interfaces := c.interfaces.map (ClassElement.rename r)
  members := c.members.rename r

def Library.rename (l : Library) : Library where
  unit := l.unit.relabel r
  scope := Names.rename r l.scope
  classes := l.classes.map (ClassElement.rename r)
  imports := l.imports
  exports := l.exports

def Diagnostic.rename (d : Diagnostic) : Diagnostic :=
  { d with span := r.span d.span }

def Signature.rename (s : Signature) : Signature where
  params := s.params.map (ParameterElement.rename r)
  returns := r.type s.returns
  type := r.type s.type

end

/-! ## Tables by name -/

namespace NameTable

variable {α β : Type} (f : α → β)

@[simp]
theorem lookup_mapValues (table : NameTable α) (name : String) :
    List.lookup name (table.mapValues f) = (table.lookup name).map f := by
  induction table with
  | nil => rfl
  | cons entry table ih =>
    rw [mapValues, List.map_cons, List.lookup_cons, List.lookup_cons]
    cases name == entry.1 with
    | true => rfl
    | false => exact ih

theorem mapValues_append (table table' : NameTable α) :
    mapValues f (table ++ table') = table.mapValues f ++ table'.mapValues f :=
  List.map_append

theorem mapValues_insert (name : String) (value : α) (table : NameTable α) :
    mapValues f (insert name value table) = insert name (f value) (table.mapValues f) := by
  induction table with
  | nil => rfl
  | cons entry table ih =>
    obtain ⟨n, old⟩ := entry
    by_cases hname : n = name
    · simp [insert, mapValues, hname]
    · simpa [insert, mapValues, hname] using ih

end NameTable

/-! ## Parts of renamed elements -/

theorem filterMap_map_comm {α β : Type} {part : α → Option β} {change : α → α} {change' : β → β}
    (hpart : ∀ a, part (change a) = (part a).map change') (l : List α) :
    (l.map change).filterMap part = (l.filterMap part).map change' := by
  rw [List.filterMap_map, List.map_filterMap]
  exact List.filterMap_congr fun a _ => hpart a

section
variable (r : Renaming)

namespace ClassElement

variable (c : ClassElement)

@[simp]
theorem name_rename : (c.rename r).name = c.name := rfl

@[simp]
theorem library_rename : (c.rename r).library = c.library := rfl

@[simp]
theorem type_rename : (c.rename r).type = r.type c.type := rfl

theorem vars_rename :
    (c.rename r).decl.members.filterMap Member.toVar? =
      (c.decl.members.filterMap Member.toVar?).map (VarDecl.relabel r) :=
  filterMap_map_comm (fun d => by cases d <;> rfl) c.decl.members

theorem functions_rename :
    (c.rename r).decl.members.filterMap Member.toFunction? =
      (c.decl.members.filterMap Member.toFunction?).map (FunctionDecl.relabel r) :=
  filterMap_map_comm (fun d => by cases d <;> rfl) c.decl.members

end ClassElement

namespace ExecutableElement

variable (e : ExecutableElement)

@[simp]
theorem library_rename : (e.rename r).library = e.library := rfl

@[simp]
theorem owner_rename : (e.rename r).owner = e.owner.map (ClassElement.rename r) := rfl

@[simp]
theorem id_rename : (e.rename r).id = e.id.rename r := by
  obtain ⟨origin, library, owner⟩ := e
  cases origin with
  | declared d => simp [rename, id, ExecutableOrigin.rename, FunctionDecl.relabel_eq]; rfl
  | implicit d => rfl

@[simp]
theorem name_rename : (e.rename r).name = e.name := by
  obtain ⟨origin, library, owner⟩ := e
  cases origin with
  | declared d => simp [rename, name, ExecutableOrigin.rename, FunctionDecl.relabel_eq]
  | implicit d => rfl

@[simp]
theorem kind_rename : (e.rename r).kind = e.kind := by
  obtain ⟨origin, library, owner⟩ := e
  cases origin with
  | declared d => simp [rename, kind, ExecutableOrigin.rename, FunctionDecl.relabel_eq]
  | implicit d => rfl

@[simp]
theorem metadata_rename : (e.rename r).metadata = e.metadata.map (Metadatum.relabel r) := by
  obtain ⟨origin, library, owner⟩ := e
  cases origin with
  | declared d => simp [rename, metadata, ExecutableOrigin.rename, FunctionDecl.relabel_eq]
  | implicit d => rfl

@[simp]
theorem isStatic_rename : (e.rename r).isStatic = e.isStatic := by
  obtain ⟨origin, library, owner⟩ := e
  cases origin with
  | declared d => simp [rename, isStatic, ExecutableOrigin.rename, FunctionDecl.relabel_eq]
  | implicit d => rfl

@[simp]
theorem isConst_rename : (e.rename r).isConst = e.isConst := by
  obtain ⟨origin, library, owner⟩ := e
  cases origin with
  | declared d => simp [rename, isConst, ExecutableOrigin.rename, FunctionDecl.relabel_eq]
  | implicit d => rfl

end ExecutableElement

namespace VariableElement

variable (v : VariableElement)

@[simp]
theorem library_rename : (v.rename r).library = v.library := rfl

@[simp]
theorem owner_rename : (v.rename r).owner = v.owner.map (ClassElement.rename r) := rfl

@[simp]
theorem id_rename : (v.rename r).id = v.id.rename r := by
  obtain ⟨origin, library, owner⟩ := v
  cases origin with
  | declared d => simp [rename, id, VariableOrigin.rename, VarDecl.relabel_eq]; rfl
  | exception c name type =>
    simp [rename, id, VariableOrigin.rename, CatchClause.relabel_eq]; rfl
  | stackTrace c name type =>
    simp [rename, id, VariableOrigin.rename, CatchClause.relabel_eq]; rfl

@[simp]
theorem name_rename : (v.rename r).name = v.name := by
  obtain ⟨origin, library, owner⟩ := v
  cases origin with
  | declared d => simp [rename, name, VariableOrigin.rename, VarDecl.relabel_eq]
  | exception c name type => rfl
  | stackTrace c name type => rfl

@[simp]
theorem metadata_rename : (v.rename r).metadata = v.metadata.map (Metadatum.relabel r) := by
  obtain ⟨origin, library, owner⟩ := v
  cases origin with
  | declared d => simp [rename, metadata, VariableOrigin.rename, VarDecl.relabel_eq]
  | exception c name type => rfl
  | stackTrace c name type => rfl

@[simp]
theorem isStatic_rename : (v.rename r).isStatic = v.isStatic := by
  obtain ⟨origin, library, owner⟩ := v
  cases origin with
  | declared d => simp [rename, isStatic, VariableOrigin.rename, VarDecl.relabel_eq]
  | exception c name type => rfl
  | stackTrace c name type => rfl

@[simp]
theorem constantInit?_rename :
    (v.rename r).constantInit? = v.constantInit?.map (Expr.relabel r) := by
  obtain ⟨origin, library, owner⟩ := v
  cases origin with
  | declared d =>
    simp only [rename, constantInit?, VariableOrigin.rename, VarDecl.relabel_eq]
    split <;> rfl
  | exception c name type => rfl
  | stackTrace c name type => rfl

end VariableElement

namespace ParameterElement

variable (p : ParameterElement)

@[simp]
theorem library_rename : (p.rename r).library = p.library := rfl

@[simp]
theorem type_rename : (p.rename r).type = r.type p.type := rfl

@[simp]
theorem id_rename : (p.rename r).id = p.id.rename r := by
  simp [rename, id, Param.relabel_eq]; rfl

@[simp]
theorem name_rename : (p.rename r).name = p.name := by
  simp [rename, name, Param.relabel_eq]

@[simp]
theorem isFieldFormal_rename : (p.rename r).isFieldFormal = p.isFieldFormal := by
  simp [rename, isFieldFormal, Param.relabel_eq]

end ParameterElement

namespace Element

variable (e : Element)

@[simp]
theorem id_rename : (e.rename r).id = e.id.rename r := by
  cases e with
  | «class» c => rfl
  | executable e => exact e.id_rename r
  | «variable» v => exact v.id_rename r
  | parameter p => exact p.id_rename r

@[simp]
theorem library_rename : (e.rename r).library = e.library := by
  cases e <;> rfl

@[simp]
theorem metadata_rename : (e.rename r).metadata = e.metadata.map (Metadatum.relabel r) := by
  cases e with
  | «class» c => simp [rename, metadata, ClassElement.rename, ClassDecl.relabel]
  | executable e => exact e.metadata_rename r
  | «variable» v => exact v.metadata_rename r
  | parameter p => simp [rename, metadata, ParameterElement.rename, Param.relabel_eq]

@[simp]
theorem toClass?_rename : (e.rename r).toClass? = e.toClass?.map (ClassElement.rename r) := by
  cases e <;> rfl

@[simp]
theorem toExecutable?_rename :
    (e.rename r).toExecutable? = e.toExecutable?.map (ExecutableElement.rename r) := by
  cases e <;> rfl

@[simp]
theorem toVar?_rename : (e.rename r).toVar? = e.toVar?.map (VariableElement.rename r) := by
  cases e <;> rfl

@[simp]
theorem isBinding_rename : (e.rename r).isBinding = e.isBinding := by
  cases e <;> rfl

@[simp]
theorem qualifiedName_rename : (e.rename r).qualifiedName = e.qualifiedName := by
  cases e with
  | «class» c => rfl
  | executable e =>
    simp only [rename, qualifiedName, ExecutableElement.kind_rename,
      ExecutableElement.owner_rename, ExecutableElement.name_rename]
    cases e.owner with
    | none => cases e.kind <;> rfl
    | some c => cases e.kind <;> rfl
  | «variable» v =>
    simp only [rename, qualifiedName, owner, name, VariableElement.owner_rename,
      VariableElement.name_rename]
    cases v.owner <;> rfl
  | parameter p => exact p.name_rename r

end Element

namespace Property

variable (p : Property)

@[simp]
theorem toElement_rename : (p.rename r).toElement = p.toElement.rename r := by
  cases p <;> rfl

@[simp]
theorem isStatic_rename : (p.rename r).isStatic = p.isStatic := by
  cases p with
  | field v => exact v.isStatic_rename r
  | accessor e => exact e.isStatic_rename r

end Property

@[simp]
theorem ElementId.rename_inj {id id' : ElementId} : id.rename r = id'.rename r ↔ id = id' := by
  obtain ⟨node, role⟩ := id
  obtain ⟨node', role'⟩ := id'
  simp [rename, r.node_injective.eq_iff]

theorem ClassInfo.parents_rename (c : ClassInfo) :
    (c.rename r).parents = c.parents.map (ClassElement.rename r) := by
  simp [parents, rename, Option.toList_map]

end

end CheckedThrows
