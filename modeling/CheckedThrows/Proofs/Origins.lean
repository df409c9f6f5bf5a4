import CheckedThrows.Effects.Declared
import CheckedThrows.Proofs.NumberedUnits
import CheckedThrows.Proofs.SoundBodies

/-!
# Where elements come from

Every element that can be found in a program is brought about by a node at some
place of its units.  If the units share no numbers, the number of an element
therefore says what its metadata is and how it is called, which is all that its
effects depend on.
-/

namespace CheckedThrows

open List

variable {units : List CompilationUnit}
variable {n : Node} {p : Place} {e : Element} {m : Metadatum}

/-! ## Places and the classes around them -/

namespace Node

def toClass? : Node → Option ClassDecl
  | .class d => some d
  | _ => none

def metadata : Node → List Metadatum
  | .class d => d.metadata
  | .param p => p.metadata
  | .varDecl d => d.metadata
  | .functionDecl d => d.metadata
  | _ => []

theorem mem_children_of_mem_metadata (hm : m ∈ n.metadata) :
    (Slot.other, .metadatum m) ∈ n.children := by
  unfold metadata at hm
  split at hm
  case h_5 => simp at hm
  all_goals exact mem_append_right _ (mem_map_of_mem hm)

def isInner : Node → Bool
  | .unit _ | .class _ => false
  | _ => true

theorem isInner_ofBody (b : Body) : (ofBody b).isInner = true := by
  cases b <;> rfl

theorem isInner_ofMember (m : Member) : (ofMember m).isInner = true := by
  cases m <;> rfl

theorem toClass?_of_isInner (hinner : n.isInner = true) : n.toClass? = none := by
  cases n <;> first | rfl | simp [isInner] at hinner

theorem isInner_of_mem_children (hinner : n.isInner = true) {c : Slot × Node}
    (hc : c ∈ n.children) : c.2.isInner = true := by
  have hall : ∀ c ∈ n.children, c.2.isInner = true := by
    cases n with
    | unit u => simp [isInner] at hinner
    | «class» d => simp [isInner] at hinner
    | type t => cases t <;> simp [children, typeChildren, isInner, or_imp, forall_and]
    | stmt s =>
      cases s with
      | function d =>
        simp only [children, stmtChildren, forall_mem_append, forall_mem_map]
        exact ⟨⟨⟨fun _ _ => rfl, fun _ _ => rfl⟩, fun b _ => isInner_ofBody b⟩, fun _ _ => rfl⟩
      | _ => simp [children, stmtChildren, isInner, or_imp, forall_and]
    | expr e =>
      cases e with
      | lambda info params body =>
        simp only [children, exprChildren, forall_mem_append, forall_mem_map,
          forall_mem_singleton]
        exact ⟨fun _ _ => rfl, isInner_ofBody body⟩
      | _ => simp [children, exprChildren, isInner, or_imp, forall_and]
    | _ => simp [children, isInner, or_imp, forall_and]
  exact hall c hc

end Node

namespace Place

def owner? : Place → Option ClassDecl
  | .root _ => none
  | .child parent _ _ => parent.node.toClass?

theorem mem_walk_child {root : Node} (hp : p ∈ walk root) {c : Slot × Node}
    (hc : c ∈ p.node.children) : .child p c.1 c.2 ∈ walk root := by
  rw [mem_walk_iff] at hp ⊢
  exact .child hp (mem_children_iff.mpr ⟨c, hc, rfl⟩) rfl

theorem owner?_of_reaches {q r : Place} (hinner : p.node.isInner = true) (hq : q ∈ p.children)
    (hreach : Reaches (fun _ => true) q r) : r.node.isInner = true ∧ r.owner? = none := by
  have hstep : ∀ {p q : Place}, p.node.isInner = true → q ∈ p.children →
      q.node.isInner = true ∧ q.owner? = none := by
    intro p q hinner hq
    obtain ⟨c, hc, rfl⟩ := mem_children_iff.mp hq
    exact ⟨Node.isInner_of_mem_children hinner hc, Node.toClass?_of_isInner hinner⟩
  induction hreach with
  | self => exact hstep hinner hq
  | child _ hchild _ ih => exact hstep ih.1 hchild

end Place

/-! ## Elements and the nodes that bring them about -/

namespace Element

def node : Element → Node
  | .class c => .class c.decl
  | .executable ⟨.declared d, _, _⟩ => .functionDecl d
  | .executable ⟨.implicit d, _, _⟩ => .class d
  | .variable ⟨.declared d, _, _⟩ => .varDecl d
  | .variable ⟨.exception c _ _, _, _⟩ | .variable ⟨.stackTrace c _ _, _, _⟩ => .clause c
  | .parameter p => .param p.param

theorem id_node (e : Element) : e.node.id = e.id.node := by
  match e with
  | .class _ | .parameter _ | .executable ⟨.declared _, _, _⟩ | .executable ⟨.implicit _, _, _⟩
  | .variable ⟨.declared _, _, _⟩ | .variable ⟨.exception .., _, _⟩
  | .variable ⟨.stackTrace .., _, _⟩ => rfl

/-- An element is brought about at a place of a unit.  The constructor of a
class that declares none belongs to that class, other elements to the class
that their node is a part of. -/
structure StandsAt (u : CompilationUnit) (p : Place) (e : Element) : Prop where
  node : p.node = e.node
  library : e.library = u.uri
  owner : e.owner.map ClassElement.decl =
    if e.id.role = .implicitConstructor then e.node.toClass? else p.owner?

def RootedIn (units : List CompilationUnit) (e : Element) : Prop :=
  ∃ u ∈ units, ∃ p ∈ Place.walk (.unit u), e.StandsAt u p

theorem metadata_eq (e : Element) :
    e.metadata = if e.id.role = .declared then e.node.metadata else [] := by
  match e with
  | .class _ | .parameter _ | .executable ⟨.declared _, _, _⟩ | .executable ⟨.implicit _, _, _⟩
  | .variable ⟨.declared _, _, _⟩ | .variable ⟨.exception .., _, _⟩
  | .variable ⟨.stackTrace .., _, _⟩ => rfl

theorem mem_metadata_node (hm : m ∈ e.metadata) : m ∈ e.node.metadata := by
  rw [metadata_eq] at hm
  split at hm
  · exact hm
  · simp at hm

def originOf? : Node → ElementRole → Option ExecutableOrigin
  | .functionDecl d, .declared => some (.declared d)
  | .class d, .implicitConstructor => some (.implicit d)
  | _, _ => none

theorem origin_eq (e : Element) :
    e.toExecutable?.map ExecutableElement.origin = originOf? e.node e.id.role := by
  match e with
  | .class _ | .parameter _ | .executable ⟨.declared _, _, _⟩ | .executable ⟨.implicit _, _, _⟩
  | .variable ⟨.declared _, _, _⟩ | .variable ⟨.exception .., _, _⟩
  | .variable ⟨.stackTrace .., _, _⟩ => rfl

theorem qualifiedName_executable (x : ExecutableElement) :
    (Element.executable x).qualifiedName =
      if x.kind = .constructor then
        ((x.owner.map ClassElement.name).getD "?") ++ "." ++ (if x.name = "" then "new" else x.name)
      else ((x.owner.map ClassElement.name).map (· ++ "." ++ x.name)).getD x.name := by
  unfold qualifiedName
  dsimp only
  cases x.kind <;> cases x.owner <;> rfl

theorem qualifiedName_congr {o : ExecutableOrigin} {library : String}
    {owner owner' : Option ClassElement}
    (howner : owner.map ClassElement.decl = owner'.map ClassElement.decl) :
    (Element.executable ⟨o, library, owner⟩).qualifiedName =
      (Element.executable ⟨o, library, owner'⟩).qualifiedName := by
  have hname : owner.map ClassElement.name = owner'.map ClassElement.name := by
    have hcomp : ClassElement.name = ClassDecl.name ∘ ClassElement.decl := rfl
    rw [hcomp, ← Option.map_map, howner, Option.map_map]
  rw [qualifiedName_executable, qualifiedName_executable, hname]
  rfl

end Element

namespace EffectModel

variable {m : EffectModel} {e e' : Element}

theorem intrinsicEffects_congr (horigin : e.toExecutable?.map ExecutableElement.origin =
      e'.toExecutable?.map ExecutableElement.origin) (hlibrary : e.library = e'.library)
    (howner : e.owner.map ClassElement.decl = e'.owner.map ClassElement.decl) :
    m.intrinsicEffects e = m.intrinsicEffects e' := by
  cases e with
  | executable x =>
    cases e' with
    | executable x' =>
      obtain ⟨o, library, owner⟩ := x
      obtain ⟨o', library', owner'⟩ := x'
      obtain rfl : o = o' := Option.some.inj horigin
      obtain rfl : library = library' := hlibrary
      have hname : (Element.executable ⟨o, library, owner⟩).qualifiedName =
          (Element.executable ⟨o, library, owner'⟩).qualifiedName :=
        Element.qualifiedName_congr howner
      simp only [intrinsicEffects, hname]
    | _ => simp [Element.toExecutable?] at horigin
  | _ =>
    cases e' with
    | executable x' => simp [Element.toExecutable?] at horigin
    | _ => rfl

theorem effects_congr {u : CompilationUnit} (he : e.StandsAt u p) (he' : e'.StandsAt u p)
    (hid : e.id = e'.id) : m.effects e = m.effects e' := by
  have hnode : e.node = e'.node := he.node.symm.trans he'.node
  have hmetadata : e.metadata = e'.metadata := by
    rw [Element.metadata_eq, Element.metadata_eq, hnode, hid]
  have hintrinsic : m.intrinsicEffects e = m.intrinsicEffects e' := by
    apply intrinsicEffects_congr
    · rw [Element.origin_eq, Element.origin_eq, hnode, hid]
    · exact he.library.trans he'.library.symm
    · rw [he.owner, he'.owner, hnode, hid]
  unfold effects declaredEffects
  rw [hmetadata, hintrinsic]

end EffectModel

/-! ## Elements of units without common numbers -/

section
variable {units : List CompilationUnit} (hunits : Numbered units)
include hunits

theorem Element.RootedIn.effects_eq {m : EffectModel} {e' : Element} (he : e.RootedIn units)
    (he' : e'.RootedIn units) (hid : e.id = e'.id) : m.effects e = m.effects e' := by
  obtain ⟨u, hu, p, hp, hstands⟩ := he
  obtain ⟨u', hu', p', hp', hstands'⟩ := he'
  have hnumber : p.node.id = p'.node.id := by
    rw [hstands.node, hstands'.node, Element.id_node, Element.id_node, hid]
  obtain ⟨rfl, rfl⟩ := hunits u hu u' hu' p hp p' hp' hnumber
  exact EffectModel.effects_congr hstands hstands' hid

end

def Metadatum.StandsIn (units : List CompilationUnit) (m : Metadatum) : Prop :=
  ∃ u ∈ units, ∃ p ∈ Place.walk (.unit u), p.node = .metadatum m

theorem Element.RootedIn.standsIn (he : e.RootedIn units) (hm : m ∈ e.metadata) :
    m.StandsIn units := by
  obtain ⟨u, hu, p, hp, hstands⟩ := he
  have hchild := Node.mem_children_of_mem_metadata (Element.mem_metadata_node hm)
  rw [← hstands.node] at hchild
  exact ⟨u, hu, _, Place.mem_walk_child hp hchild, rfl⟩

theorem Metadatum.StandsIn.eq_of_id_eq (hunits : Numbered units) {m' : Metadatum}
    (hm : m.StandsIn units) (hm' : m'.StandsIn units) (hid : m.id = m'.id) : m = m' := by
  obtain ⟨u, hu, p, hp, hnode⟩ := hm
  obtain ⟨u', hu', p', hp', hnode'⟩ := hm'
  obtain ⟨-, rfl⟩ := hunits u hu u' hu' p hp p' hp' (by rw [hnode, hnode']; exact hid)
  exact Node.metadatum.inj (hnode.symm.trans hnode')

/-! ## The elements of a program -/

namespace Place

section
variable {units : List CompilationUnit} {u : CompilationUnit} (hu : u ∈ units)

def ofDeclaration (u : CompilationUnit) (d : Declaration) : Place :=
  .child (.root (.unit u)) .other (.ofDeclaration d)

theorem ofDeclaration_mem_walk {d : Declaration} (hd : d ∈ u.declarations) :
    ofDeclaration u d ∈ walk (.unit u) := by
  have hroot : Place.root (.unit u) ∈ walk (.unit u) := (mem_walk_iff _ _).mpr .self
  exact mem_walk_child hroot (mem_append_right _ (mem_map_of_mem hd))

theorem member_mem_walk (hp : p ∈ walk (.unit u)) {d : ClassDecl} (hclass : p.node = .class d)
    {m : Member} (hm : m ∈ d.members) : .child p .other (.ofMember m) ∈ walk (.unit u) := by
  refine mem_walk_child hp (c := (.other, .ofMember m)) ?_
  rw [hclass]
  simp only [Node.children, append_assoc]
  exact mem_append_left _ (mem_map_of_mem hm)

include hu

theorem allBelow_yields (hp : p ∈ walk (.unit u)) (hinner : p.node.isInner = true) :
    p.node.AllBelow (Node.Yields (Element.RootedIn units) u.uri) := by
  intro c hc r hr
  have hchild : Place.child p c.1 c.2 ∈ p.children := mem_children_iff.mpr ⟨c, hc, rfl⟩
  obtain ⟨q, hq, hnode⟩ := exists_reaches_of_node_eq ((mem_walk_iff _ _).mp hr)
    (show _ = (Place.child p c.1 c.2).node from rfl)
  obtain ⟨-, howner⟩ := owner?_of_reaches hinner hchild hq
  have hwalk : q ∈ walk (.unit u) := by
    rw [mem_walk_iff] at hp ⊢
    exact (Reaches.child hp hchild rfl).trans hq
  have hrooted : ∀ e : Element, r.node = e.node → e.library = u.uri → e.owner = none →
      e.id.role ≠ .implicitConstructor → e.RootedIn units := by
    intro e he hlibrary hnone hrole
    refine ⟨u, hu, q, hwalk, hnode.trans he, hlibrary, ?_⟩
    rw [hnone, if_neg hrole, howner]
    rfl
  unfold Node.Yields
  split
  next d hd => exact hrooted _ hd rfl rfl nofun
  next d hd => exact hrooted _ hd rfl rfl nofun
  next d hd => exact fun index type => hrooted _ hd rfl rfl nofun
  next c hd => exact fun name type => ⟨hrooted _ hd rfl rfl nofun, hrooted _ hd rfl rfl nofun⟩
  next => trivial

theorem class_yields (hp : p ∈ walk (.unit u)) {d : ClassDecl} (hclass : p.node = .class d) :
    d.Yields (Element.RootedIn units) u.uri := by
  constructor
  · intro m hm
    exact allBelow_yields hu (member_mem_walk hp hclass hm) (Node.isInner_ofMember m)
  · intro m hm
    have hchild : (Slot.other, Node.metadatum m) ∈ p.node.children := by
      rw [hclass]
      exact Node.mem_children_of_mem_metadata hm
    exact Node.all_iff.mpr ⟨trivial, allBelow_yields hu (mem_walk_child hp hchild) rfl⟩

end

end Place

section
variable {units : List CompilationUnit} {u : CompilationUnit} (hu : u ∈ units)
include hu

theorem Element.rootedIn_class {c : ClassElement}
    (hdecl : Declaration.class c.decl ∈ u.declarations) (hlibrary : c.library = u.uri) :
    (Element.class c).RootedIn units :=
  ⟨u, hu, .ofDeclaration u (.class c.decl), Place.ofDeclaration_mem_walk hdecl, rfl, hlibrary, rfl⟩

theorem Element.IsTopLevel.rootedIn {cs : List ClassElement}
    (hcs : ∀ c ∈ cs, Declaration.class c.decl ∈ u.declarations ∧ c.library = u.uri)
    (htop : e.IsTopLevel u cs) : e.RootedIn units := by
  cases e with
  | «class» c => exact rootedIn_class hu (hcs c htop).1 (hcs c htop).2
  | executable e =>
    obtain ⟨d, hd, rfl⟩ := htop
    exact ⟨u, hu, .ofDeclaration u (.function d), Place.ofDeclaration_mem_walk hd, rfl, rfl, rfl⟩
  | «variable» v =>
    obtain ⟨d, hd, rfl⟩ := htop
    exact ⟨u, hu, .ofDeclaration u (.variable d), Place.ofDeclaration_mem_walk hd, rfl, rfl, rfl⟩
  | parameter p => exact htop.elim

theorem Element.IsMemberOf.rootedIn {owner : ClassElement}
    (hdecl : Declaration.class owner.decl ∈ u.declarations) (hlibrary : owner.library = u.uri)
    (hmember : e.IsMemberOf owner) : e.RootedIn units := by
  have hp := Place.ofDeclaration_mem_walk hdecl
  cases e with
  | «class» c => exact hmember.elim
  | executable e =>
    rcases hmember with ⟨d, hd, rfl⟩ | rfl
    · exact ⟨u, hu, _, Place.member_mem_walk hp rfl hd, rfl, hlibrary, rfl⟩
    · exact ⟨u, hu, _, hp, rfl, hlibrary, rfl⟩
  | «variable» v =>
    obtain ⟨d, hd, rfl⟩ := hmember
    exact ⟨u, hu, _, Place.member_mem_walk hp rfl hd, rfl, hlibrary, rfl⟩
  | parameter p => exact hmember.elim

end

namespace Workspace

variable {units : List CompilationUnit}

theorem library_ofUnits {l : Library}
    (hl : l ∈ (ofUnits units).libraries) : l.unit ∈ units ∧ l.ScopeDeclared := by
  rw [libraries_ofUnits] at hl
  refine ⟨?_, (isDeclared_linked units).scope l hl⟩
  obtain ⟨l₀, hl₀, rfl⟩ := mem_linkDirectives.mp hl
  rw [(Library.link_declarations _ l₀).unit]
  exact unit_mem_of_mem_declare hl₀

theorem class_ofUnits {i : ClassInfo} (hi : i ∈ (ofUnits units).classes) :
    ∃ u ∈ units, Declaration.class i.element.decl ∈ u.declarations ∧ i.element.library = u.uri := by
  obtain ⟨l, hl, hmem⟩ := mem_flatMap.mp (members_ofUnits hi).1
  rw [← libraries_ofUnits] at hl
  obtain ⟨hunit, hdeclared⟩ := library_ofUnits hl
  exact ⟨l.unit, hunit, hdeclared.classes i.element hmem⟩

theorem holds_rootedIn (units : List CompilationUnit) :
    (ofUnits units).Holds (Element.RootedIn units) := by
  constructor
  · intro l hl entry hentry
    obtain ⟨hunit, hdeclared⟩ := library_ofUnits hl
    exact (hdeclared.scope entry hentry).rootedIn hunit hdeclared.classes
  · intro i hi
    obtain ⟨u, hu, hdecl, hlibrary⟩ := class_ofUnits hi
    exact (members_ofUnits hi).2.imp fun e hmember => hmember.rootedIn hu hdecl hlibrary

theorem yields_rootedIn (hunits : Numbered units) :
    (ofUnits units).Yields (Element.RootedIn units) where
  holds := holds_rootedIn units
  topVariables := fun l hl d hd =>
    Place.allBelow_yields (library_ofUnits hl).1
      (Place.ofDeclaration_mem_walk (d := .variable d) hd) rfl
  topFunctions := fun l hl d hd =>
    Place.allBelow_yields (library_ofUnits hl).1
      (Place.ofDeclaration_mem_walk (d := .function d) hd) rfl
  classes := by
    intro l hl d hd c hid hrooted
    obtain ⟨u, hu, p, hp, hstands⟩ := hrooted
    -- The class stands where the declaration with its number stands.
    obtain ⟨rfl, -⟩ := hunits u hu l.unit (library_ofUnits hl).1 p hp _
      (Place.ofDeclaration_mem_walk hd) (by rw [hstands.node]; exact hid)
    have hyields := Place.class_yields hu hp hstands.node
    rw [show c.library = l.unit.uri from hstands.library]
    exact ⟨hyields, hyields⟩

end Workspace

theorem Program.rooted_ofUnits (hunits : Numbered units) :
    (Program.ofUnits units).facts.Sound (Element.RootedIn units)
      (Program.ofUnits units).workspace :=
  sound_ofUnits (Workspace.yields_rootedIn hunits)

end CheckedThrows
