import CheckedThrows.Proofs.NameWrites
import CheckedThrows.Proofs.NotedPrograms

/-!
# Names that are read

What a name means where it is read is told by the tree: what the code around it
binds the name to, innermost first; else the member of the class around it; else
what its library declares, and at last what the imports bring.
-/

namespace CheckedThrows

variable {q : Place}

/-- The getter of a name that a class has or inherits, or else the method.  From a
static member only static ones are seen, and then nothing is looked for in the place
of one that is not seen. -/
def Workspace.memberRead? (w : Workspace) (c : ClassElement) (fromStatic : Bool)
    (name : String) : Option Element :=
  let getter := (w.getter? c name none).map fun g => (g.toElement, g.isStatic)
  let method := (w.method? c name none).map fun m => (Element.executable m, m.isStatic)
  ((getter.or method).filter fun found => !fromStatic || found.2).map Prod.fst

namespace Program

def memberMeant? (p : Program) (q : Place) (name : String) : Option Element :=
  q.member?.bind fun (d, member) =>
    ((p.declared? d.id).bind Element.toClass?).bind fun c =>
      p.workspace.memberRead? c member.isStatic name

def meantOutside? (p : Program) (l : Library) (q : Place) (name : String) : Option Element :=
  (p.memberMeant? q name).or ((l.scope.lookup name).or (p.workspace.libraries.imported? l name))

/-- What a place in a library gives a name as its meaning. -/
structure Means (p : Program) (l : Library) (q : Place) (name : String) (found : Option Element) :
    Prop where
  bound : ∀ b, q.binder? name = some b → ∃ e, found = some e ∧ b.IsFor l.uri e
  outside : q.binder? name = none → found = p.meantOutside? l q name

end Program

theorem Binder.IsFor.id_eq {uri : String} {b : Binder} {e e' : Element} (he : b.IsFor uri e)
    (he' : b.IsFor uri e') : e.id = e'.id := by
  cases b with
  | «variable» d => exact congrArg Element.id (he.trans he'.symm)
  | function d => exact congrArg Element.id (he.trans he'.symm)
  | param x =>
    obtain ⟨index, type, rfl⟩ := he
    obtain ⟨index', type', rfl⟩ := he'
    rfl
  | exception c name =>
    obtain ⟨type, rfl⟩ := he
    obtain ⟨type', rfl⟩ := he'
    rfl
  | stackTrace c name =>
    obtain ⟨type, rfl⟩ := he
    obtain ⟨type', rfl⟩ := he'
    rfl

namespace Program.Means

variable {p : Program} {l : Library} {q : Place} {name : String} {found found' : Option Element}

theorem id_eq (hfound : p.Means l q name found) (hfound' : p.Means l q name found') :
    found.map Element.id = found'.map Element.id := by
  cases hb : q.binder? name with
  | some b =>
    obtain ⟨e, rfl, he⟩ := hfound.bound b hb
    obtain ⟨e', rfl, he'⟩ := hfound'.bound b hb
    exact congrArg some (he.id_eq he')
  | none => rw [hfound.outside hb, hfound'.outside hb]

theorem eq_none_iff (hfound : p.Means l q name found) :
    found = none ↔ q.binder? name = none ∧ p.meantOutside? l q name = none := by
  cases hb : q.binder? name with
  | some b =>
    obtain ⟨e, rfl, -⟩ := hfound.bound b hb
    simp
  | none => simp [hfound.outside hb]

end Program.Means

/-! ## Members around a place -/

namespace Place

theorem exists_expr_of_readName? {name : String} (hread : q.readName? = some name) :
    ∃ e, q.node = .expr e := by
  unfold readName? at hread
  split at hread
  next hnode => exact ⟨_, hnode⟩
  next => cases hread

theorem exists_class {u : CompilationUnit} (hq : q ∈ walk (.unit u)) {d : ClassDecl}
    {member : Node} (hmember : q.member? = some (d, member)) :
    ∃ p ∈ walk (.unit u), p.node = .class d ∧ p.isOuter = true := by
  rw [mem_walk_iff] at hq
  induction hq with
  | self => cases hmember
  | @child parent r habove hchild _ ih =>
    obtain ⟨c, hc, rfl⟩ := mem_children_iff.mp hchild
    simp only [member?] at hmember
    split at hmember
    next d' hclass =>
      obtain ⟨rfl, rfl⟩ := Prod.mk.inj (Option.some.inj hmember)
      refine ⟨parent, (mem_walk_iff _ _).mpr habove, hclass, ?_⟩
      cases habove with
      | self => cases hclass
      | child habove hparent =>
        obtain ⟨c', hc', rfl⟩ := mem_children_iff.mp hparent
        -- A class is not below anything but a unit or a class.
        simp only [isOuter, Bool.not_eq_true']
        by_contra hinner
        have hbelow := Node.isInner_of_mem_children (by simpa using hinner) hc'
        rw [show c'.2 = .class d' from hclass] at hbelow
        cases hbelow
    next => exact ih hmember

end Place

namespace BodyContext

theorem readMember?_eq (ctx : BodyContext) (name : String) :
    ctx.readMember? name =
      ctx.owner.bind fun c => ctx.workspace.memberRead? c ctx.isStatic name := by
  unfold readMember? Workspace.memberRead? visible
  refine congrArg (Option.bind ctx.owner) (funext fun c => ?_)
  cases ctx.workspace.getter? c name none with
  | some g =>
    simp only [Option.map_some, Option.some_or, Option.filter_some]
    split <;> rfl
  | none =>
    cases ctx.workspace.method? c name none with
    | some m =>
      simp only [Option.map_none, Option.none_or, Option.map_some, Option.filter_some]
      change (if _ then _ else _) = _
      split <;> rfl
    | none => rfl

end BodyContext

section
variable {units : List CompilationUnit} (hunits : Numbered units)
  (hnodup : ∀ u ∈ units, (Node.unit u).numbers.Nodup)
  (hshape : ∀ u ∈ units, (Node.unit u).All Node.WellShaped)
include hunits hnodup hshape

theorem Facts.readMember?_contextAt {u : CompilationUnit} (hu : u ∈ units)
    (hq : q ∈ Place.walk (.unit u)) (name : String) :
    ((Facts.initial (.ofUnits units)).contextAt (.ofUnits units) u.uri q).readMember? name =
      (Program.ofUnits units).memberMeant? q name := by
  rw [BodyContext.readMember?_eq, Program.memberMeant?]
  cases hmember : q.member? with
  | none => simp [contextAt, hmember]
  | some m =>
    obtain ⟨d, member⟩ := m
    obtain ⟨p, hp, hnode, houter⟩ := Place.exists_class hq hmember
    have hdeclared := (Program.noted_ofUnits hunits hnodup hshape).outer u hu p hp houter
    rw [hnode] at hdeclared
    have hsame : (Program.ofUnits units).declared? d.id =
        (Facts.initial (.ofUnits units)).declared[d.id]? := hdeclared
    simp only [contextAt, hmember, Option.bind_some, Option.any_some, hsame]
    rfl

/-- What the context at a place finds is what the place gives the name. -/
theorem BodyContext.Finds.means {l : Library} (hl : l ∈ (Workspace.ofUnits units).libraries)
    (hq : q ∈ Place.walk (.unit l.unit)) {name : String} {found : Option Element}
    (hfound : ((Facts.initial (.ofUnits units)).contextAt (.ofUnits units) l.uri q).Finds q name
      found) : (Program.ofUnits units).Means l q name found := by
  have hfind := (Workspace.counted_ofUnits units).find?_uri hl
  have hmember := Facts.readMember?_contextAt hunits hnodup hshape (Workspace.library_ofUnits hl).1
    hq name
  have houtside : (Workspace.ofUnits units).libraries.lookup l.uri name =
      (l.scope.lookup name).or ((Workspace.ofUnits units).libraries.imported? l name) :=
    Libraries.lookup_eq hfind name
  constructor
  · intro b hb
    simp only [Finds, hb] at hfound
    exact hfound
  · intro hb
    simp only [Finds, hb] at hfound
    have hlookup : found = (((Facts.initial (.ofUnits units)).contextAt (.ofUnits units) l.uri
        q).readMember? name).or ((Workspace.ofUnits units).libraries.lookup l.uri name) := by
      rw [hfound]
      unfold lookupRead
      cases readMember? _ name <;> rfl
    rw [hlookup, houtside]
    exact congrArg (Option.or · _) hmember

end

namespace Shadowing

def text : Source := ⟨"lib/a.dart", "f(x) \x7bvar y = x; \x7bvar x = y; x;\x7d\x7d"⟩

def last? (keep : Node → Bool) (u : CompilationUnit) : Option Place :=
  (Place.root (.unit u)).follow? keep [0, 1, 1, 1, 0]

def declOf? : Binder → Option VarDecl
  | .variable d => some d
  | _ => none

end Shadowing

end CheckedThrows
