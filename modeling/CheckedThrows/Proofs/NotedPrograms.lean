import CheckedThrows.Proofs.Coverage
import CheckedThrows.Proofs.NotedBodies

/-!
# What is noted in programs

At first nothing is noted.  The signatures are found before any body is gone through,
so every function that has a body to go through has a signature with its parameters.
From then on the bodies of all libraries keep what is noted.
-/

namespace CheckedThrows

open Resolving

variable {c : ClassElement} {u : CompilationUnit}

theorem Facts.noted_initial (units : List CompilationUnit) (skip : Place → Prop) :
    (Facts.initial (.ofUnits units)).Noted units skip fun _ => False where
  operators := by simp [NodeMap.All, initial]
  reads := by simp [NodeMap.All, initial]
  writes := by simp [NodeMap.All, initial]
  meanings := by simp [NodeMap.All, initial]
  names := by simp [initial]
  calls := by simp [initial]
  outer := fun _ _ _ _ _ => rfl
  declared := (all_declared_initial fun _ _ => trivial).imp fun _ _ h => h.1
  signatures := by simp [initial]
  signed := nofun

theorem Facts.Noted.unsign {units : List CompilationUnit} {skip : Place → Prop}
    {signed signed' : NodeId → Prop} {f : Facts} (hf : f.Noted units skip signed)
    (hsigned : ∀ n, signed' n → signed n) : f.Noted units skip signed' :=
  { hf with signed := fun n hn => hf.signed n (hsigned n hn) }

/-! ## Signatures -/

namespace Resolving

def Signs {α : Type} (units : List CompilationUnit) (skip : Place → Prop) (new : NodeId → Prop)
    (step : Resolving α) : Prop :=
  ∀ (signed : NodeId → Prop) (f : Facts), f.Noted units skip signed →
    (step.run f).2.Noted units skip fun n => signed n ∨ new n

section
variable {α β : Type} {units : List CompilationUnit} {skip : Place → Prop}
  {new new' : NodeId → Prop} {step : Resolving α}

theorem signs_of_notes (hstep : ∀ signed, Notes units skip signed step)
    (hnew : ∀ f : Facts, ∀ n, new n → ((step.run f).2.signatures[n]?).isSome) :
    Signs units skip new step := by
  intro signed f hf
  have hnoted := hstep signed f hf
  exact { hnoted with signed := fun n hn => hn.elim (hnoted.signed n) (hnew f n) }

theorem Signs.bind {next : α → Resolving β} (hstep : Signs units skip new step)
    (hnext : ∀ a, Signs units skip new' (next a)) :
    Signs units skip (fun n => new n ∨ new' n) (step >>= next) :=
  fun signed f hf => (hnext _ _ _ (hstep signed f hf)).unsign fun _ hn => or_assoc.mpr hn

theorem signs_forM {act : α → Resolving Unit} {new : α → NodeId → Prop} {l : List α}
    (hact : ∀ a ∈ l, Signs units skip (new a) (act a)) :
    Signs units skip (fun n => ∃ a ∈ l, new a n) (l.forM act) := by
  induction l with
  | nil => exact signs_of_notes (fun _ => .pure ()) (by simp)
  | cons a l ih =>
    have hboth := (hact a List.mem_cons_self).bind fun _ =>
      ih fun b hb => hact b (List.mem_cons_of_mem a hb)
    exact fun signed f hf => (hboth signed f hf).unsign fun n hn => by simpa using hn

end

end Resolving

theorem isSome_resolveSignature (w : Workspace) (uri : String) (owner : Option ClassElement)
    (d : FunctionDecl) (f : Facts) :
    (((resolveSignature w uri owner d).run f).2.signatures[d.id]?).isSome := by
  have hset : ∀ (g : Facts) (s : Signature),
      (({ g with signatures := g.signatures.insert d.id s } : Facts).signatures[d.id]?).isSome := by
    intro g s
    rw [Std.TreeMap.getElem?_insert_self]
    rfl
  rw [resolveSignature]
  generalize d.kind = kind
  cases kind <;> cases owner <;> exact hset _ _

def signedBy (f : Facts) : Declaration → NodeId → Prop
  | .class d, n => ∃ c, (f.declared[d.id]?).bind Element.toClass? = some c ∧
      ∃ d' ∈ c.decl.members.filterMap Member.toFunction?, n = d'.id ∧ (f.declared[n]?).isSome
  | .function d, n => n = d.id ∧ (f.declared[n]?).isSome
  | .variable _, _ => False

def signedIn (units : List CompilationUnit) (n : NodeId) : Prop :=
  ∃ l ∈ (Workspace.ofUnits units).libraries, ∃ d ∈ l.unit.declarations,
    signedBy (.initial (.ofUnits units)) d n

section
variable {units : List CompilationUnit} (hunits : Numbered units) {skip : Place → Prop}
  {u : CompilationUnit} (hu : u ∈ units) {p : Place} (hp : p ∈ Place.walk (.unit u)) (w : Workspace)

theorem notes_resolveVariableType {signed : NodeId → Prop} (uri : String) (d : VarDecl) :
    Notes units skip signed (resolveVariableType w uri d) := by
  refine (preserves_read _).bind fun declared => ?_
  split
  · exact (notes_resolveType? w uri d.type).bind fun type => notes_setVariableType d.id type
  · exact .pure _

include hunits hu hp

theorem signs_resolveFunctionSignature (houter : p.isOuter = true) {d : FunctionDecl}
    (hnode : p.node = .functionDecl d) {uri : String} (huri : uri = u.uri)
    (owner : Option ClassElement) :
    Signs units skip (fun n => n = d.id ∧ ((Facts.initial (.ofUnits units)).declared[n]?).isSome)
      (resolveFunctionSignature w uri owner d) := by
  intro signed f hf
  have hdeclared := hf.outer u hu p hp houter
  rw [hnode] at hdeclared
  have hdeclared : f.declared[d.id]? = (Facts.initial (.ofUnits units)).declared[d.id]? := hdeclared
  have hsignature : Signs units skip (fun n => n = d.id) (resolveSignature w uri owner d) :=
    signs_of_notes (fun _ => notes_resolveSignature hunits hu hp hnode w huri owner) fun f n hn =>
      hn ▸ isSome_resolveSignature w uri owner d f
  have hrun : (resolveFunctionSignature w uri owner d).run f =
      (if (f.declared[d.id]?).isSome then (do let _ ← resolveSignature w uri owner d)
        else pure ()).run f := rfl
  rw [hrun]
  by_cases hsome : (f.declared[d.id]?).isSome
  · rw [if_pos hsome]
    exact (hsignature signed f hf).unsign fun n hn => hn.imp id And.left
  · rw [if_neg hsome]
    refine hf.unsign fun n hn => hn.elim id ?_
    rintro ⟨rfl, hinitial⟩
    exact (hsome (hdeclared ▸ hinitial)).elim

theorem signs_resolveClassSignatures (hnode : p.node = .class c.decl)
    (hclass : c ∈ (Workspace.ofUnits units).declaredClasses) (hlibrary : c.library = u.uri) :
    Signs units skip (fun n => ∃ d ∈ c.decl.members.filterMap Member.toFunction?, n = d.id ∧
        ((Facts.initial (.ofUnits units)).declared[n]?).isSome)
      (resolveClassSignatures (.ofUnits units) c) := by
  have hfields : Signs units skip (fun _ => False) ((c.decl.members.filterMap Member.toVar?).forM
      (resolveVariableType (.ofUnits units) c.library)) :=
    signs_of_notes (fun _ => preserves_forM fun d _ => notes_resolveVariableType _ _ d) nofun
  have hfunctions : Signs units skip (fun n => ∃ d ∈ c.decl.members.filterMap Member.toFunction?,
        n = d.id ∧ ((Facts.initial (.ofUnits units)).declared[n]?).isSome)
      ((c.decl.members.filterMap Member.toFunction?).forM
        (resolveFunctionSignature (.ofUnits units) c.library (some c))) :=
    signs_forM fun d hd => signs_resolveFunctionSignature hunits hu
      (Place.member_mem_walk hp hnode (mem_members_of_toFunction? hd)) (.ofUnits units)
      (by simp [Place.isOuter, hnode, Node.isInner]) rfl hlibrary (some c)
  have hall : Signs units skip (fun n => False ∨ (∃ d ∈ c.decl.members.filterMap Member.toFunction?,
        n = d.id ∧ ((Facts.initial (.ofUnits units)).declared[n]?).isSome) ∨ False)
      (resolveClassSignatures (.ofUnits units) c) := by
    refine hfields.bind fun _ => hfunctions.bind fun _ => signs_of_notes (fun signed => ?_) nofun
    split
    next d hd =>
      obtain rfl := Workspace.implicit_constructor hclass hd
      refine (notes_newFunction [] c.type).bind fun type => ?_
      rw [show c.decl.id = p.node.id by rw [hnode]; rfl]
      refine preserves_modify fun f hf => hf.setSignature hunits hu hp fun d hd => ?_
      rw [hnode] at hd
      cases hd
    next => exact .pure _
  intro signed f hf
  exact (hall signed f hf).unsign fun n hn => hn.imp id fun hnew => .inr (.inl hnew)

end

section
variable {units : List CompilationUnit} (hunits : Numbered units) {skip : Place → Prop}
  {l : Library} (hl : l ∈ (Workspace.ofUnits units).libraries)
include hunits hl

theorem signs_resolveDeclarationSignature {d : Declaration} (hd : d ∈ l.unit.declarations) :
    Signs units skip (signedBy (.initial (.ofUnits units)) d)
      (resolveDeclarationSignature (.ofUnits units) l.uri d) := by
  have hu := (Workspace.library_ofUnits hl).1
  have hp := Place.ofDeclaration_mem_walk hd
  cases d with
  | function d => exact signs_resolveFunctionSignature hunits hu hp _ rfl rfl rfl none
  | «variable» d => exact signs_of_notes (fun _ => notes_resolveVariableType _ _ d) nofun
  | «class» d =>
    intro signed f hf
    have hdeclared : f.declared[d.id]? = (Facts.initial (.ofUnits units)).declared[d.id]? :=
      hf.outer l.unit hu _ hp rfl
    cases hclass : ((Facts.initial (.ofUnits units)).declared[d.id]?).bind Element.toClass? with
    | none =>
      have hrun : (resolveDeclarationSignature (.ofUnits units) l.uri (.class d)).run f =
          pure ((), f) := by
        simp [resolveDeclarationSignature, hdeclared, hclass]
      rw [hrun]
      refine hf.unsign fun n hn => hn.elim id ?_
      rintro ⟨c, hc, -⟩
      cases hclass.symm.trans hc
    | some c =>
      have hrun : (resolveDeclarationSignature (.ofUnits units) l.uri (.class d)).run f =
          (resolveClassSignatures (.ofUnits units) c).run f := by
        simp [resolveDeclarationSignature, hdeclared, hclass]
      obtain ⟨e, he, -⟩ := Option.bind_eq_some_iff.mp hclass
      obtain ⟨c', hmem, hc', rfl, hlibrary⟩ :=
        (Facts.ready_initial units).declaredClass hunits hu hp rfl (by rw [he]; rfl)
      obtain rfl := Option.some.inj (hclass.symm.trans hc')
      rw [hrun]
      refine (signs_resolveClassSignatures hunits hu hp rfl hmem hlibrary signed f hf).unsign
        fun n hn => hn.imp id ?_
      rintro ⟨c', hc', hnew⟩
      obtain rfl := Option.some.inj (hclass.symm.trans hc')
      exact hnew

end

/-! ## Bodies -/

theorem Place.sees_declaration (units : List CompilationUnit)
    {d : Declaration} (hd : d ∈ u.declarations) :
    (ofDeclaration u d).Sees units u { workspace := .ofUnits units, library := u.uri } [] :=
  ⟨ofDeclaration_mem_walk hd, rfl, fun _ => ⟨rfl, Names.shows_nil u.uri⟩⟩

theorem Place.sees_member {units : List CompilationUnit} {d : ClassDecl}
    (hd : Declaration.class d ∈ u.declarations)
    (hc : ((Facts.initial (.ofUnits units)).declared[d.id]?).bind Element.toClass? = some c)
    {m : Member} (hm : m ∈ d.members) :
    (child (ofDeclaration u (.class d)) .other (.ofMember m)).Sees units u
      { workspace := .ofUnits units, library := u.uri, owner := some c,
        isStatic := (Node.ofMember m).isStatic } [] := by
  refine ⟨member_mem_walk (ofDeclaration_mem_walk hd) rfl hm, rfl, fun _ =>
    ⟨?_, Names.shows_nil u.uri⟩⟩
  rw [← hc]
  simp [Facts.contextAt, member?, ofDeclaration, node, Node.ofDeclaration]

section
variable {units : List CompilationUnit} (hunits : Numbered units)
  (hnodup : ∀ u ∈ units, (Node.unit u).numbers.Nodup)
  (hshape : ∀ u ∈ units, (Node.unit u).All Node.WellShaped) {skip : Place → Prop}
  {signed : NodeId → Prop}
include hunits hnodup hshape

theorem notes_resolveDeclaredFunction (hu : u ∈ units) {p : Place}
    {ctx : BodyContext} (h : p.Sees units u ctx []) (houter : p.isOuter = true) {d : FunctionDecl}
    (hnode : p.node = .functionDecl d)
    (hsigned : ((Facts.initial (.ofUnits units)).declared[d.id]?).isSome → signed d.id) :
    Notes units skip signed (resolveDeclaredFunction ctx d) := by
  intro f hf
  have hdeclared := hf.outer u hu p h.mem houter
  rw [hnode] at hdeclared
  have hdeclared : f.declared[d.id]? = (Facts.initial (.ofUnits units)).declared[d.id]? := hdeclared
  cases hfound : (f.declared[d.id]?).bind Element.toExecutable? with
  | none =>
    have hrun : (resolveDeclaredFunction ctx d).run f = pure ((), f) := by
      simp [resolveDeclaredFunction, hfound]
    rw [hrun]
    exact hf
  | some e =>
    have hrun : (resolveDeclaredFunction ctx d).run f =
        (resolveFunction ctx [] (f.paramsOf e) d).run f := by
      simp [resolveDeclaredFunction, hfound]
    obtain ⟨element, helement, hexecutable⟩ := Option.bind_eq_some_iff.mp hfound
    obtain rfl : element = .executable e := by
      cases element <;> cases hexecutable
      rfl
    have hid : e.id.node = d.id := hf.declared _ _ helement
    obtain ⟨s, hs⟩ := Option.isSome_iff_exists.mp
      (hf.signed d.id (hsigned (by rw [← hdeclared, helement]; rfl)))
    have hparams : f.paramsOf e = s.params := by
      rw [Facts.paramsOf, Facts.signature?, hid, hs]
      rfl
    rw [hrun, hparams]
    exact notes_resolveFunction hunits hu (hnodup u hu) (hshape u hu) d h hnode
      (hf.signatures u hu p h.mem d hnode s hs) f hf

variable {l : Library} (hl : l ∈ (Workspace.ofUnits units).libraries)
  (hsigned : ∀ d ∈ l.unit.declarations, ∀ n, signedBy (.initial (.ofUnits units)) d n → signed n)
include hl hsigned

theorem notes_resolveClassBodies (hd : Declaration.class c.decl ∈ l.unit.declarations)
    (hc : ((Facts.initial (.ofUnits units)).declared[c.decl.id]?).bind Element.toClass? = some c) :
    Notes units skip signed
      (resolveClassBodies { workspace := .ofUnits units, library := l.uri } c) := by
  have hu := (Workspace.library_ofUnits hl).1
  have hp := Place.ofDeclaration_mem_walk hd
  refine (notes_resolveMetadata hunits hu (hnodup _ hu) (hshape _ hu) c.decl.metadata hp rfl
    (fun m hm => Node.mem_children_of_mem_metadata (n := .class c.decl) hm) []).bind fun _ => ?_
  refine (preserves_forM fun d hd' => ?_).bind fun _ => preserves_forM fun d hd' => ?_
  · exact notes_resolveVariable hunits hu (hnodup _ hu) (hshape _ hu) d
      (Place.sees_member hd hc (mem_members_of_toVar? hd')) rfl
  · have hm := mem_members_of_toFunction? hd'
    exact notes_resolveDeclaredFunction hunits hnodup hshape hu (Place.sees_member hd hc hm) rfl rfl
      fun hsome => hsigned _ hd _ ⟨c, hc, d, hd', rfl, hsome⟩

theorem notes_resolveLibrary : Notes units skip signed (resolveLibrary (.ofUnits units) l) := by
  have hu := (Workspace.library_ofUnits hl).1
  refine (preserves_forM fun d hd => ?_).bind fun _ =>
    (preserves_forM fun d hd => ?_).bind fun _ => preserves_forM fun d hd => ?_
  · exact notes_resolveVariable hunits hu (hnodup _ hu) (hshape _ hu) d
      (Place.sees_declaration units (mem_of_mem_toVar? hd)) rfl
  · have hmem := mem_of_mem_toClass? hd
    have hp := Place.ofDeclaration_mem_walk hmem
    intro f hf
    have hdeclared : f.declared[d.id]? = (Facts.initial (.ofUnits units)).declared[d.id]? :=
      hf.outer l.unit hu _ hp rfl
    cases hclass : ((Facts.initial (.ofUnits units)).declared[d.id]?).bind Element.toClass? with
    | none =>
      have hsame : (pure ((), f) : Id (Unit × Facts)) = ((), f) := rfl
      simpa [hdeclared, hclass, hsame] using hf
    | some c =>
      obtain ⟨e, he, -⟩ := Option.bind_eq_some_iff.mp hclass
      obtain ⟨c', -, hc', rfl, -⟩ :=
        (Facts.ready_initial units).declaredClass hunits hu hp rfl (by rw [he]; rfl)
      obtain rfl := Option.some.inj (hclass.symm.trans hc')
      have hbodies : Notes units skip signed _ :=
        notes_resolveClassBodies hunits hnodup hshape hl hsigned hmem hclass
      simpa [hdeclared, hclass] using hbodies f hf
  · have hmem := mem_of_mem_toFunction? hd
    exact notes_resolveDeclaredFunction hunits hnodup hshape hu
      (Place.sees_declaration units hmem) rfl rfl fun hsome => hsigned _ hmem _ ⟨rfl, hsome⟩

omit hl hsigned in
theorem Program.noted_ofUnits :
    (Program.ofUnits units).facts.Noted units (fun _ => False) fun _ => False := by
  have hsignatures : Signs units (fun _ => False) (signedIn units)
      (resolveSignatures (.ofUnits units)) :=
    signs_forM fun l hl => signs_forM fun d hd => signs_resolveDeclarationSignature hunits hl hd
  have hbodies : Notes units (fun _ => False) (signedIn units)
      ((Workspace.ofUnits units).libraries.forM (resolveLibrary (.ofUnits units))) :=
    preserves_forM fun l hl =>
      notes_resolveLibrary hunits hnodup hshape hl fun d hd n hn => ⟨l, hl, d, hd, hn⟩
  have hsigned := hsignatures _ _ (Facts.noted_initial units fun _ => False)
  exact (notes_notice _ _ (hbodies _ (hsigned.unsign fun _ hn => .inr hn))).unsign nofun

end

end CheckedThrows
