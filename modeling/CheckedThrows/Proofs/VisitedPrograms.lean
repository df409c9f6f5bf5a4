import CheckedThrows.Proofs.Origins
import CheckedThrows.Proofs.VisitedBodies

/-!
# What a program goes through

First the signatures and then the bodies of all libraries are gone through.
Nothing but the nodes of a library is written to by the steps for it, and
nothing but that library is warned about.  The bodies of the declarations that
count are gone through in full.
-/

namespace CheckedThrows

open List Resolving
variable {p : Place} {c : ClassElement} {d : FunctionDecl} {n : Node} {f : Facts}

/-! ## Marks without types -/

namespace Mark

def isType : Mark → Bool
  | .type _ => true
  | _ => false

def isWrite : Mark → Bool
  | .write _ => true
  | _ => false

end Mark

def untyped (s : Multiset Mark) : Multiset Mark :=
  s.filter fun m => m.isType = false

def writesOf (s : Multiset Mark) : Multiset Mark :=
  s.filter fun m => m.isWrite = true

section
variable {s : Multiset Mark} {n : NodeId}

theorem write_mem_untyped : Mark.write n ∈ untyped s ↔ Mark.write n ∈ s := by
  rw [untyped, Multiset.mem_filter]
  simp [Mark.isType]

theorem type_notMem_untyped : Mark.type n ∉ untyped s := by
  rw [untyped, Multiset.mem_filter]
  simp [Mark.isType]

theorem count_name_untyped (s : Multiset Mark) (place : Extent) :
    (untyped s).count (.name place) = s.count (.name place) := by
  rw [untyped, Multiset.count_filter]
  simp [Mark.isType]

theorem write_mem_writesOf : Mark.write n ∈ writesOf s ↔ Mark.write n ∈ s := by
  rw [writesOf, Multiset.mem_filter]
  simp [Mark.isWrite]

theorem type_notMem_writesOf : Mark.type n ∉ writesOf s := by
  rw [writesOf, Multiset.mem_filter]
  simp [Mark.isWrite]

theorem count_name_writesOf (s : Multiset Mark) (place : Extent) :
    (writesOf s).count (.name place) = 0 := by
  rw [writesOf, Multiset.count_filter]
  simp [Mark.isWrite]

end

/-- The marks of a declaration that counts, or else those without types. -/
def marksIf (counts : Bool) (s : Multiset Mark) : Multiset Mark :=
  if counts then s else untyped s

theorem count_name_marksIf (counts : Bool) (s : Multiset Mark) (place : Extent) :
    (marksIf counts s).count (.name place) = s.count (.name place) := by
  cases counts with
  | false => exact count_name_untyped s place
  | true => rfl

theorem write_mem_marksIf {counts : Bool} {s : Multiset Mark} {n : NodeId} :
    Mark.write n ∈ marksIf counts s ↔ Mark.write n ∈ s := by
  cases counts with
  | false => exact write_mem_untyped
  | true => exact .rfl

namespace Facts.Visited

variable {uri : String} {own : List NodeId} {s : Multiset Mark} {f g : Facts}

theorem untyped (hvisited : f.Visited uri own s g) : f.Visited uri own (untyped s) g :=
  hvisited.mono (fun _ hn => hn.imp_right write_mem_untyped.mpr)
    (fun _ hn => absurd hn type_notMem_untyped) fun place => (count_name_untyped s place).ge

theorem marksIf (hvisited : f.Visited uri own s g) (counts : Bool) :
    f.Visited uri own (marksIf counts s) g := by
  cases counts with
  | false => exact hvisited.untyped
  | true => exact hvisited

theorem none (hvisited : f.Visited uri own 0 g) : f.Visited uri own (CheckedThrows.untyped s) g :=
  hvisited.mono (fun _ hn => hn.imp_right fun hmem => absurd hmem (Multiset.notMem_zero _))
    (fun _ hn => absurd hn type_notMem_untyped) (by simp)

end Facts.Visited

/-! ## Numbers of the nodes of a tree -/

namespace Node

theorem write_mem_marks {k : NodeId} : Mark.write k ∈ n.marks ↔ k ∈ n.nodes.map id := by
  have hown : ∀ m : Node, Mark.write k ∈ m.ownMarks ↔ m.id = k := by
    intro m
    unfold ownMarks
    split <;> simp [id, Expr.id, Expr.info, eq_comm]
  simp [mem_marks, hown]

theorem mem_nodes_of_mem_children {m : Node} {c : Slot × Node} (hc : c ∈ n.children)
    (hm : m ∈ c.2.nodes) : m ∈ n.nodes := by
  rw [nodes_eq]
  exact mem_cons_of_mem n (mem_flatMap.mpr ⟨c, hc, hm⟩)

theorem mem_nodes_self (n : Node) : n ∈ n.nodes := by
  rw [nodes_eq]
  exact mem_cons_self

theorem id_mem_ids (n : Node) : n.id ∈ n.nodes.map id :=
  mem_map_of_mem n.mem_nodes_self

theorem param_id_mem_ids {p : Param} (hp : p ∈ d.params) :
    p.id ∈ (Node.functionDecl d).nodes.map id := by
  have hchild : (Slot.other, Node.param p) ∈ (Node.functionDecl d).children := by
    simp only [children, stmtChildren, append_assoc]
    exact mem_append_left _ (mem_map_of_mem hp)
  exact mem_map_of_mem (f := id)
    (mem_nodes_of_mem_children hchild (Node.param p).mem_nodes_self)

theorem member_ids_subset {d : ClassDecl} {m : Member} (hm : m ∈ d.members) :
    (ofMember m).nodes.map id ⊆ (Node.class d).nodes.map id := by
  have hchild : (Slot.other, ofMember m) ∈ (Node.class d).children := by
    simp only [children, append_assoc]
    exact mem_append_left _ (mem_map_of_mem hm)
  exact map_subset _ fun k hk => mem_nodes_of_mem_children hchild hk

end Node

/-! ## Signatures -/

section
variable {own : List NodeId} (w : Workspace) (uri : String)

theorem visits_resolveVariableType {d : VarDecl} (hd : d.id ∈ own) :
    Visits uri own 0 (resolveVariableType w uri d) := by
  refine (visits_isDeclared uri d.id).first fun declared => ?_
  split
  · exact (visits_resolveType? w uri d.type).first fun ty => visits_note hd (.variableType ty)
  · exact .pure own _

theorem visits_resolveFunctionSignature (owner : Option ClassElement)
    (hd : (Node.functionDecl d).nodes.map Node.id ⊆ own) :
    Visits uri own 0 (resolveFunctionSignature w uri owner d) := by
  refine (visits_isDeclared uri d.id).first fun declared => ?_
  split
  · have hsignature := visits_resolveSignature w uri owner (hd (Node.functionDecl d).id_mem_ids)
      fun p hp => hd (Node.param_id_mem_ids hp)
    exact hsignature.first fun _ => .pure own _
  · exact .pure own _

theorem visits_forM_none {α : Type} {act : α → Resolving Unit} {l : List α}
    (hact : ∀ a ∈ l, Visits uri own 0 (act a)) : Visits uri own 0 (l.forM act) :=
  (visits_forM hact).of_eq (by simp)

theorem visits_resolveClassSignatures (hc : (Node.class c.decl).nodes.map Node.id ⊆ own)
    (himplicit : ∀ d, (w.constructor? c "").map ExecutableElement.origin = some (.implicit d) →
      d.id ∈ own) : Visits c.library own 0 (resolveClassSignatures w c) := by
  apply (visits_forM_none c.library ?_).first
  · intro _
    apply (visits_forM_none c.library ?_).first
    · intro _
      split
      next d hd =>
        exact (visits_newFunction _ _).first fun _ => visits_note (himplicit d hd) (.signature _)
      next => exact .pure own _
    · intro d hd
      have hmember := Node.member_ids_subset (mem_members_of_toFunction? hd)
      exact visits_resolveFunctionSignature w c.library (some c) fun n hn => hc (hmember hn)
  · intro d hd
    have hmember := Node.member_ids_subset (mem_members_of_toVar? hd)
    exact visits_resolveVariableType w c.library
      (hc (hmember (Node.ofMember (.variable d)).id_mem_ids))

end

/-! ## Facts that the libraries can be gone through from -/

structure Facts.Ready (units : List CompilationUnit) (w : Workspace) (kept : NodeId → Bool)
    (f : Facts) : Prop where
  sound : f.Sound (Element.RootedIn units) w
  plain : f.Plain w.declaredClasses
  declared : ∀ n : NodeId, kept n = true → (f.declared[n]?).isSome

namespace Resolving

/-- From facts that are ready and extend a table, a step goes through nodes with
the given marks and leaves the facts ready. -/
def Passes {α : Type} (units : List CompilationUnit) (w : Workspace) (kept : NodeId → Bool)
    (t : TypeTable) (uri : String) (marks : Multiset Mark) (step : Resolving α) : Prop :=
  ∀ f : Facts, f.Ready units w kept → t.Extends f.types →
    (step.run f).2.Ready units w kept ∧ f.Visited uri [] marks (step.run f).2

section
variable {α β : Type} {units : List CompilationUnit} {w : Workspace} {kept : NodeId → Bool}
  {t : TypeTable} {uri : String} {s s' : Multiset Mark} {step : Resolving α}

theorem Passes.bind {next : α → Resolving β} (hstep : Passes units w kept t uri s step)
    (hnext : ∀ a, Passes units w kept t uri s' (next a)) :
    Passes units w kept t uri (s + s') (step >>= next) := by
  intro f hf ht
  obtain ⟨hready, hvisited⟩ := hstep f hf ht
  obtain ⟨hready', hvisited'⟩ := hnext (step.run f).1 _ hready (ht.trans hvisited.table)
  exact ⟨hready', hvisited.trans hvisited'⟩

theorem passes_forM {act : α → Resolving Unit} (marks : α → Multiset Mark) {l : List α}
    (hact : ∀ a ∈ l, Passes units w kept t uri (marks a) (act a)) :
    Passes units w kept t uri (l.map marks).sum (l.forM act) := by
  induction l with
  | nil => exact fun f hf _ => ⟨hf, .refl [] f⟩
  | cons a l ih =>
    exact (hact a mem_cons_self).bind fun _ =>
      ih fun b hb => hact b (mem_cons_of_mem a hb)

theorem Passes.of_eq (hstep : Passes units w kept t uri s step) (heq : s = s') :
    Passes units w kept t uri s' step :=
  heq ▸ hstep

/-- What a step goes through and that it keeps facts sound are proved apart. -/
theorem Passes.of_keeps (hkeeps : KeepsAll (Element.RootedIn units) w t step)
    (hvisits : ∀ f : Facts, f.Ready units w kept → f.Visited uri [] s (step.run f).2) :
    Passes units w kept t uri s step := by
  intro f hf ht
  have hvisited := hvisits f hf
  refine ⟨⟨(hkeeps f hf.sound ht).1, hvisited.plain _ hf.plain, ?_⟩, hvisited⟩
  exact fun n hn => hvisited.declared n (hf.declared n hn)

end

end Resolving

/-! ## What is declared at a node -/

section
variable {units : List CompilationUnit} (hunits : Numbered units) {w : Workspace}
  {kept : NodeId → Bool} {f : Facts} (hf : f.Ready units w kept) {u : CompilationUnit}
  (hu : u ∈ units) {p : Place} (hp : p ∈ Place.walk (.unit u))
include hunits hf hu hp

theorem Facts.Ready.standsAt {e : Element} (he : f.declared[p.node.id]? = some e) :
    e.StandsAt u p := by
  obtain ⟨hid, -, u', hu', p', hp', hstands⟩ := hf.sound.declared _ _ he
  have hnumber : p'.node.id = p.node.id := by
    rw [hstands.node, Element.id_node, hid]
  obtain ⟨rfl, rfl⟩ := hunits u' hu' u hu p' hp' p hp hnumber
  exact hstands

theorem Facts.Ready.declaredClass {d : ClassDecl} (hnode : p.node = .class d)
    (hdeclared : (f.declared[d.id]?).isSome) :
    ∃ c ∈ w.declaredClasses, (f.declared[d.id]?).bind Element.toClass? = some c ∧ c.decl = d ∧
      c.library = u.uri := by
  obtain ⟨e, he⟩ := Option.isSome_iff_exists.mp hdeclared
  have hstands := hf.standsAt hunits hu hp (e := e) (by rw [hnode]; exact he)
  obtain ⟨hrole, hclasses⟩ := hf.plain _ _ he
  have hother := hstands.node
  rw [hnode] at hother
  rw [he]
  match e with
  | .class c => exact ⟨c, hclasses c rfl, rfl, (Node.class.inj hother).symm, hstands.library⟩
  | .executable ⟨.implicit _, _, _⟩ => cases hrole
  | .executable ⟨.declared _, _, _⟩ | .variable ⟨.declared _, _, _⟩ | .parameter _
  | .variable ⟨.exception .., _, _⟩ | .variable ⟨.stackTrace .., _, _⟩ =>
    simp [Element.node] at hother

theorem Facts.Ready.declaredFunction (hnode : p.node = .functionDecl d)
    (hdeclared : (f.declared[d.id]?).isSome) :
    ∃ e, (f.declared[d.id]?).bind Element.toExecutable? = some e := by
  obtain ⟨e, he⟩ := Option.isSome_iff_exists.mp hdeclared
  have hstands := (hf.standsAt hunits hu hp (e := e) (by rw [hnode]; exact he)).node
  rw [hnode] at hstands
  rw [he]
  match e with
  | .executable e => exact ⟨e, rfl⟩
  | .class _ | .parameter _ | .variable ⟨.declared _, _, _⟩ | .variable ⟨.exception .., _, _⟩
  | .variable ⟨.stackTrace .., _, _⟩ => simp [Element.node] at hstands

end

/-! ## Declarations -/

def memberMarks (kept : NodeId → Bool) : Member → Multiset Mark
  | .variable d => (Node.varDecl d).marks
  | .function d => marksIf (kept d.id) (Node.functionDecl d).marks

def headerMarks (d : ClassDecl) : Multiset Mark :=
  {.write d.id} + ((d.superclass.toList.map fun t => (Node.type (.named t)).marks).sum +
    (d.interfaces.map fun t => (Node.type (.named t)).marks).sum)

def classMarks (kept : NodeId → Bool) (d : ClassDecl) : Multiset Mark :=
  (metadataMarks d.metadata + (d.members.map (memberMarks kept)).sum) + headerMarks d

def declarationMarks (kept : NodeId → Bool) : Declaration → Multiset Mark
  | .class d => marksIf (kept d.id) (classMarks kept d)
  | .function d => marksIf (kept d.id) (Node.functionDecl d).marks
  | .variable d => (Node.varDecl d).marks

def libraryMarks (kept : NodeId → Bool) (l : Library) : Multiset Mark :=
  (l.unit.declarations.map (declarationMarks kept)).sum

theorem sum_membersByKind (kept : NodeId → Bool) (members : List Member) :
    ((members.filterMap Member.toVar?).map fun d => (Node.varDecl d).marks).sum +
      ((members.filterMap Member.toFunction?).map fun d =>
        marksIf (kept d.id) (Node.functionDecl d).marks).sum =
      (members.map (memberMarks kept)).sum := by
  induction members with
  | nil => simp
  | cons m members ih =>
    rw [map_cons, sum_cons, ← ih]
    cases m with
    | «variable» d =>
      simp only [filterMap_cons, Member.toVar?, Member.toFunction?, map_cons,
        sum_cons, memberMarks]
      abel
    | function d =>
      simp only [filterMap_cons, Member.toVar?, Member.toFunction?, map_cons,
        sum_cons, memberMarks]
      abel

theorem sum_declarationsByKind (kept : NodeId → Bool) (declarations : List Declaration) :
    ((declarations.filterMap Declaration.toVar?).map fun d => (Node.varDecl d).marks).sum +
      (((declarations.filterMap Declaration.toClass?).map fun d =>
          marksIf (kept d.id) (classMarks kept d)).sum +
        ((declarations.filterMap Declaration.toFunction?).map fun d =>
          marksIf (kept d.id) (Node.functionDecl d).marks).sum) =
      (declarations.map (declarationMarks kept)).sum := by
  induction declarations with
  | nil => simp
  | cons d declarations ih =>
    rw [map_cons, sum_cons, ← ih]
    cases d with
    | «class» d =>
      simp only [filterMap_cons, Declaration.toVar?, Declaration.toClass?,
        Declaration.toFunction?, map_cons, sum_cons, declarationMarks]
      abel
    | function d =>
      simp only [filterMap_cons, Declaration.toVar?, Declaration.toClass?,
        Declaration.toFunction?, map_cons, sum_cons, declarationMarks]
      abel
    | «variable» d =>
      simp only [filterMap_cons, Declaration.toVar?, Declaration.toClass?,
        Declaration.toFunction?, map_cons, sum_cons, declarationMarks]
      abel

theorem type_notMem_headerMarks (d : ClassDecl) (k : NodeId) : Mark.type k ∉ headerMarks d := by
  have hnone : ∀ ts : List TypeName,
      Mark.type k ∉ (ts.map fun t => (Node.type (.named t)).marks).sum := by
    intro ts
    induction ts with
    | nil => simp
    | cons t ts ih => simp [Node.type_notMem_marks_type, ih]
  simp [headerMarks, hnone]

section
variable {units : List CompilationUnit} (hunits : Numbered units) {kept : NodeId → Bool}
  {u : CompilationUnit} (hu : u ∈ units) {p : Place} (hp : p ∈ Place.walk (.unit u))
  {ctx : BodyContext} (hctx : ctx.library = u.uri)

theorem visits_varDecl {d : VarDecl} {step : Resolving Unit}
    (hstep : Visits u.uri [d.id] (Node.varMarks d) step) :
    Visits u.uri [] (Node.varDecl d).marks step := by
  rw [Node.marks_varDecl]
  exact (hstep.add _ (by simp [type_notMem_typeMarks])).absorb_cons (by simp)

include hctx in
theorem visits_topVariable {d : VarDecl} (hshape : (Node.varDecl d).Shaped) :
    Visits u.uri [] (Node.varDecl d).marks (resolveVariable ctx [] d) := by
  apply visits_varDecl
  rw [← hctx]
  exact visits_resolveVariable d (Node.all_iff.mp hshape).2 mem_cons_self

include hunits hu hp hctx in
theorem visited_resolveDeclaredFunction {w : Workspace} (hf : f.Ready units w kept)
    (hnode : p.node = .functionDecl d) (hshape : (Node.functionDecl d).Shaped) :
    f.Visited u.uri [] (marksIf (kept d.id) (Node.functionDecl d).marks)
      ((resolveDeclaredFunction ctx d).run f).2 := by
  by_cases hdeclared : (f.declared[d.id]?).isSome
  · obtain ⟨e, he⟩ := hf.declaredFunction hunits hu hp hnode hdeclared
    have hrun : (resolveDeclaredFunction ctx d).run f =
        (resolveFunction ctx [] (f.paramsOf e) d).run f := by
      simp [resolveDeclaredFunction, he]
    have hvisits : Visits ctx.library [] (Node.functionDecl d).marks
        (resolveFunction ctx [] (f.paramsOf e) d) := by
      rw [Node.marks_functionDecl]
      exact (visits_resolveFunction d (f.paramsOf e) (Node.all_iff.mp hshape).2).add _
        (by simp [type_notMem_typeMarks, type_notMem_sum_plainMarks])
    rw [hrun, ← hctx]
    exact (hvisits f).marksIf _
  · have hnone : f.declared[d.id]? = none := by simpa using hdeclared
    have hkept : kept d.id = false := by
      by_contra hkept
      exact hdeclared (hf.declared d.id (by simpa using hkept))
    have hrun : (resolveDeclaredFunction ctx d).run f = pure ((), f) := by
      simp [resolveDeclaredFunction, hnone]
    rw [hrun, hkept]
    exact (Facts.Visited.refl [] f).none

end

section
variable {units : List CompilationUnit} (hunits : Numbered units) {kept : NodeId → Bool}
  {t : TypeTable} {u : CompilationUnit} (hu : u ∈ units) (ctx : BodyContext)
  (hctx : ctx.SoundIn (Element.RootedIn units) t) (hlibrary : ctx.library = u.uri)
include hunits hu hctx hlibrary

theorem passes_resolveDeclaredFunction (hp : p ∈ Place.walk (.unit u))
    (hnode : p.node = .functionDecl d)
    (hbelow : (Node.functionDecl d).AllBelow (Node.Yields (Element.RootedIn units) u.uri))
    (hshape : (Node.functionDecl d).Shaped) :
    Passes units ctx.workspace kept t u.uri (marksIf (kept d.id) (Node.functionDecl d).marks)
      (resolveDeclaredFunction ctx d) := by
  apply Passes.of_keeps
  · exact keeps_resolveDeclaredFunction hctx (hlibrary ▸ hbelow)
  · exact fun f hf => visited_resolveDeclaredFunction hunits hu hp hlibrary hf hnode hshape

omit hunits hu in
theorem passes_resolveVariable {d : VarDecl}
    (hbelow : (Node.varDecl d).AllBelow (Node.Yields (Element.RootedIn units) u.uri))
    (hshape : (Node.varDecl d).Shaped) :
    Passes units ctx.workspace kept t u.uri (Node.varDecl d).marks (resolveVariable ctx [] d) := by
  apply Passes.of_keeps
  · exact keeps_resolveVariable d ⟨hctx, Names.soundIn_nil _ _⟩ (hlibrary ▸ hbelow)
  · exact fun f _ => visits_topVariable hlibrary hshape f

omit hunits hu in
theorem passes_resolveMetadata {entries : List Metadatum}
    (hyields : ∀ m ∈ entries, (Node.metadatum m).All (Node.Yields (Element.RootedIn units) u.uri))
    (hshape : ∀ m ∈ entries, (Node.metadatum m).Shaped) :
    Passes units ctx.workspace kept t u.uri (metadataMarks entries)
      (resolveMetadata ctx [] entries) := by
  apply Passes.of_keeps
  · rw [← hlibrary] at hyields
    exact keeps_resolveMetadata entries ⟨hctx, Names.soundIn_nil _ _⟩ hyields
  · rw [← hlibrary]
    exact fun f _ => visits_resolveMetadata entries hshape f

theorem passes_resolveClassBodies (hp : p ∈ Place.walk (.unit u)) (hnode : p.node = .class c.decl)
    (hc : t.HasClass c.type) (hshape : (Node.class c.decl).Shaped) :
    Passes units ctx.workspace kept t u.uri
      (metadataMarks c.decl.metadata + (c.decl.members.map (memberMarks kept)).sum)
      (resolveClassBodies ctx c) := by
  obtain ⟨-, hmembers, -, -, hentries⟩ := Node.all_class.mp hshape
  have hclass := Place.class_yields hu hp hnode
  have hinner : ∀ isStatic, ({ ctx with owner := some c, isStatic } : BodyContext).SoundIn
      (Element.RootedIn units) t := by
    intro isStatic
    refine ⟨hctx.workspace, hctx.holds, hctx.grows, ?_⟩
    intro c' hc'
    exact Option.some.inj hc' ▸ hc
  refine (passes_resolveMetadata ctx hctx hlibrary hclass.entries hentries).bind fun _ => ?_
  have hvariables : ∀ d ∈ c.decl.members.filterMap Member.toVar?,
      Passes units ctx.workspace kept t u.uri (Node.varDecl d).marks (resolveVariable
        { ctx with owner := some c, isStatic := d.modifiers.isStatic } [] d) := by
    intro d hd
    have hm := mem_members_of_toVar? hd
    exact passes_resolveVariable _ (hinner _) hlibrary (hclass.members _ hm) (hmembers _ hm)
  have hfunctions : ∀ d ∈ c.decl.members.filterMap Member.toFunction?,
      Passes units ctx.workspace kept t u.uri (marksIf (kept d.id) (Node.functionDecl d).marks)
        (resolveDeclaredFunction
          { ctx with owner := some c, isStatic := d.modifiers.isStatic } d) := by
    intro d hd
    have hm := mem_members_of_toFunction? hd
    exact passes_resolveDeclaredFunction hunits hu _ (hinner _) hlibrary
      (Place.member_mem_walk hp hnode hm) rfl (hclass.members _ hm) (hmembers _ hm)
  refine ((passes_forM _ hvariables).bind fun _ => passes_forM _ hfunctions).of_eq ?_
  exact sum_membersByKind kept c.decl.members

theorem passes_classDeclaration {d : ClassDecl} (hp : p ∈ Place.walk (.unit u))
    (hnode : p.node = .class d) (hshape : (Node.class d).Shaped)
    {step : Resolving Unit}
    (hsome : ∀ f : Facts, ∀ c, (f.declared[d.id]?).bind Element.toClass? = some c →
      step.run f = (resolveClassBodies ctx c).run f)
    (hnone : ∀ f : Facts, f.declared[d.id]? = none → step.run f = pure ((), f)) :
    Passes units ctx.workspace kept t u.uri (marksIf (kept d.id) (classMarks kept d)) step := by
  intro f hf ht
  by_cases hdeclared : (f.declared[d.id]?).isSome
  · obtain ⟨c, -, hclass, rfl, -⟩ := hf.declaredClass hunits hu hp hnode hdeclared
    have hbodies := passes_resolveClassBodies hunits hu ctx (hctx.mono ht.grows)
      hlibrary hp hnode (hf.sound.declaredClass hclass).2.typed hshape f hf (.refl _)
    rw [hsome f c hclass]
    exact ⟨hbodies.1, (hbodies.2.add _ (type_notMem_headerMarks c.decl)).marksIf _⟩
  · have hnot : f.declared[d.id]? = none := by simpa using hdeclared
    have hkept : kept d.id = false := by
      by_contra hkept
      exact hdeclared (hf.declared d.id (by simpa using hkept))
    rw [hnone f hnot, hkept]
    exact ⟨hf, (Facts.Visited.refl [] f).none⟩

end

/-! ## Libraries -/

section
variable {units : List CompilationUnit} (hunits : Numbered units)
  (hshape : ∀ u ∈ units, (Node.unit u).Shaped) {kept : NodeId → Bool} {l : Library}
  (hl : l ∈ (Workspace.ofUnits units).libraries)
include hunits hshape hl

theorem passes_resolveLibrary :
    Passes units (Workspace.ofUnits units) kept (Workspace.ofUnits units).types l.uri
      (libraryMarks kept l) (resolveLibrary (Workspace.ofUnits units) l) := by
  have hw := Workspace.typed_ofUnits units
  have hyields := Workspace.yields_rootedIn hunits
  have hu := (Workspace.library_ofUnits hl).1
  have hdeclarations := (Node.all_unit.mp (hshape l.unit hu)).2.2
  let ctx : BodyContext := { workspace := Workspace.ofUnits units, library := l.uri }
  have hctx : ctx.SoundIn (Element.RootedIn units) (Workspace.ofUnits units).types :=
    ⟨hw, hyields.holds, .refl _, by simp [ctx]⟩
  have hvariables : ∀ d ∈ l.unit.declarations.filterMap Declaration.toVar?,
      Passes units (Workspace.ofUnits units) kept (Workspace.ofUnits units).types l.uri
        (Node.varDecl d).marks (resolveVariable ctx [] d) := by
    intro d hd
    have hmem := mem_of_mem_toVar? hd
    exact passes_resolveVariable ctx hctx rfl (hyields.topVariables l hl d hmem)
      (hdeclarations _ hmem)
  have hfunctions : ∀ d ∈ l.unit.declarations.filterMap Declaration.toFunction?,
      Passes units (Workspace.ofUnits units) kept (Workspace.ofUnits units).types l.uri
        (marksIf (kept d.id) (Node.functionDecl d).marks) (resolveDeclaredFunction ctx d) := by
    intro d hd
    have hmem := mem_of_mem_toFunction? hd
    exact passes_resolveDeclaredFunction hunits hu ctx hctx rfl
      (Place.ofDeclaration_mem_walk hmem) rfl (hyields.topFunctions l hl d hmem)
      (hdeclarations _ hmem)
  refine Passes.of_eq ((passes_forM _ hvariables).bind fun _ =>
    (passes_forM (fun d => marksIf (kept d.id) (classMarks kept d)) ?_).bind fun _ =>
      passes_forM _ hfunctions) (sum_declarationsByKind kept l.unit.declarations)
  intro d hd
  have hmem := mem_of_mem_toClass? hd
  apply passes_classDeclaration hunits hu ctx hctx rfl (Place.ofDeclaration_mem_walk hmem) rfl
    (hdeclarations _ hmem)
  · intro f c hclass
    simp [hclass, ctx]
  · intro f hnone
    simp [hnone]

end

/-! ## Signatures of libraries -/

theorem Resolving.Visits.writes {α : Type} {uri : String} {own : List NodeId} {step : Resolving α}
    (hstep : Visits uri own 0 step) (hown : own ⊆ n.nodes.map Node.id) :
    Visits uri [] (writesOf n.marks) step := by
  apply hstep.mono
  · intro k hk
    rcases hk with hmem | hmem
    · exact .inr (write_mem_writesOf.mpr (Node.write_mem_marks.mpr (hown hmem)))
    · exact absurd hmem (Multiset.notMem_zero _)
  · exact fun k hk => absurd hk type_notMem_writesOf
  · simp

theorem Workspace.implicit_constructor {units : List CompilationUnit}
    (hc : c ∈ (ofUnits units).declaredClasses) {d : ClassDecl}
    (himplicit : ((ofUnits units).constructor? c "").map ExecutableElement.origin =
      some (.implicit d)) : d = c.decl := by
  obtain ⟨e, he, horigin⟩ := Option.map_eq_some_iff.mp himplicit
  obtain ⟨i, hi, hlookup⟩ := Option.bind_eq_some_iff.mp he
  have hmem := mem_classes_of_classInfo? hi
  have htype : i.type = c.type := by simpa using find?_some hi
  obtain ⟨hdeclared, hmembers⟩ := members_ofUnits hmem
  have hregistered := (isDeclared_linked units).registered
  rw [declaredClasses, libraries_ofUnits] at hc
  have hsame : i.element = c := hregistered.eq_of_type_eq hdeclared hc htype
  have hown := hmembers.constructors _ (mem_of_lookup hlookup)
  rcases hown with ⟨d', -, rfl⟩ | rfl
  · cases horigin
  · rw [← hsame]
    exact (ExecutableOrigin.implicit.inj horigin).symm

section
variable {units : List CompilationUnit} (hunits : Numbered units) {kept : NodeId → Bool}
  {l : Library} (hl : l ∈ (Workspace.ofUnits units).libraries)
include hunits hl

theorem visited_declarationSignature (hf : f.Ready units (Workspace.ofUnits units) kept)
    {d : Declaration} (hd : d ∈ l.unit.declarations) :
    f.Visited l.uri [] (writesOf (Node.ofDeclaration d).marks)
      ((resolveDeclarationSignature (Workspace.ofUnits units) l.uri d).run f).2 := by
  have hu := (Workspace.library_ofUnits hl).1
  cases d with
  | function d =>
    have hvisits := visits_resolveFunctionSignature (Workspace.ofUnits units) l.uri none
      (List.Subset.refl ((Node.functionDecl d).nodes.map Node.id))
    exact hvisits.writes (List.Subset.refl _) f
  | «variable» d =>
    have hvisits := visits_resolveVariableType (Workspace.ofUnits units) l.uri
      (Node.varDecl d).id_mem_ids
    exact hvisits.writes (List.Subset.refl _) f
  | «class» d =>
    by_cases hdeclared : (f.declared[d.id]?).isSome
    · obtain ⟨c, hc, hclass, rfl, hlibrary⟩ :=
        hf.declaredClass hunits hu (Place.ofDeclaration_mem_walk hd) rfl hdeclared
      have hvisits := visits_resolveClassSignatures (Workspace.ofUnits units)
        (List.Subset.refl ((Node.class c.decl).nodes.map Node.id)) (by
          intro d' hd'
          rw [Workspace.implicit_constructor hc hd']
          exact (Node.class c.decl).id_mem_ids)
      rw [hlibrary] at hvisits
      have hrun : (resolveDeclarationSignature (Workspace.ofUnits units) l.uri
          (.class c.decl)).run f = (resolveClassSignatures (Workspace.ofUnits units) c).run f := by
        simp [resolveDeclarationSignature, hclass]
      rw [hrun]
      exact hvisits.writes (List.Subset.refl _) f
    · have hnone : f.declared[d.id]? = none := by simpa using hdeclared
      have hrun : (resolveDeclarationSignature (Workspace.ofUnits units) l.uri
          (.class d)).run f = pure ((), f) := by
        simp [resolveDeclarationSignature, hnone]
      rw [hrun]
      have hvisits : Visits l.uri [] 0 (pure () : Resolving Unit) := .pure [] ()
      exact hvisits.writes (nil_subset _) f

theorem passes_resolveSignatures :
    Passes units (Workspace.ofUnits units) kept (Workspace.ofUnits units).types l.uri
      (l.unit.declarations.map fun d => writesOf (Node.ofDeclaration d).marks).sum
      (l.unit.declarations.forM (resolveDeclarationSignature (Workspace.ofUnits units) l.uri)) := by
  refine passes_forM _ fun d hd => Passes.of_keeps ?_ ?_
  · exact keeps_resolveDeclarationSignature (Workspace.typed_ofUnits units) (.refl _)
      (Workspace.yields_rootedIn hunits) hl hd
  · exact fun f hf => visited_declarationSignature hunits hl hf hd

end

/-! ## All libraries, one after the other -/

theorem countP_isUndefinedName_of_ne {uri uri' : String} (hne : uri ≠ uri') (place : Extent)
    {ds : List Diagnostic} (hds : ∀ d ∈ ds, d.IsWarningIn uri) :
    ds.countP (Diagnostic.isUndefinedName uri' place) = 0 := by
  rw [countP_eq_zero]
  intro d hd hundefined
  obtain ⟨code, -, place', message, rfl⟩ := hds d hd
  have hspan : Span.ofExtent uri place' = .ofExtent uri' place :=
    of_decide_eq_true (Bool.and_eq_true_iff.mp hundefined).2
  exact hne (Option.some.inj (congrArg Span.file hspan))

structure Facts.VisitedAll (ls : List Library) (marks : Library → Multiset Mark)
    (f f' : Facts) : Prop where
  typed : ∀ n : NodeId, (f.staticTypes[n]?).isSome → (f'.staticTypes[n]?).isSome
  covered : ∀ l ∈ ls, ∀ n, Mark.type n ∈ marks l → (f'.staticTypes[n]?).isSome
  warnings : ∃ new, f'.warnings = f.warnings ++ new ∧
    (∀ d ∈ new, ∃ l ∈ ls, d.IsWarningIn l.uri) ∧
    ∀ uri place, new.countP (Diagnostic.isUndefinedName uri place) ≤
      ((ls.filter fun l => l.uri = uri).map fun l => (marks l).count (.name place)).sum

theorem visitedAll_forM {units : List CompilationUnit} {w : Workspace} {kept : NodeId → Bool}
    {t : TypeTable} {act : Library → Resolving Unit} {marks : Library → Multiset Mark}
    {ls : List Library} (hact : ∀ l ∈ ls, Passes units w kept t l.uri (marks l) (act l))
    (hf : f.Ready units w kept) (ht : t.Extends f.types) :
    ((ls.forM act).run f).2.Ready units w kept ∧ t.Extends ((ls.forM act).run f).2.types ∧
      f.VisitedAll ls marks ((ls.forM act).run f).2 := by
  induction ls generalizing f with
  | nil => exact ⟨hf, ht, fun _ h => h, by simp, [], (append_nil _).symm, by simp, by simp⟩
  | cons l ls ih =>
    obtain ⟨hready, hvisited⟩ := hact l mem_cons_self f hf ht
    obtain ⟨hready', ht', hrest⟩ := ih (fun l' hl' => hact l' (mem_cons_of_mem l hl'))
      hready (ht.trans hvisited.table)
    refine ⟨hready', ht', fun n hn => hrest.typed n (hvisited.typed n hn), ?_, ?_⟩
    · intro l' hl' n hn
      rcases mem_cons.mp hl' with rfl | hmem
      · exact hrest.typed n (hvisited.covered n hn)
      · exact hrest.covered l' hmem n hn
    · obtain ⟨new, hnew, hwarn, hcount⟩ := hvisited.warnings
      obtain ⟨new', hnew', hwarn', hcount'⟩ := hrest.warnings
      refine ⟨new ++ new', ?_, ?_, ?_⟩
      · rw [← append_assoc, ← hnew]
        exact hnew'
      · intro d hd
        rcases mem_append.mp hd with hfirst | hlater
        · exact ⟨l, mem_cons_self, hwarn d hfirst⟩
        · obtain ⟨l', hl', hd'⟩ := hwarn' d hlater
          exact ⟨l', mem_cons_of_mem l hl', hd'⟩
      · intro uri place
        rw [countP_append]
        by_cases huri : l.uri = uri
        · rw [filter_cons_of_pos (by simpa using huri), map_cons, sum_cons]
          exact Nat.add_le_add (huri ▸ hcount place) (hcount' uri place)
        · rw [filter_cons_of_neg (by simpa using huri),
            countP_isUndefinedName_of_ne huri place hwarn, Nat.zero_add]
          exact hcount' uri place

end CheckedThrows
