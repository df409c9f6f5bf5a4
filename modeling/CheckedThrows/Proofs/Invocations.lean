import CheckedThrows.Effects.Candidate
import CheckedThrows.Proofs.MemberTables
import CheckedThrows.Proofs.NotedPrograms

/-!
# What a place invokes

The resolution notes operators, what is read and written, and what names and calls
mean.  The executables that a place invokes are exactly those noted for it, but that a
getter which is called belongs to the call and not to the callee.
-/

namespace CheckedThrows

open List

variable {e : ExecutableElement} (es : List ExecutableElement) {q : Place}

/-! ## Distinct executables -/

theorem distinctExecutables_concat (e : ExecutableElement) :
    distinctExecutables (es ++ [e]) =
      if e.id ∈ (distinctExecutables es).map ExecutableElement.id then distinctExecutables es
      else distinctExecutables es ++ [e] := by
  have hany : ((distinctExecutables es).any fun k => k.id = e.id) =
      decide (e.id ∈ (distinctExecutables es).map ExecutableElement.id) := by
    rw [Bool.eq_iff_iff]
    simp
  rw [distinctExecutables, foldl_append]
  show (if ((distinctExecutables es).any fun k => k.id = e.id) = true then distinctExecutables es
    else distinctExecutables es ++ [e]) = _
  rw [hany]
  simp only [decide_eq_true_eq]

theorem nodup_distinctExecutables : ((distinctExecutables es).map ExecutableElement.id).Nodup := by
  induction es using List.reverseRecOn with
  | nil => exact .nil
  | append_singleton es e ih =>
    rw [distinctExecutables_concat]
    split
    next => exact ih
    next hnew =>
      rw [map_append, map_singleton]
      exact nodup_append.mpr ⟨ih, nodup_singleton _, by
        rintro k hk k' hk' rfl
        exact hnew (mem_singleton.mp hk' ▸ hk)⟩

theorem ids_distinctExecutables (k : ElementId) :
    k ∈ (distinctExecutables es).map ExecutableElement.id ↔ k ∈ es.map ExecutableElement.id := by
  induction es using List.reverseRecOn with
  | nil => exact Iff.rfl
  | append_singleton es e ih =>
    rw [distinctExecutables_concat, map_append, mem_append, ← ih]
    split
    next hold =>
      refine ⟨.inl, fun hk => hk.elim id fun hk => ?_⟩
      rw [mem_singleton.mp hk]
      exact hold
    next => rw [map_append, mem_append]

theorem mem_of_mem_distinctExecutables {es : List ExecutableElement}
    (he : e ∈ distinctExecutables es) : e ∈ es := by
  induction es using List.reverseRecOn with
  | nil => exact he
  | append_singleton es e' ih =>
    rw [distinctExecutables_concat] at he
    split at he
    · exact mem_append_left _ (ih he)
    · rcases mem_append.mp he with hold | hnew
      · exact mem_append_left _ (ih hold)
      · exact mem_append_right _ hnew

theorem mem_distinctExecutables {es : List ExecutableElement}
    (hids : ∀ a ∈ es, ∀ b ∈ es, a.id = b.id → a = b) : e ∈ distinctExecutables es ↔ e ∈ es := by
  refine ⟨mem_of_mem_distinctExecutables, fun he => ?_⟩
  obtain ⟨k, hk, hid⟩ := mem_map.mp
    ((ids_distinctExecutables es e.id).mpr (mem_map_of_mem he))
  rwa [← hids k (mem_of_mem_distinctExecutables hk) e he hid]

/-! ## Executables of a program -/

def Element.OwnedIn (w : Workspace) (e : Element) : Prop :=
  ∀ c ∈ e.owner, c ∈ w.declaredClasses

theorem Element.IsMemberOf.owner {owner : ClassElement} {e : Element} (he : e.IsMemberOf owner) :
    e.owner = some owner := by
  cases e with
  | executable e =>
    rcases he with ⟨d, -, rfl⟩ | rfl
    · rfl
    · rfl
  | «variable» v =>
    obtain ⟨d, -, rfl⟩ := he
    rfl
  | «class» c => exact he.elim
  | parameter p => exact he.elim

namespace Workspace

theorem yields_ownedIn (units : List CompilationUnit) :
    (ofUnits units).Yields (Element.OwnedIn (.ofUnits units)) := by
  have hnode : ∀ library (n : Node), n.Yields (Element.OwnedIn (.ofUnits units)) library := by
    intro library n
    unfold Node.Yields
    split <;> simp [Element.OwnedIn, Element.owner]
  have hbelow : ∀ library (n : Node),
      n.AllBelow (Node.Yields (Element.OwnedIn (.ofUnits units)) library) :=
    fun library n c _ p _ => hnode library p.node
  have hclass : ∀ library (d : ClassDecl), d.Yields (Element.OwnedIn (.ofUnits units)) library :=
    fun library d => ⟨fun m _ => hbelow library _, fun m _ p _ => hnode library p.node⟩
  refine ⟨⟨fun l hl entry hentry => ?_, fun i hi => ?_⟩, fun l _ d _ => hbelow l.uri _,
    fun l _ d _ => hbelow l.uri _, fun l _ d _ c _ _ => ⟨hclass c.library c.decl, hclass l.uri c.decl⟩⟩
  · rw [Element.OwnedIn, ((library_ofUnits hl).2.scope entry hentry).owner]
    nofun
  · obtain ⟨hdeclared, hmembers⟩ := members_ofUnits hi
    rw [declaredClasses, ← libraries_ofUnits] at hdeclared
    refine hmembers.imp fun e he => ?_
    rw [Element.OwnedIn, he.owner]
    rintro c ⟨⟩
    exact hdeclared

theorem class_eq_of_decl {units : List CompilationUnit} (hunits : Numbered units)
    (hnodup : ∀ u ∈ units, (Node.unit u).numbers.Nodup) {c c' : ClassElement}
    (hc : c ∈ (ofUnits units).declaredClasses) (hc' : c' ∈ (ofUnits units).declaredClasses)
    (hdecl : c.decl = c'.decl) : c = c' := by
  obtain ⟨l, hl, hclass⟩ := mem_flatMap.mp hc
  obtain ⟨l', hl', hclass'⟩ := mem_flatMap.mp hc'
  obtain ⟨hunit, hdeclared⟩ := library_ofUnits hl
  obtain ⟨hunit', hdeclared'⟩ := library_ofUnits hl'
  have hsame : l.unit = l'.unit := (hunits _ hunit _ hunit' _
    (Place.ofDeclaration_mem_walk (hdeclared.classes c hclass).1) _
    (Place.ofDeclaration_mem_walk (hdeclared'.classes c' hclass').1)
    (congrArg ClassDecl.id hdecl)).1
  have huri : l.uri = l'.uri := congrArg CompilationUnit.uri hsame
  obtain rfl := inj_on_of_nodup_map (counted_ofUnits units).distinct hl hl' huri
  exact class_eq_of_id hl (hnodup _ hunit) hclass hclass' (congrArg ClassDecl.id hdecl)

end Workspace

theorem ExecutableElement.eq_of_id {units : List CompilationUnit} (hunits : Numbered units)
    (hnodup : ∀ u ∈ units, (Node.unit u).numbers.Nodup) {e' : ExecutableElement}
    (he : (Element.executable e).RootedIn units ∧ (Element.executable e).OwnedIn (.ofUnits units))
    (he' : (Element.executable e').RootedIn units ∧
      (Element.executable e').OwnedIn (.ofUnits units)) (hid : e.id = e'.id) : e = e' := by
  obtain ⟨⟨u, hu, p, hp, hstands⟩, howned⟩ := he
  obtain ⟨⟨u', hu', p', hp', hstands'⟩, howned'⟩ := he'
  have hnumber : p.node.id = p'.node.id := by
    rw [hstands.node, hstands'.node, Element.id_node, Element.id_node]
    exact congrArg ElementId.node hid
  obtain ⟨rfl, rfl⟩ := hunits u hu u' hu' p hp p' hp' hnumber
  have hnode : (Element.executable e).node = (Element.executable e').node :=
    hstands.node.symm.trans hstands'.node
  have hrole : (Element.executable e).id = (Element.executable e').id := hid
  have horigin : some e.origin = some e'.origin :=
    ((Element.executable e).origin_eq.trans (by rw [hnode, hrole])).trans
      (Element.executable e').origin_eq.symm
  have hlibrary : e.library = e'.library := hstands.library.trans hstands'.library.symm
  have howner : e.owner.map ClassElement.decl = e'.owner.map ClassElement.decl := by
    rw [show e.owner.map ClassElement.decl = _ from hstands.owner,
      show e'.owner.map ClassElement.decl = _ from hstands'.owner, hnode, hrole]
  obtain ⟨origin, library, owner⟩ := e
  obtain ⟨origin', library', owner'⟩ := e'
  obtain rfl : origin = origin' := Option.some.inj horigin
  obtain rfl : library = library' := hlibrary
  congr 1
  cases owner with
  | none => exact (Option.map_eq_none_iff.mp howner.symm).symm
  | some c =>
    obtain ⟨c', hc', hdecl⟩ := Option.map_eq_some_iff.mp howner.symm
    obtain rfl : owner' = some c' := hc'
    rw [Workspace.class_eq_of_decl hunits hnodup (howned c rfl) (howned' c' rfl) hdecl.symm]

/-! ## Callees and targets -/

namespace Node

theorem exists_of_callee {n : Node} {c : Slot × Node} (hc : c ∈ n.children)
    (hslot : c.1 = .callee) :
    ∃ info callee args creation, n = .expr (.call info callee args creation) ∧
      c.2 = .expr callee := by
  cases n with
  | stmt s => cases s <;> simp [children, stmtChildren] at hc <;> grind
  | expr e => cases e <;> simp [children, exprChildren] at hc <;> grind
  | _ => simp [children] at hc <;> grind

theorem exists_of_target {n : Node} {c : Slot × Node} (hc : c ∈ n.children)
    (hslot : c.1 = .target) :
    ∃ x, c.2 = .expr x ∧ ((∃ info op value, n = .expr (.assign info op x value)) ∨
      ∃ info op form, n = .expr (.step info op form x)) := by
  cases n with
  | stmt s => cases s <;> simp [children, stmtChildren] at hc <;> grind
  | expr e => cases e <;> simp [children, exprChildren] at hc <;> grind
  | _ => simp [children] at hc <;> grind

end Node

namespace Place

theorem exists_parent {root : Node} (hq : q ∈ walk root) (hslot : q.slot ≠ .other) :
    ∃ parent ∈ walk root, q.parent? = some parent ∧ (q.slot, q.node) ∈ parent.node.children := by
  rw [mem_walk_iff] at hq
  cases hq with
  | self => exact (hslot rfl).elim
  | child above isChild _ =>
    obtain ⟨c, hc, rfl⟩ := mem_children_iff.mp isChild
    exact ⟨_, (mem_walk_iff _ _).mpr above, rfl, hc⟩

theorem exists_call {root : Node} (hq : q ∈ walk root) (hcallee : q.isNamedCallee = true) :
    ∃ parent ∈ walk root, q.parent? = some parent ∧ parent.namedCallee? = some q.node.id := by
  unfold isNamedCallee at hcallee
  split at hcallee
  next e hnode =>
    simp only [Bool.and_eq_true, decide_eq_true_eq] at hcallee
    obtain ⟨hslot, hnamed⟩ := hcallee
    obtain ⟨parent, hparent, hup, hchild⟩ := exists_parent hq (by simp [hslot])
    obtain ⟨info, callee, args, creation, hcall, hsame⟩ := Node.exists_of_callee hchild hslot
    obtain rfl : callee = e := Node.expr.inj (hsame.symm.trans hnode)
    refine ⟨parent, hparent, hup, ?_⟩
    rw [namedCallee?, hcall, hnode]
    exact if_pos hnamed
  next => cases hcallee

theorem exists_assignable {u : CompilationUnit} (hshape : (Node.unit u).All Node.WellShaped)
    (hq : q ∈ walk (.unit u)) (hslot : q.slot = .target) :
    ∃ x, q.node = .expr x ∧ x.isAssignable = true := by
  obtain ⟨parent, hparent, -, hchild⟩ := exists_parent hq (by simp [hslot])
  obtain ⟨x, hx, hassigns⟩ := Node.exists_of_target hchild hslot
  have hok := hshape parent hparent
  rcases hassigns with ⟨info, op, value, hnode⟩ | ⟨info, op, form, hnode⟩
  · rw [hnode] at hok
    exact ⟨x, hx, hok⟩
  · rw [hnode] at hok
    exact ⟨x, hx, hok⟩

end Place

/-! ## What is noted for a place -/

/-- An executable is noted for a place: as an operator, as what is read or written
there, as what a call calls, or as a getter that is read and not called. -/
inductive Program.Records (p : Program) (q : Place) (e : ExecutableElement) : Prop
  | operator (noted : p.operator? q.node.id = some e)
  | read (noted : p.read? q.node.id = some (.executable e))
  | write (noted : p.write? q.node.id = some (.executable e))
  | call {info : NodeInfo} {callee : Expr} {args : List Expr} {creation : Option CreationWord}
      (node : q.node = .expr (.call info callee args creation))
      (noted : p.meaning? q.node.id = some (.executable e))
  | getter {x : Expr} (node : q.node = .expr x) (isNamed : x.isNamed = true)
      (slot : q.slot ≠ .callee) (isGetter : e.kind = .getter)
      (noted : p.meaning? q.node.id = some (.executable e))

theorem mem_executables {found : List (Option Element)} :
    e ∈ executables found ↔ some (.executable e) ∈ found := by
  rw [executables, mem_filterMap]
  constructor
  · rintro ⟨x, hx, hto⟩
    obtain ⟨element, rfl, hto⟩ := Option.bind_eq_some_iff.mp hto
    cases element <;> cases hto
    exact hx
  · exact fun hx => ⟨_, hx, rfl⟩

namespace Program

theorem getter?_eq_some_iff {p : Program} {n : NodeId} :
    p.getter? n = some (.executable e) ↔
      p.meaning? n = some (.executable e) ∧ e.kind = .getter := by
  rw [getter?, Option.filter_eq_some_iff]
  simp

namespace Records

variable {p : Program} {q : Place} {e : ExecutableElement}

theorem sound {P : Element → Prop} {w : Workspace} (hp : p.facts.Sound P w)
    (he : p.Records q e) : P (.executable e) := by
  cases he with
  | operator noted => exact (hp.operators _ _ noted).holds
  | read noted => exact (hp.reads _ _ noted).holds
  | write noted => exact (hp.writes _ _ noted).holds
  | call _ noted => exact (hp.meanings _ _ noted).holds
  | getter _ _ _ _ noted => exact (hp.meanings _ _ noted).holds

theorem of_mem_invocations {x : Expr} (hnode : q.node = .expr x)
    (he : some (.executable e) ∈ p.invocations q.slot x) : p.Records q e := by
  have hid : q.node.id = x.id := by rw [hnode]; rfl
  have hoperator : (p.operator? x.id).map Element.executable = some (.executable e) →
      p.Records q e := by
    intro h
    obtain ⟨y, hy, heq⟩ := Option.map_eq_some_iff.mp h
    exact .operator (by rw [hid, hy, Element.executable.inj heq])
  have hread : p.read? x.id = some (.executable e) → p.Records q e := fun h => .read (hid ▸ h)
  have hwrite : p.write? x.id = some (.executable e) → p.Records q e := fun h => .write (hid ▸ h)
  have hgetter : x.isNamed = true → q.slot ≠ .callee → p.getter? x.id = some (.executable e) →
      p.Records q e := by
    intro hnamed hslot h
    obtain ⟨hmeaning, hkind⟩ := getter?_eq_some_iff.mp h
    exact .getter hnode hnamed hslot hkind (hid ▸ hmeaning)
  unfold invocations at he
  split at he
  · exact .call hnode (hid ▸ (mem_singleton.mp he).symm)
  case h_2 | h_3 =>
    split at he
    next => cases he
    next hslot =>
      exact hgetter rfl (fun h => hslot (.inl h)) (mem_singleton.mp he).symm
  · split at he
    · cases he
    · exact hoperator (mem_singleton.mp he).symm
  · exact hoperator (mem_singleton.mp he).symm
  · exact hoperator (mem_singleton.mp he).symm
  · simp only [mem_cons, not_mem_nil, or_false] at he
    rcases he with h | h | h
    · exact hoperator h.symm
    · exact hread h.symm
    · exact hwrite h.symm
  · split at he
    · exact hwrite (mem_singleton.mp he).symm
    · simp only [mem_cons, not_mem_nil, or_false] at he
      rcases he with h | h | h
      · exact hwrite h.symm
      · exact hread h.symm
      · exact hoperator h.symm
  · cases he

end Records

end Program

section
variable {units : List CompilationUnit} (hunits : Numbered units) {skip : Place → Prop}
  {signed : NodeId → Prop} {p : Program} (hp : p.facts.Noted units skip signed)
  {u : CompilationUnit} (hu : u ∈ units) {q : Place} (hq : q ∈ Place.walk (.unit u))
  {e : ExecutableElement}
include hunits hp hu hq

theorem Program.Records.mem_invocations (he : p.Records q e) :
    ∃ x, q.node = .expr x ∧ some (.executable e) ∈ p.invocations q.slot x := by
  cases he with
  | operator noted =>
    have hkind := (hp.operators _ _ noted).kind_eq hunits hu hq
    unfold Place.appliesOperator at hkind
    split at hkind
    next info _ _ hnode =>
      have noted : p.operator? info.id = some e := by rwa [hnode] at noted
      exact ⟨_, hnode, by simpa [invocations, noted] using hkind⟩
    next info _ _ _ hnode =>
      have noted : p.operator? info.id = some e := by rwa [hnode] at noted
      exact ⟨_, hnode, by simp [invocations, noted]⟩
    next info _ _ hnode =>
      have noted : p.operator? info.id = some e := by rwa [hnode] at noted
      exact ⟨_, hnode, by simp [invocations, noted]⟩
    next info _ _ _ hnode =>
      have noted : p.operator? info.id = some e := by rwa [hnode] at noted
      exact ⟨_, hnode, by simp [invocations, noted]⟩
    next info op _ _ hnode =>
      have noted : p.operator? info.id = some e := by rwa [hnode] at noted
      refine ⟨_, hnode, ?_⟩
      cases op <;> simp [invocations, noted, AssignOp.stores] at hkind ⊢
    next => cases hkind
  | read noted =>
    have hkind := (hp.reads _ _ noted).kind_eq hunits hu hq
    unfold Place.readsFirst at hkind
    split at hkind
    next info _ _ _ hnode =>
      have noted : p.read? info.id = some (.executable e) := by rwa [hnode] at noted
      exact ⟨_, hnode, by simp [invocations, noted]⟩
    next info op _ _ hnode =>
      have noted : p.read? info.id = some (.executable e) := by rwa [hnode] at noted
      refine ⟨_, hnode, ?_⟩
      cases op <;> simp [invocations, noted, AssignOp.reads] at hkind ⊢
    next => cases hkind
  | write noted =>
    have hkind := (hp.writes _ _ noted).kind_eq hunits hu hq
    unfold Place.isWriting at hkind
    split at hkind
    next info _ _ _ hnode =>
      have noted : p.write? info.id = some (.executable e) := by rwa [hnode] at noted
      exact ⟨_, hnode, by simp [invocations, noted]⟩
    next info op _ _ hnode =>
      have noted : p.write? info.id = some (.executable e) := by rwa [hnode] at noted
      refine ⟨_, hnode, ?_⟩
      cases op <;> simp [invocations, noted]
    next => cases hkind
  | call node noted =>
    rw [node] at noted
    exact ⟨_, node, mem_singleton.mpr noted.symm⟩
  | @getter x node isNamed slot isGetter noted =>
    have hkind := (hp.meanings _ _ noted).kind_eq hunits hu hq
    have hgetter : p.getter? x.id = some (.executable e) :=
      getter?_eq_some_iff.mpr ⟨by rwa [node] at noted, isGetter⟩
    rw [Place.hasMeaning, node] at hkind
    refine ⟨x, node, ?_⟩
    cases x <;> simp [invocations, Expr.isNamed, slot] at isNamed hkind ⊢
    · exact ⟨hkind, hgetter.symm⟩
    · exact ⟨hkind, hgetter.symm⟩

end

section
variable {units : List CompilationUnit} (hunits : Numbered units)
  (hnodup : ∀ u ∈ units, (Node.unit u).numbers.Nodup)
  (hshape : ∀ u ∈ units, (Node.unit u).All Node.WellShaped) {u : CompilationUnit} (hu : u ∈ units)
  {q : Place} (hq : q ∈ Place.walk (.unit u))
include hunits hnodup hshape hu hq

theorem Program.mem_invoked_iff :
    e ∈ (Program.ofUnits units).invoked q ↔ (Program.ofUnits units).Records q e := by
  have hnoted := Program.noted_ofUnits hunits hnodup hshape
  cases hnode : q.node with
  | expr x =>
    have hiff : ∀ e, e ∈ executables ((Program.ofUnits units).invocations q.slot x) ↔
        (Program.ofUnits units).Records q e := by
      intro e
      rw [mem_executables]
      refine ⟨Records.of_mem_invocations hnode, fun he => ?_⟩
      obtain ⟨x', hnode', hmem⟩ := he.mem_invocations hunits hnoted hu hq
      rwa [Node.expr.inj (hnode'.symm.trans hnode)] at hmem
    have hroots : ∀ e, (Program.ofUnits units).Records q e →
        (Element.executable e).RootedIn units ∧
          (Element.executable e).OwnedIn (.ofUnits units) := fun e he =>
      ⟨he.sound (Program.rooted_ofUnits hunits),
        he.sound (Program.sound_ofUnits (Workspace.yields_ownedIn units))⟩
    rw [Program.invoked, hnode]
    refine (mem_distinctExecutables fun a ha b hb => ?_).trans (hiff e)
    exact ExecutableElement.eq_of_id hunits hnodup (hroots a ((hiff a).mp ha))
      (hroots b ((hiff b).mp hb))
  | _ =>
    refine ⟨fun he => ?_, fun he => ?_⟩
    · rw [Program.invoked, hnode] at he
      cases he
    · obtain ⟨x, hx, -⟩ := he.mem_invocations hunits hnoted hu hq
      cases hnode.symm.trans hx

omit hnodup hshape hu hq hunits in
theorem Program.invoked_namedCallee (p : Program) (hcallee : q.isNamedCallee = true) :
    p.invoked q = [] := by
  unfold Place.isNamedCallee at hcallee
  split at hcallee
  next e hnode =>
    simp only [Bool.and_eq_true, decide_eq_true_eq] at hcallee
    rw [invoked, hnode]
    cases e <;> simp [Expr.isNamed] at hcallee
    all_goals simp [invocations, hcallee, executables, distinctExecutables]
  next => cases hcallee

theorem Program.exists_call_of_getter (hcallee : q.isNamedCallee = true)
    (hgetter : e.kind = .getter)
    (hmeaning : (Program.ofUnits units).meaning? q.node.id = some (.executable e)) :
    ∃ parent, q.parent? = some parent ∧ e ∈ (Program.ofUnits units).invoked parent := by
  have hnoted := Program.noted_ofUnits hunits hnodup hshape
  obtain ⟨parent, hparent, hup, hcall⟩ := Place.exists_call hq hcallee
  have hmeant := hnoted.calls u hu parent hparent id _ hcall e hgetter hmeaning
  refine ⟨parent, hup, (mem_invoked_iff hunits hnodup hshape hu hparent).mpr ?_⟩
  unfold Place.namedCallee? at hcall
  split at hcall
  next hnode => exact .call hnode hmeant
  next => cases hcall

theorem Program.invoked_target (hslot : q.slot = .target) :
    (Program.ofUnits units).invoked q = [] ∧
      (Program.ofUnits units).meaning? q.node.id = none ∧
      (Program.ofUnits units).operator? q.node.id = none ∧
      (Program.ofUnits units).read? q.node.id = none ∧
      (Program.ofUnits units).write? q.node.id = none := by
  have hnoted := Program.noted_ofUnits hunits hnodup hshape
  obtain ⟨x, hnode, hassignable⟩ := Place.exists_assignable (hshape u hu) hq hslot
  have hnone : ∀ {α : Type} {kind : Place → Bool} {found : NodeMap α},
      NodeMap.All (fun n _ => NotedAt units kind n) found → kind q = false →
      found[q.node.id]? = none := by
    intro α kind found hall hkind
    cases hfound : found[q.node.id]? with
    | none => rfl
    | some a =>
      have htrue := (hall _ _ hfound).kind_eq hunits hu hq
      rw [hkind] at htrue
      cases htrue
  refine ⟨?_, hnone hnoted.meanings ?_, hnone hnoted.operators ?_, hnone hnoted.reads ?_,
    hnone hnoted.writes ?_⟩
  · rw [invoked, hnode]
    cases x <;> simp [Expr.isAssignable] at hassignable
    all_goals simp [invocations, hslot, executables, distinctExecutables]
  · rw [Place.hasMeaning, hnode]
    cases x <;> simp [Expr.isAssignable, hslot] at hassignable ⊢
  · rw [Place.appliesOperator, hnode]
    cases x <;> simp [Expr.isAssignable, hslot] at hassignable ⊢
  · rw [Place.readsFirst, hnode]
    cases x <;> simp [Expr.isAssignable] at hassignable ⊢
  · rw [Place.isWriting, hnode]
    cases x <;> simp [Expr.isAssignable] at hassignable ⊢

end

/-- The executables that a place invokes have no repetition and are exactly those
noted for it.  A name or a member that is called invokes nothing; if it means a getter,
then the call invokes that.  A target invokes nothing, and nothing is noted for it. -/
theorem invoked_exactly_noted {next : NodeId} {sources : List Source}
    {parsed : List (Source × Except Diagnostic CompilationUnit)}
    (hparsed : Source.parseAll next sources = .ok parsed) {units : List CompilationUnit}
    (hunits : units ⊆ parsed.filterMap Loaded.unitOf?) {u : CompilationUnit} (hu : u ∈ units)
    {q : Place} (hq : q ∈ Place.walk (.unit u)) :
    (((Program.ofUnits units).invoked q).map ExecutableElement.id).Nodup ∧
    (∀ e, e ∈ (Program.ofUnits units).invoked q ↔ (Program.ofUnits units).Records q e) ∧
    (q.isNamedCallee = true → (Program.ofUnits units).invoked q = [] ∧
      ∀ e : ExecutableElement, e.kind = .getter →
        (Program.ofUnits units).meaning? q.node.id = some (.executable e) →
        ∃ parent, q.parent? = some parent ∧ e ∈ (Program.ofUnits units).invoked parent) ∧
    (q.slot = .target → (Program.ofUnits units).invoked q = [] ∧
      (Program.ofUnits units).meaning? q.node.id = none ∧
      (Program.ofUnits units).operator? q.node.id = none ∧
      (Program.ofUnits units).read? q.node.id = none ∧
      (Program.ofUnits units).write? q.node.id = none) := by
  have hnumbered := (Source.numberedFrom_parseAll hparsed).numbered.of_subset hunits
  have hnodup : ∀ u ∈ units, (Node.unit u).numbers.Nodup := fun u hu =>
    Source.nodup_numbers_parseAll hparsed u (hunits hu)
  have hshape : ∀ u ∈ units, (Node.unit u).All Node.WellShaped := fun u hu =>
    (Source.proper_parseAll hparsed u (hunits hu)).shaped
  refine ⟨?_, fun e => Program.mem_invoked_iff hnumbered hnodup hshape hu hq,
    fun hcallee => ⟨Program.invoked_namedCallee _ hcallee, fun e => ?_⟩,
    Program.invoked_target hnumbered hnodup hshape hu hq⟩
  · unfold Program.invoked
    split
    · exact nodup_distinctExecutables _
    · exact .nil
  · exact Program.exists_call_of_getter hnumbered hnodup hshape hu hq hcallee

namespace CalledValue

def callee? (u : CompilationUnit) : Option Place :=
  (Place.root (.unit u)).follow? (fun n => !n.isMetadatum) [1, 0, 0]

theorem callee?_mem_walkCode {u : CompilationUnit} (hq : q ∈ callee? u) :
    q ∈ Place.walkCode (.unit u) :=
  (Place.mem_walkCode_iff _ _).mpr (Place.reaches_of_follow? hq)

def twice : Source := ⟨"lib/a.dart", "f() => 0; var x = f()();"⟩

/-- What is called may itself be a call, which invokes something. -/
theorem called_call_invokes :
    ∃ u ∈ twice.unitsAlone, ∃ q ∈ Place.walkCode (.unit u), q.slot = .callee ∧
      (Program.ofUnits twice.unitsAlone).invoked q ≠ [] := by
  have hplace : ∃ u ∈ twice.unitsAlone, ∃ q ∈ callee? u, q.slot = .callee ∧
      ((Program.ofUnits twice.unitsAlone).invoked q).length = 1 := by
    decide +kernel
  obtain ⟨u, hu, q, hq, hslot, hone⟩ := hplace
  exact ⟨u, hu, q, callee?_mem_walkCode hq, hslot, by rintro hnone; rw [hnone] at hone; cases hone⟩

def getter : Source := ⟨"lib/a.dart", "get f => 0; var x = f();"⟩

theorem getter_invoked_by_call :
    ∃ u ∈ getter.unitsAlone, ∃ q ∈ Place.walk (.unit u), ∃ parent, q.parent? = some parent ∧
      (Program.ofUnits getter.unitsAlone).invoked q = [] ∧
      ∃ e : ExecutableElement, e.kind = .getter ∧
        (Program.ofUnits getter.unitsAlone).meaning? q.node.id = some (.executable e) ∧
        e ∈ (Program.ofUnits getter.unitsAlone).invoked parent := by
  have hplace : ∃ u ∈ getter.unitsAlone, ∃ q ∈ callee? u, q.isNamedCallee = true ∧
      (((Program.ofUnits getter.unitsAlone).getter? q.node.id).bind Element.toExecutable?).isSome := by
    decide +kernel
  obtain ⟨u, hu, q, hq, hcallee, hgetter⟩ := hplace
  obtain ⟨e, he⟩ := Option.isSome_iff_exists.mp hgetter
  obtain ⟨element, helement, hexecutable⟩ := Option.bind_eq_some_iff.mp he
  obtain rfl : element = .executable e := by
    cases element <;> cases hexecutable
    rfl
  obtain ⟨hmeaning, hkind⟩ := Program.getter?_eq_some_iff.mp helement
  have hwalk := Place.mem_walk_of_mem_walkCode (callee?_mem_walkCode hq)
  obtain ⟨parsed, hparsed, hunits⟩ := Source.exists_parsed hu
  have hsub : getter.unitsAlone ⊆ parsed.filterMap Loaded.unitOf? := fun _ hv => hunits ▸ hv
  obtain ⟨hnone, hcalls⟩ := (invoked_exactly_noted hparsed hsub hu hwalk).2.2.1 hcallee
  obtain ⟨parent, hup, hinvoked⟩ := hcalls e hkind hmeaning
  exact ⟨u, hu, q, hwalk, parent, hup, hnone, e, hkind, hmeaning, hinvoked⟩

end CalledValue

end CheckedThrows
