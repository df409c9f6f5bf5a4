import CheckedThrows.Effects.Finding
import CheckedThrows.Proofs.Numbers

/-!
# Escaping effects from the inside out

A part of a tree lets escape what its own sites produce and what escapes from
its parts, except that a `try` stops what its clauses are for on the way out of
its protected body, and that nothing leaves a function or a function literal.
An effect is handled exactly if it does not escape from the region of its site,
and is reported exactly if it escapes and nothing around the site declares it.
-/

namespace CheckedThrows

open List

namespace Place

def body? (p : Place) : Option Place :=
  match p.node with
  | .stmt (.function d) => d.body.map fun b => .child p .other (.ofBody b)
  | .expr (.lambda _ _ b) => some (.child p .other (.ofBody b))
  | _ => none

/-- The body of the nearest function or literal around a place, or the root. -/
def region? : Place → Option Place
  | .root n => some (.root n)
  | .child parent _ _ => if parent.node.isFunction then parent.body? else parent.region?

/-- The function literal around a place, if it is nearer than any function
declaration. -/
def literalAround? (p : Place) : Option NodeId :=
  match p.ancestors.find? Node.isFunction with
  | some (.expr (.lambda info _ _)) => some info.id
  | _ => none

def declarationAround? (p : Place) : Option FunctionDecl :=
  p.ancestors.findSome? fun
    | .stmt (.function d) => some d
    | _ => none

end Place

namespace EffectModel

/-- What escapes from a place: sites at or below it, each with a type that is
thrown there and not stopped on the way out. -/
def escaped (m : EffectModel) (p : Place) : List (Place × TypeId) :=
  match _node : p.node with
  | .stmt (.function _) | .expr (.lambda ..) => []
  | .stmt (.guarded _ body catches finallyBlock) =>
    ((m.escaped (.child p .guarded (.block body))).filter fun e =>
      !catches.any (m.program.clauseFor e.2)) ++
    (catches.attach.flatMap fun c => m.escaped (.child p .other (.clause c.1))) ++
    finallyBlock.toList.attach.flatMap fun b => m.escaped (.child p .other (.block b.1))
  | _ =>
    ((m.candidates p).map fun c => (p, c.type)) ++
      p.children.attach.flatMap fun c =>
        if c.1.node.isMetadatum then [] else m.escaped c.1
termination_by p.node.weight
decreasing_by
  · apply Place.weight_lt_of_mem_children
    simp [Place.children, _node, Node.children, Node.stmtChildren]
  · apply Place.weight_lt_of_mem_children
    simp [Place.children, _node, Node.children, Node.stmtChildren, c.2]
  · apply Place.weight_lt_of_mem_children
    have hb := b.2
    simp only [Option.mem_toList] at hb
    simp [Place.children, _node, Node.children, Node.stmtChildren, hb]
  · exact Place.weight_lt_of_mem_children c.2

/-- The elements whose declarations count at a place: the parameter that the
literal around it is for, and the function around it. -/
def declarers (m : EffectModel) (p : Place) : List Element :=
  ((p.literalAround?.bind m.program.parameterFor?).map Element.parameter).toList ++
    (p.declarationAround?.bind fun d => m.program.declared? d.id).toList

/-! ## What one step outward does -/

section
variable {m : EffectModel} {p q : Place} {type : TypeId}

theorem escaped_of_isFunction (hfunction : p.node.isFunction = true) : m.escaped p = [] := by
  unfold Node.isFunction at hfunction
  rw [escaped]
  split at hfunction
  next hnode =>
    split <;> simp_all
  next hnode =>
    split <;> simp_all
  next => simp at hfunction

theorem candidates_stmt {s : Stmt} (hnode : p.node = .stmt s) : m.candidates p = [] := by
  simp [candidates, calls, Program.invoked, hnode]

theorem mem_escaped_guarded
    {info : NodeInfo} {body : Block} {catches : List CatchClause} {finallyBlock : Option Block}
    (hnode : p.node = .stmt (.guarded info body catches finallyBlock)) :
    (q, type) ∈ m.escaped p ↔
      ((q, type) ∈ m.escaped (.child p .guarded (.block body)) ∧
          ∀ c ∈ catches, m.program.clauseFor type c = false) ∨
        (∃ c ∈ catches, (q, type) ∈ m.escaped (.child p .other (.clause c))) ∨
          ∃ b ∈ finallyBlock, (q, type) ∈ m.escaped (.child p .other (.block b)) := by
  rw [escaped]
  split
  next hother => simp [hother] at hnode
  next hother => simp [hother] at hnode
  next hsame =>
    rw [hsame, Node.stmt.injEq, Stmt.guarded.injEq] at hnode
    obtain ⟨-, rfl, rfl, rfl⟩ := hnode
    simp
  next hnot => exact (hnot _ _ _ _ hnode).elim

theorem mem_escaped_ordinary (hfunction : p.node.isFunction = false)
    (hguarded : ∀ info body catches finallyBlock,
      p.node ≠ .stmt (.guarded info body catches finallyBlock)) :
    (q, type) ∈ m.escaped p ↔
      (q = p ∧ type ∈ (m.candidates p).map Candidate.type) ∨
        ∃ c ∈ p.children, c.node.isMetadatum = false ∧ (q, type) ∈ m.escaped c := by
  rw [escaped]
  split
  next d hnode => simp [Node.isFunction, hnode] at hfunction
  next hnode => simp [Node.isFunction, hnode] at hfunction
  next hnode => exact absurd hnode (hguarded _ _ _ _)
  next =>
    simp only [mem_append, mem_map, mem_flatMap, mem_attach, true_and,
      Subtype.exists, Prod.mk.injEq]
    constructor
    · rintro (⟨c, hc, heq, htype⟩ | ⟨c, hc, hmem⟩)
      · exact .inl ⟨heq.symm, c, hc, htype⟩
      · split at hmem
        next => simp at hmem
        next hmeta => exact .inr ⟨c, hc, by simpa using hmeta, hmem⟩
    · rintro (⟨heq, c, hc, htype⟩ | ⟨c, hc, hmeta, hmem⟩)
      · exact .inl ⟨c, hc, heq.symm, htype⟩
      · exact .inr ⟨c, hc, by simpa [hmeta] using hmem⟩

/-- What escapes from a place that is no function is thrown there, or escapes
from a child and is not stopped on the way from there. -/
theorem mem_escaped_iff (hfunction : p.node.isFunction = false) :
    (q, type) ∈ m.escaped p ↔
      (q = p ∧ type ∈ (m.candidates p).map Candidate.type) ∨
        ∃ c ∈ p.children, c.node.isMetadatum = false ∧ (q, type) ∈ m.escaped c ∧
          (c.slot = .guarded →
            ∀ clause ∈ p.node.catches, m.program.clauseFor type clause = false) := by
  by_cases hguarded : ∃ info body catches finallyBlock,
      p.node = .stmt (.guarded info body catches finallyBlock)
  · obtain ⟨info, body, catches, finallyBlock, hnode⟩ := hguarded
    rw [mem_escaped_guarded hnode, candidates_stmt hnode]
    simp only [Place.mem_children_iff, hnode, Node.children, Node.stmtChildren, Node.catches,
      map_nil, not_mem_nil, and_false, false_or]
    constructor
    · rintro (⟨hmem, hpass⟩ | ⟨c, hc, hmem⟩ | ⟨b, hb, hmem⟩)
      · exact ⟨_, ⟨(.guarded, .block body), by simp, rfl⟩, rfl, hmem, fun _ => hpass⟩
      · exact ⟨_, ⟨(.other, .clause c), by simp [hc], rfl⟩, rfl, hmem, fun h => nomatch h⟩
      · exact ⟨_, ⟨(.other, .block b), by simp_all, rfl⟩, rfl, hmem, fun h => nomatch h⟩
    · rintro ⟨_, ⟨c, hc, rfl⟩, _, hmem, hpass⟩
      simp only [cons_append, mem_cons, mem_append, mem_map,
        Option.mem_toList] at hc
      rcases hc with rfl | ⟨clause, hclause, rfl⟩ | ⟨b, hb, rfl⟩
      · exact .inl ⟨hmem, hpass rfl⟩
      · exact .inr (.inl ⟨clause, hclause, hmem⟩)
      · exact .inr (.inr ⟨b, hb, hmem⟩)
  · have hcatches : p.node.catches = [] := by
      unfold Node.catches
      split
      next hnode => exact absurd ⟨_, _, _, _, hnode⟩ hguarded
      next => rfl
    rw [mem_escaped_ordinary hfunction fun _ _ _ _ hnode => hguarded ⟨_, _, _, _, hnode⟩]
    simp [hcatches]

end

theorem under_of_mem_escaped {m : EffectModel} {p q : Place} {type : TypeId}
    (hmem : (q, type) ∈ m.escaped p) : Place.Under p q := by
  cases hfunction : p.node.isFunction with
  | true =>
    rw [escaped_of_isFunction hfunction] at hmem
    simp at hmem
  | false =>
    rcases (mem_escaped_iff hfunction).mp hmem with ⟨rfl, _⟩ | ⟨c, hc, _, hbelow, _⟩
    · exact .self
    · have hlt := Place.weight_lt_of_mem_children hc
      exact .of_mem_children hc (under_of_mem_escaped hbelow)
termination_by p.node.weight

end EffectModel

/-! ## Regions -/

namespace Place

/-- The places of a region, which are reached from its root without entering a
function or metadata. -/
inductive InRegion (root : Place) : Place → Prop
  | self : InRegion root root
  | child {p q : Place} (above : InRegion root p) (isOpen : p.node.isFunction = false)
      (isChild : q ∈ p.children) (isCode : q.node.isMetadatum = false) : InRegion root q

theorem handler?_child_eq_none_iff {isFor : CatchClause → Bool} {p q : Place}
    (hopen : p.node.isFunction = false) (hchild : q ∈ p.children) :
    q.handler? isFor = none ↔
      (q.slot = .guarded → ∀ c ∈ p.node.catches, isFor c = false) ∧ p.handler? isFor = none := by
  obtain ⟨⟨slot, n⟩, _, rfl⟩ := mem_children_iff.mp hchild
  rw [handler?, hopen, slot_child]
  by_cases hslot : slot = .guarded
  · simp only [hslot, if_true, forall_const, Bool.false_eq_true, if_false]
    cases hfind : p.node.catches.find? isFor with
    | none =>
      have hnone := find?_eq_none.mp hfind
      simp_all
    | some c =>
      have hfor := find?_some hfind
      have hmem := mem_of_find?_eq_some hfind
      simp only [reduceCtorEq, false_iff, not_and]
      intro hall
      rw [hall c hmem] at hfor
      contradiction
  · simp [hslot]

theorem handler?_of_region? {isFor : CatchClause → Bool} {p root : Place}
    (hregion : p.region? = some root) : root.handler? isFor = none := by
  induction p with
  | root n =>
    simp only [region?, Option.some.injEq] at hregion
    subst root
    rfl
  | child parent slot n ih =>
    rw [region?] at hregion
    split at hregion
    next hfunction =>
      unfold body? at hregion
      split at hregion
      next d hnode =>
        obtain ⟨b, _, rfl⟩ := Option.map_eq_some_iff.mp hregion
        rw [handler?, if_pos hfunction]
      next hnode =>
        simp only [Option.some.injEq] at hregion
        subst root
        rw [handler?, if_pos hfunction]
      next => simp at hregion
    next => exact ih hregion

def isSignature (p : Place) : Bool :=
  match p.node with
  | .param _ | .type _ => true
  | _ => false

theorem isSignature_of_child {p q : Place} (hsignature : p.isSignature = true)
    (hchild : q ∈ p.children) (hcode : q.node.isMetadatum = false) : q.isSignature = true := by
  obtain ⟨c, hc, rfl⟩ := mem_children_iff.mp hchild
  unfold isSignature at hsignature ⊢
  split at hsignature
  next param hnode =>
    rw [hnode] at hc
    simp only [Node.children, mem_append, mem_map, Option.mem_toList] at hc
    rcases hc with ⟨t, _, rfl⟩ | ⟨entry, _, rfl⟩
    · rfl
    · simp [Node.isMetadatum] at hcode
  next type hnode =>
    rw [hnode] at hc
    cases type with
    | named t => simp [Node.children, Node.typeChildren] at hc
    | function info returns params nullable =>
      simp only [Node.children, Node.typeChildren, map_append, map_map,
        mem_append, mem_map, Option.mem_toList] at hc
      rcases hc with ⟨t, _, rfl⟩ | ⟨t, _, rfl⟩ <;> rfl
  next => simp at hsignature

theorem isSignature_or_body_of_child
    {p q : Place} (hfunction : p.node.isFunction = true) (hchild : q ∈ p.children)
    (hcode : q.node.isMetadatum = false) : q.isSignature = true ∨ p.body? = some q := by
  obtain ⟨c, hc, rfl⟩ := mem_children_iff.mp hchild
  unfold Node.isFunction at hfunction
  split at hfunction
  next d hnode =>
    rw [hnode] at hc
    simp only [Node.children, Node.stmtChildren, mem_append, mem_map,
      Option.mem_toList] at hc
    rcases hc with ((⟨param, _, rfl⟩ | ⟨t, _, rfl⟩) | ⟨b, hb, rfl⟩) | ⟨entry, _, rfl⟩
    · exact .inl rfl
    · exact .inl rfl
    · right
      rw [body?, hnode]
      simp only [hb, Option.map_some]
    · simp [Node.isMetadatum] at hcode
  next info params b hnode =>
    rw [hnode] at hc
    simp only [Node.children, Node.exprChildren, mem_append, mem_map,
      mem_singleton] at hc
    rcases hc with ⟨param, _, rfl⟩ | rfl
    · exact .inl rfl
    · right
      rw [body?, hnode]
  next => simp at hfunction

/-- Every place outside of metadata lies in its region or in a signature. -/
theorem isSignature_or_inRegion {n : Node} {p : Place} (hmem : p ∈ walkCode n) :
    p.isSignature = true ∨ ∃ root, p.region? = some root ∧ InRegion root p := by
  rw [mem_walkCode_iff] at hmem
  induction hmem with
  | self => exact .inr ⟨.root n, rfl, .self⟩
  | @child p q _ hchild hcode ih =>
    have hcode : q.node.isMetadatum = false := by simpa using hcode
    have hregion : q.region? = if p.node.isFunction then p.body? else p.region? := by
      obtain ⟨c, _, rfl⟩ := mem_children_iff.mp hchild
      rfl
    cases hfunction : p.node.isFunction with
    | true =>
      rw [hfunction, if_pos rfl] at hregion
      rcases isSignature_or_body_of_child hfunction hchild hcode with hsignature | hbody
      · exact .inl hsignature
      · exact .inr ⟨q, hregion.trans hbody, .self⟩
    | false =>
      rw [hfunction, if_neg Bool.false_ne_true] at hregion
      rcases ih with hsignature | ⟨root, hroot, hin⟩
      · exact .inl (isSignature_of_child hsignature hchild hcode)
      · exact .inr ⟨root, hregion.trans hroot, .child hin hfunction hchild hcode⟩

end Place

namespace EffectModel

/-! ## Handled is not escaped -/

section
variable {m : EffectModel} {root p q : Place} {type : TypeId}

theorem mem_escaped_root (hin : Place.InRegion root p) (hmem : (q, type) ∈ m.escaped p)
    (hhandler : p.handler? (m.program.clauseFor type) = none) : (q, type) ∈ m.escaped root := by
  induction hin with
  | self => exact hmem
  | @child p c _ hopen hchild hcode ih =>
    obtain ⟨hpass, habove⟩ :=
      (Place.handler?_child_eq_none_iff hopen hchild).mp hhandler
    exact ih ((mem_escaped_iff hopen).mpr (.inr ⟨c, hchild, hcode, hmem, hpass⟩)) habove

/-- What escapes from a region from below one of its places escapes from that
place and is not handled there. -/
theorem mem_escaped_of_root (hroot : root.handler? (m.program.clauseFor type) = none)
    (hin : Place.InRegion root p) (hmem : (q, type) ∈ m.escaped root) (hunder : Place.Under p q) :
    (q, type) ∈ m.escaped p ∧ p.handler? (m.program.clauseFor type) = none := by
  induction hin with
  | self => exact ⟨hmem, hroot⟩
  | @child p c _ hopen hchild hcode ih =>
    obtain ⟨habove, hhandler⟩ := ih (hunder.of_mem_children hchild)
    rcases (mem_escaped_iff hopen).mp habove with ⟨heq, _⟩ | ⟨c', hc', _, hbelow, hpass⟩
    · -- a child is deeper than its parent, so the site is not the parent
      have hle := hunder.depth_le
      rw [heq, Place.depth_of_mem_children hchild] at hle
      omega
    · have hdepth : c.depth = c'.depth := by
        rw [Place.depth_of_mem_children hchild, Place.depth_of_mem_children hc']
      have heq : c = c' := hunder.eq_of_depth_eq (under_of_mem_escaped hbelow) hdepth
      subst c'
      exact ⟨hbelow, (Place.handler?_child_eq_none_iff hopen hchild).mpr ⟨hpass, hhandler⟩⟩

theorem candidates_of_isFunction (hfunction : p.node.isFunction = true) : m.candidates p = [] := by
  unfold Node.isFunction at hfunction
  split at hfunction
  next d hnode => exact candidates_stmt hnode
  next hnode =>
    simp [candidates, calls, Program.invoked, hnode, Program.invocations, executables,
      distinctExecutables]
  next => simp at hfunction

theorem candidates_of_isSignature (hsignature : p.isSignature = true) : m.candidates p = [] := by
  unfold Place.isSignature at hsignature
  split at hsignature
  next hnode => simp [candidates, calls, Program.invoked, hnode]
  next hnode => simp [candidates, calls, Program.invoked, hnode]
  next => simp at hsignature

theorem mem_escaped_self
    (htype : type ∈ (m.candidates p).map Candidate.type) : (p, type) ∈ m.escaped p := by
  cases hfunction : p.node.isFunction with
  | true =>
    rw [candidates_of_isFunction hfunction] at htype
    simp at htype
  | false => exact (mem_escaped_iff hfunction).mpr (.inl ⟨rfl, htype⟩)

theorem isHandled_eq_false_iff (hregion : p.region? = some root) (hin : Place.InRegion root p)
    (htype : type ∈ (m.candidates p).map Candidate.type) :
    m.program.isHandled p type = false ↔ (p, type) ∈ m.escaped root := by
  have hroot : root.handler? (m.program.clauseFor type) = none :=
    Place.handler?_of_region? hregion
  rw [Program.isHandled, Program.handlerOf?, Option.isSome_eq_false_iff, Option.isNone_iff_eq_none]
  constructor
  · exact mem_escaped_root hin (mem_escaped_self htype)
  · intro hmem
    exact (mem_escaped_of_root hroot hin hmem .self).2

end

end EffectModel

/-! ## Declared around a site -/

namespace Place

theorem enclosingFunction?_eq (p : Place) : p.enclosingFunction? = p.declarationAround? := by
  induction p with
  | root n => rfl
  | child parent slot n ih =>
    rw [enclosingFunction?, declarationAround?, ancestors, findSome?_cons]
    cases parent.node with
    | stmt s =>
      cases s with
      | function d => rfl
      | _ => exact ih
    | _ => exact ih

theorem enclosingLambda?_eq (p : Place) : p.enclosingLambda? = p.literalAround? := by
  induction p with
  | root n => rfl
  | child parent slot n ih =>
    rw [enclosingLambda?, literalAround?, ancestors, find?_cons]
    split
    next d hnode => simp [hnode, Node.isFunction]
    next info params body hnode => simp [hnode, Node.isFunction]
    next hfunction hlambda =>
      have hopen : parent.node.isFunction = false := by
        unfold Node.isFunction
        split
        next d hnode => exact absurd hnode (hfunction d)
        next hnode => exact absurd hnode (hlambda _ _ _)
        next => rfl
      rw [hopen, ih, literalAround?]

end Place

namespace EffectModel

variable (m : EffectModel) (p : Place)

theorem isDeclared_eq_true_iff (type : TypeId) :
    m.isDeclared p type = true ↔
      ∃ e ∈ m.declarers p, ∃ d ∈ m.effects e, m.types.isSubtype type d = true := by
  rw [isDeclared, isDeclaredByParameter, isDeclaredByFunction, Place.enclosingLambda?_eq,
    Place.enclosingFunction?_eq, Bool.or_eq_true]
  simp only [declarers, mem_append, Option.mem_toList, or_and_right, exists_or]
  refine or_congr ?_ ?_
  · cases p.literalAround?.bind m.program.parameterFor? with
    | none => simp
    | some param => simp [covers]
  · cases p.declarationAround? with
    | none => simp
    | some d =>
      cases hdeclared : m.program.declared? d.id with
      | none => simp [effects?, covers, hdeclared]
      | some e => simp [effects?, covers, hdeclared]

/-! ## Reported is escaped and not declared -/

theorem mem_types_keep_iff (kept : List Candidate) (c : Candidate) (type : TypeId) :
    type ∈ (if (kept.any fun k => k.type = c.type) || !m.escapes p c.type then kept
        else kept ++ [c]).map Candidate.type ↔
      type ∈ kept.map Candidate.type ∨ type = c.type ∧ m.escapes p type = true := by
  split
  next hdrop =>
    constructor
    · exact .inl
    · rintro (hkept | ⟨rfl, hescapes⟩)
      · exact hkept
      · -- dropped although it escapes, so the type was there before
        simp only [hescapes, Bool.not_true, Bool.or_false, any_eq_true,
          decide_eq_true_eq] at hdrop
        exact mem_map.mpr hdrop
  next hadd =>
    have hescapes : m.escapes p c.type = true := by
      rw [Bool.or_eq_true, not_or] at hadd
      simpa using hadd.2
    simp only [map_append, map_cons, map_nil, mem_append, mem_singleton]
    constructor
    · rintro (hkept | rfl)
      · exact .inl hkept
      · exact .inr ⟨rfl, hescapes⟩
    · rintro (hkept | ⟨rfl, _⟩)
      · exact .inl hkept
      · exact .inr rfl

theorem mem_types_escaping_iff (cs : List Candidate) (type : TypeId) :
    type ∈ (m.escaping p cs).map Candidate.type ↔
      type ∈ cs.map Candidate.type ∧ m.escapes p type = true := by
  have hfold : ∀ kept : List Candidate,
      type ∈ (cs.foldl (fun kept c =>
          if (kept.any fun k => k.type = c.type) || !m.escapes p c.type then kept
          else kept ++ [c]) kept).map Candidate.type ↔
        type ∈ kept.map Candidate.type ∨
          type ∈ cs.map Candidate.type ∧ m.escapes p type = true := by
    induction cs with
    | nil => simp
    | cons c cs ih =>
      intro kept
      rw [foldl_cons, ih, mem_types_keep_iff, map_cons, mem_cons,
        or_and_right, or_assoc]
  simpa [escaping] using hfold []

theorem code_mem_all (origin : Origin) : origin.code ∈ LintCode.all := by
  cases origin <;> simp [Origin.code, LintCode.all]

theorem code_ne_lostInAssignment (origin : Origin) : origin.code ≠ .lostInAssignment := by
  cases origin <;> simp [Origin.code]

theorem exists_mem_findingsAt_iff (uri : String) (p : Place) (type : TypeId) :
    (∃ f ∈ m.findingsAt LintCode.all uri p,
        f.type = type ∧ f.code ≠ .lostInAssignment) ↔
      type ∈ (m.candidates p).map Candidate.type ∧ m.escapes p type = true := by
  have hall : ((m.candidates p).filter fun c => c.origin.code ∈ LintCode.all) = m.candidates p := by
    apply filter_eq_self.mpr
    intro c _
    simpa using code_mem_all c.origin
  rw [← mem_types_escaping_iff, findingsAt, hall]
  constructor
  · rintro ⟨f, hf, rfl, hcode⟩
    rcases mem_append.mp hf with hmem | hmem
    · obtain ⟨c, hc, rfl⟩ := mem_map.mp hmem
      exact mem_map.mpr ⟨c, hc, rfl⟩
    · obtain ⟨lost, _, rfl⟩ := mem_map.mp hmem
      exact absurd rfl hcode
  · intro hmem
    obtain ⟨c, hc, rfl⟩ := mem_map.mp hmem
    exact ⟨m.unhandledFinding uri p.node c,
      mem_append_left _ (mem_map.mpr ⟨c, hc, rfl⟩), rfl,
      code_ne_lostInAssignment c.origin⟩

theorem site_of_mem_findingsAt {m : EffectModel} {enabled : List LintCode} {uri : String}
    {p : Place} {f : Finding} (hmem : f ∈ m.findingsAt enabled uri p) : f.site = p.node := by
  rcases mem_append.mp hmem with hmem | hmem
  · obtain ⟨c, _, rfl⟩ := mem_map.mp hmem
    rfl
  · obtain ⟨type, _, rfl⟩ := mem_map.mp hmem
    rfl

theorem span_of_mem_findingsAt
    {m : EffectModel} {enabled : List LintCode} {uri : String} {p : Place} {f : Finding}
    (hmem : f ∈ m.findingsAt enabled uri p) : f.span = p.node.span uri := by
  rcases mem_append.mp hmem with hmem | hmem
  · obtain ⟨c, _, rfl⟩ := mem_map.mp hmem
    rfl
  · obtain ⟨type, _, rfl⟩ := mem_map.mp hmem
    rfl

theorem exists_mem_findings_iff {u : CompilationUnit} {start : NodeId} {p : Place}
    (hp : p ∈ Place.walkCode (.unit (u.number start).1)) (type : TypeId) :
    (∃ f ∈ m.findings LintCode.all (u.number start).1,
        f.site = p.node ∧ f.type = type ∧ f.code ≠ .lostInAssignment) ↔
      type ∈ (m.candidates p).map Candidate.type ∧ m.escapes p type = true := by
  rw [← exists_mem_findingsAt_iff m (u.number start).1.uri p type]
  constructor
  · rintro ⟨f, hf, hsite, htype, hcode⟩
    obtain ⟨q, hq, hmem⟩ := mem_flatMap.mp hf
    have hnode : p.node = q.node := by
      rw [← hsite]
      exact site_of_mem_findingsAt hmem
    have heq : p = q :=
      Place.eq_of_id_eq (Place.mem_walk_of_mem_walkCode hp)
        (Place.mem_walk_of_mem_walkCode hq) (by rw [hnode])
    subst q
    exact ⟨f, hmem, htype, hcode⟩
  · rintro ⟨f, hf, htype, hcode⟩
    exact ⟨f, mem_flatMap.mpr ⟨p, hp, hf⟩, site_of_mem_findingsAt hf, htype, hcode⟩

/-- The outward analysis agrees with the inside-out reading: at every site
outside of metadata, a candidate is handled exactly if it does not escape from
the region of the site, and it is reported exactly if it escapes and no
declaration around the site is of a supertype. -/
theorem handled_and_reported_iff_escaped
    (m : EffectModel) (u : CompilationUnit) (start : NodeId) {site : Place}
    (hsite : site ∈ Place.walkCode (.unit (u.number start).1)) {type : TypeId}
    (htype : type ∈ (m.candidates site).map Candidate.type) :
    ∃ region, site.region? = some region ∧
      (m.program.isHandled site type = false ↔ (site, type) ∈ m.escaped region) ∧
      ((∃ f ∈ m.findings LintCode.all (u.number start).1,
          f.site = site.node ∧ f.type = type ∧ f.code ≠ .lostInAssignment) ↔
        (site, type) ∈ m.escaped region ∧
          ¬ ∃ e ∈ m.declarers site, ∃ d ∈ m.effects e, m.types.isSubtype type d = true) := by
  rcases Place.isSignature_or_inRegion hsite with hsignature | ⟨region, hregion, hin⟩
  · rw [candidates_of_isSignature hsignature] at htype
    simp at htype
  · have hhandled := isHandled_eq_false_iff hregion hin htype
    refine ⟨region, hregion, hhandled, ?_⟩
    rw [exists_mem_findings_iff m hsite type, ← hhandled, ← isDeclared_eq_true_iff, escapes]
    simp [htype]

/-! A rethrow inside of two tries, of which the outer one has a clause for a
narrower type: the effect leaves its own clause, passes the outer clause and
escapes from the function. -/

namespace RethrowExample

def named (id : NodeId) (name : String) : TypeRef := .named (.bare id name)

def rethrowStmt : Stmt := .expr (.bare 10) (.rethrow (.bare 11))

def innerClause : CatchClause := ⟨.bare 8, none, some "e", none, ⟨.bare 9, [rethrowStmt]⟩⟩

def innerTry : Stmt := .guarded (.bare 6) ⟨.bare 7, []⟩ [innerClause] none

def outerClause : CatchClause := ⟨.bare 12, some (named 13 "A"), none, none, ⟨.bare 14, []⟩⟩

def outerTry : Stmt := .guarded (.bare 4) ⟨.bare 5, [innerTry]⟩ [outerClause] none

def function : FunctionDecl :=
  ⟨.bare 2, "f", .function, none, [], none, some (.block ⟨.bare 3, [outerTry]⟩), {}, []⟩

def unit : CompilationUnit where
  id := 1
  extent := none
  uri := "a.dart"
  directives := []
  declarations := [.function function]
  comments := []

def model : EffectModel where
  program :=
    { workspace := {}
      facts :=
        { types := { defs := #[.class "Object" none, .class "A" none], object := some 1 }
          catchTypes := ({} : NodeMap TypeId).insert 12 2 } }
  intrinsics := .empty

def tryPlace : Place :=
  .child (.child (.child (.root (.unit unit)) .other (.functionDecl function)) .other
    (.block ⟨.bare 3, [outerTry]⟩)) .other (.stmt outerTry)

def clausePlace : Place :=
  .child (.child (.child tryPlace .guarded (.block ⟨.bare 5, [innerTry]⟩)) .other
    (.stmt innerTry)) .other (.clause innerClause)

def site : Place :=
  .child (.child (.child clausePlace .other (.block ⟨.bare 9, [rethrowStmt]⟩)) .other
    (.stmt rethrowStmt)) .other (.expr (.rethrow (.bare 11)))

theorem site_mem_walkCode : site ∈ Place.walkCode (.unit (unit.number 1).1) := by
  rw [Place.mem_walkCode_iff]
  have htry : Place.Reaches (fun n => !n.isMetadatum) (.root (.unit unit)) tryPlace :=
    .child (.child (.child .self (.head _) rfl) (.head _) rfl) (.head _) rfl
  have hclause : Place.Reaches (fun n => !n.isMetadatum) tryPlace clausePlace :=
    .child (.child (.child .self (.head _) rfl) (.head _) rfl) (.tail _ (.head _)) rfl
  have hsite : Place.Reaches (fun n => !n.isMetadatum) clausePlace site :=
    .child (.child (.child .self (.head _) rfl) (.head _) rfl) (.head _) rfl
  exact (htry.trans hclause).trans hsite

end RethrowExample

theorem rethrow_escapes_past_narrow_clause :
    RethrowExample.site ∈ Place.walkCode (.unit (RethrowExample.unit.number 1).1) ∧
      1 ∈ (RethrowExample.model.candidates RethrowExample.site).map Candidate.type ∧
      (∃ region, RethrowExample.site.region? = some region ∧
        (RethrowExample.site, 1) ∈ RethrowExample.model.escaped region) ∧
      ∃ f ∈ RethrowExample.model.findings LintCode.all (RethrowExample.unit.number 1).1,
        f.site = RethrowExample.site.node ∧ f.type = 1 ∧ f.code ≠ .lostInAssignment := by
  have hcandidate :
      1 ∈ (RethrowExample.model.candidates RethrowExample.site).map Candidate.type := by decide
  have hhandled : RethrowExample.model.program.isHandled RethrowExample.site 1 = false := by decide
  have hdeclarers : RethrowExample.model.declarers RethrowExample.site = [] := by rfl
  obtain ⟨region, hregion, hescaped, hreported⟩ :=
    handled_and_reported_iff_escaped RethrowExample.model RethrowExample.unit 1
      RethrowExample.site_mem_walkCode hcandidate
  refine ⟨RethrowExample.site_mem_walkCode, hcandidate,
    ⟨region, hregion, hescaped.mp hhandled⟩, hreported.mpr ⟨hescaped.mp hhandled, ?_⟩⟩
  rintro ⟨e, he, _⟩
  rw [hdeclarers] at he
  simp at he

end EffectModel

end CheckedThrows
