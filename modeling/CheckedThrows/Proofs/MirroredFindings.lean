import CheckedThrows.Proofs.MirroredEffects

/-!
# The same findings beside a hidden library

Places of relabeled units are relabeled places, and at each of them the same
effects escape and are lost.  So the findings of a unit are the same under other
numbers.
-/

namespace CheckedThrows

open List

/-! ## Places -/

namespace Node

variable (ρ : Relabeling) (n : Node)

@[simp]
theorem isMetadatum_relabel : (n.relabel ρ).isMetadatum = n.isMetadatum := by
  cases n <;> rfl

@[simp]
theorem isFunction_relabel : (n.relabel ρ).isFunction = n.isFunction := by
  cases n with
  | stmt s => cases s <;> rfl
  | expr e => cases e <;> rfl
  | _ => rfl

@[simp]
theorem catches_relabel : (n.relabel ρ).catches = n.catches.map (CatchClause.relabel ρ) := by
  cases n with
  | stmt s => cases s <;> simp [relabel, Stmt.relabel, catches]
  | _ => rfl

end Node

namespace Place

def relabel (ρ : Relabeling) : Place → Place
  | .root n => .root (n.relabel ρ)
  | .child parent slot n => .child (parent.relabel ρ) slot (n.relabel ρ)

variable (ρ : Relabeling)

@[simp]
theorem node_relabel (p : Place) : (p.relabel ρ).node = p.node.relabel ρ := by
  cases p <;> rfl

@[simp]
theorem slot_relabel (p : Place) : (p.relabel ρ).slot = p.slot := by
  cases p <;> rfl

theorem children_relabel (p : Place) : (p.relabel ρ).children = p.children.map (relabel ρ) := by
  simp only [children, node_relabel, Node.children_relabel, map_map]
  rfl

theorem walkFrom_relabel {keep : Node → Bool} (hkeep : ∀ n, keep (Node.relabel ρ n) = keep n)
    (stack : List Place) :
    walkFrom keep (stack.map (relabel ρ)) = (walkFrom keep stack).map (relabel ρ) := by
  fun_induction walkFrom keep stack with
  | case1 => simp [walkFrom]
  | case2 p stack ih =>
    have hkept : (fun c : Place => keep c.node) ∘ relabel ρ = fun c => keep c.node := by
      funext c
      simp [hkeep]
    rw [map_cons, walkFrom, map_cons, children_relabel, filter_map, hkept,
      ← map_append, ih]

theorem walkCode_relabel (n : Node) : walkCode (n.relabel ρ) = (walkCode n).map (relabel ρ) :=
  walkFrom_relabel ρ (fun n => by simp) [.root n]

theorem handler?_relabel {isFor isFor' : CatchClause → Bool}
    (hfor : ∀ c, isFor' (c.relabel ρ) = isFor c) (p : Place) :
    (p.relabel ρ).handler? isFor' = (p.handler? isFor).map (CatchClause.relabel ρ) := by
  induction p with
  | root n => rfl
  | child parent slot n ih =>
    have hcomp : isFor' ∘ CatchClause.relabel ρ = isFor := funext hfor
    simp only [relabel, handler?, node_relabel, Node.isFunction_relabel, Node.catches_relabel,
      find?_map, hcomp, ih]
    by_cases hfunction : parent.node.isFunction = true
    · simp [hfunction]
    · by_cases hslot : slot = .guarded
      · simp only [hfunction, hslot, if_true]
        cases parent.node.catches.find? isFor <;> rfl
      · simp [hfunction, hslot]

theorem enclosingClause?_relabel (p : Place) :
    (p.relabel ρ).enclosingClause? = p.enclosingClause?.map (CatchClause.relabel ρ) := by
  induction p with
  | root n => rfl
  | child parent slot n ih =>
    simp only [relabel, enclosingClause?, node_relabel, Node.isFunction_relabel, ih]
    split
    · rfl
    · cases parent.node <;> rfl

theorem enclosingFunction?_relabel (p : Place) :
    (p.relabel ρ).enclosingFunction? = p.enclosingFunction?.map (FunctionDecl.relabel ρ) := by
  induction p with
  | root n => rfl
  | child parent slot n ih =>
    simp only [relabel, enclosingFunction?, node_relabel, ih]
    cases parent.node with
    | stmt s => cases s <;> rfl
    | _ => rfl

theorem enclosingLambda?_relabel (p : Place) :
    (p.relabel ρ).enclosingLambda? = p.enclosingLambda?.map ρ.node := by
  induction p with
  | root n => rfl
  | child parent slot n ih =>
    simp only [relabel, enclosingLambda?, node_relabel, ih]
    cases parent.node with
    | stmt s => cases s <;> rfl
    | expr e => cases e <;> rfl
    | _ => rfl

end Place

/-! ## What escapes -/

def Origin.rename (r : Renaming) : Origin → Origin
  | .throw => .throw
  | .rethrow => .rethrow
  | .call e => .call (e.rename r)
  | .parameterCall p => .parameterCall (p.rename r)
  | .variableCall v => .variableCall (v.rename r)

@[simp]
theorem Origin.code_rename (r : Renaming) (o : Origin) : (o.rename r).code = o.code := by
  cases o <;> rfl

def Candidate.rename (r : Renaming) (c : Candidate) : Candidate :=
  ⟨r.type c.type, c.origin.rename r⟩

theorem distinctExecutables_rename (r : Renaming) (es : List ExecutableElement) :
    distinctExecutables (es.map (ExecutableElement.rename r)) =
      (distinctExecutables es).map (ExecutableElement.rename r) := by
  unfold distinctExecutables
  rw [foldl_map, ← foldl_hom (List.map (ExecutableElement.rename r))]
  · rfl
  intro kept e
  have hknown : ((kept.map (ExecutableElement.rename r)).any fun k => k.id = (e.rename r).id) =
      kept.any fun k => k.id = e.id := by
    rw [any_map]
    congr 1
    funext k
    simp
  rw [hknown]
  split
  · rfl
  · rw [map_append, map_singleton]

theorem executables_rename (r : Renaming) (es : List (Option Element)) :
    executables (es.map (Option.map (Element.rename r))) =
      (executables es).map (ExecutableElement.rename r) := by
  apply filterMap_map_comm
  intro e
  cases e with
  | none => rfl
  | some e => exact e.toExecutable?_rename r

namespace Program.Mirrors

variable {m : Mirror} {p p' : Program} (hp : p.Mirrors m p')
include hp
variable (place : Place) (ty : TypeId)

theorem clauseFor (c : CatchClause) :
    p'.clauseFor (m.type ty) (c.relabel m) = p.clauseFor ty c := by
  obtain ⟨info, type, binder, stackBinder, body⟩ := c
  simp only [CatchClause.relabel, Program.clauseFor, CatchClause.id, NodeInfo.relabel,
    relabelType?_eq_map, hp.catchType?]
  cases type with
  | none => rfl
  | some type =>
    cases p.catchType? info.id with
    | none => rfl
    | some clauseType => exact hp.types.isSubtype ty clauseType

theorem isHandled : p'.isHandled (place.relabel m) (m.type ty) = p.isHandled place ty := by
  unfold Program.isHandled Program.handlerOf?
  rw [Place.handler?_relabel m (hp.clauseFor ty), Option.isSome_map]

theorem getter? (n : NodeId) : p'.getter? (m.node n) = (p.getter? n).map (Element.rename m) := by
  unfold Program.getter?
  rw [hp.meaning?, Option.filter_map]
  congr 2
  funext e
  cases e with
  | executable e => simp [Element.rename]
  | _ => rfl

theorem invocations (slot : Slot) (e : Expr) :
    p'.invocations slot (e.relabel m) =
      (p.invocations slot e).map (Option.map (Element.rename m)) := by
  have hoperator : ∀ n, (p'.operator? (m.node n)).map Element.executable =
      ((p.operator? n).map Element.executable).map (Element.rename m) := by
    intro n
    rw [hp.operator?, Option.map_map, Option.map_map]
    rfl
  cases e with
  | name | member | index | assign =>
    simp only [Expr.relabel, Program.invocations, NodeInfo.relabel, hp.getter?, hp.read?,
      hp.write?, hoperator]
    split <;> rfl
  | _ =>
    simp only [Expr.relabel, Program.invocations, NodeInfo.relabel, hp.meaning?, hp.read?,
      hp.write?, hoperator, map_cons, map_nil]

theorem invoked :
    p'.invoked (place.relabel m) = (p.invoked place).map (ExecutableElement.rename m) := by
  unfold Program.invoked
  rw [place.node_relabel, place.slot_relabel]
  cases place.node with
  | expr e =>
    simp only [Node.relabel_expr, hp.invocations, executables_rename, distinctExecutables_rename]
  | _ => rfl

theorem isThrowable : p'.isThrowable (m.type ty) = p.isThrowable ty := by
  unfold Program.isThrowable
  congr 1
  funext name
  rw [hp.types.core, Option.any_map]
  congr 1
  funext root
  exact hp.types.isSubtype ty root

theorem rethrownType? :
    p'.rethrownType? (place.relabel m) = (p.rethrownType? place).map m.type := by
  unfold Program.rethrownType?
  rw [place.enclosingClause?_relabel, hp.types.object]
  cases place.enclosingClause? with
  | none => rfl
  | some c =>
    obtain ⟨info, type, binder, stackBinder, body⟩ := c
    simp only [Option.map_some, Option.bind_some, CatchClause.relabel, CatchClause.id,
      NodeInfo.relabel, hp.catchType?]
    cases p.catchType? info.id <;> rfl

end Program.Mirrors

@[simp]
theorem Element.carriesEffects_rename (r : Renaming) (e : Element) :
    (e.rename r).carriesEffects = e.carriesEffects := by
  cases e with
  | executable e => simp [rename, carriesEffects]
  | _ => rfl

namespace EffectModel.Mirrors

variable {m : Mirror} {units : List CompilationUnit} {M M' : EffectModel}
  (hM : M.Mirrors m units M')
include hM
variable (place : Place) (ty : TypeId)

theorem isDeclaredByParameter :
    M'.isDeclaredByParameter (place.relabel m) (m.type ty) = M.isDeclaredByParameter place ty := by
  unfold EffectModel.isDeclaredByParameter
  rw [place.enclosingLambda?_relabel]
  cases place.enclosingLambda? with
  | none => rfl
  | some n =>
    simp only [Option.map_some, Option.bind_some, hM.program.parameterFor?]
    cases hparameter : M.program.parameterFor? n with
    | none => rfl
    | some p =>
      simp only [Option.map_some]
      rw [← hM.covers]
      congr 1
      exact hM.effects (hM.rooted.parameterFor? hparameter)

theorem isDeclaredByFunction :
    M'.isDeclaredByFunction (place.relabel m) (m.type ty) = M.isDeclaredByFunction place ty := by
  unfold EffectModel.isDeclaredByFunction
  rw [place.enclosingFunction?_relabel]
  cases place.enclosingFunction? with
  | none => rfl
  | some d =>
    simp only [Option.map_some, d.id_relabel, hM.program.declared?]
    rw [← hM.covers, hM.effects? fun e he => hM.rooted.declared? he]

theorem escapes : M'.escapes (place.relabel m) (m.type ty) = M.escapes place ty := by
  unfold EffectModel.escapes EffectModel.isDeclared
  rw [hM.program.isHandled, hM.isDeclaredByParameter, hM.isDeclaredByFunction]

theorem calls : M'.calls (place.relabel m) = (M.calls place).map (Candidate.rename m) := by
  unfold EffectModel.calls
  rw [hM.program.invoked, flatMap_map, map_flatMap]
  apply flatMap_congr
  intro e he
  have heffects : M'.effects (.executable (e.rename m)) =
      (M.effects (.executable e)).map m.type := hM.effects (hM.rooted.invoked he)
  rw [heffects, map_map, map_map]
  rfl

theorem valueCalls (callee : Expr) :
    M'.valueCalls (callee.relabel m) = (M.valueCalls callee).map (Candidate.rename m) := by
  unfold EffectModel.valueCalls
  rw [callee.id_relabel, hM.program.meaning?]
  cases hmeaning : M.program.meaning? callee.id with
  | none => rfl
  | some e =>
    have heffects := hM.effects (hM.rooted.meaning? hmeaning)
    cases e with
    | parameter | «variable» =>
      simp only [Option.map_some, Element.rename] at heffects ⊢
      rw [heffects, map_map, map_map]
      rfl
    | «class» | executable => rfl

theorem candidates :
    M'.candidates (place.relabel m) = (M.candidates place).map (Candidate.rename m) := by
  unfold EffectModel.candidates
  rw [place.node_relabel]
  cases place.node with
  | expr e =>
    cases e with
    | throw info value =>
      simp only [Node.relabel_expr, Expr.relabel, value.id_relabel, hM.program.staticType?]
      cases M.program.staticType? value.id with
      | none => rfl
      | some ty =>
        simp only [Option.map_some, Option.filter_some, hM.program.isThrowable]
        cases M.program.isThrowable ty <;> rfl
    | rethrow info =>
      simp only [Node.relabel_expr, Expr.relabel, hM.program.rethrownType?, Option.toList_map,
        map_map]
      rfl
    | call info callee args creation =>
      simp only [Node.relabel_expr, Expr.relabel, hM.calls, hM.valueCalls, map_append]
    | _ => exact hM.calls place
  | _ => exact hM.calls place

theorem escaping (cs : List Candidate) :
    M'.escaping (place.relabel m) (cs.map (Candidate.rename m)) =
      (M.escaping place cs).map (Candidate.rename m) := by
  unfold EffectModel.escaping
  rw [foldl_map, ← foldl_hom (List.map (Candidate.rename m))]
  · rfl
  intro kept c
  have hknown : ((kept.map (Candidate.rename m)).any fun k => k.type = (c.rename m).type) =
      kept.any fun k => k.type = c.type := by
    rw [any_map]
    congr 1
    funext k
    simp [Candidate.rename, m.type_injective.eq_iff]
  have hescapes : M'.escapes (place.relabel m) (c.rename m).type = M.escapes place c.type :=
    hM.escapes place c.type
  rw [hknown, hescapes]
  split
  · rfl
  · rw [map_append, map_singleton]

theorem carried (e : Expr) : M'.carried (e.relabel m) = (M.carried e).map m.type := by
  unfold EffectModel.carried
  rw [e.isNamed_relabel, e.id_relabel, hM.program.meaning?, Option.filter_map]
  have hcarries : Element.carriesEffects ∘ Element.rename m = Element.carriesEffects :=
    funext fun e => e.carriesEffects_rename m
  rw [hcarries]
  split
  · cases hmeaning : (M.program.meaning? e.id).filter Element.carriesEffects with
    | none => rfl
    | some element =>
      have hrooted := hM.rooted.meaning? (Option.filter_eq_some_iff.mp hmeaning).1
      simp only [Option.map_some, hM.effects hrooted]
      exact addTypes_map m.type_injective [] _
  · rfl

theorem storedIn? (n : Node) :
    M'.storedIn? (n.relabel m) = (M.storedIn? n).map (Element.rename m) := by
  cases n with
  | expr e =>
    cases e with
    | assign info op target value =>
      have hbinding : Element.isBinding ∘ Element.rename m = Element.isBinding :=
        funext fun e => e.isBinding_rename m
      simp only [Node.relabel_expr, Expr.relabel, EffectModel.storedIn?, NodeInfo.relabel,
        hM.program.write?, Option.filter_map, hbinding]
    | _ => rfl
  | stmt s =>
    cases s with
    | «variable» d =>
      simp only [Node.relabel_stmt, Stmt.relabel, EffectModel.storedIn?, d.id_relabel,
        hM.program.declared?]
    | _ => rfl
  | _ => rfl

theorem lost (n : Node) : M'.lost (n.relabel m) = (M.lost n).map m.type := by
  have hvalue : storedValue? (n.relabel m) = (storedValue? n).map (Expr.relabel m) := by
    cases n with
    | expr e =>
      cases e with
      | assign info op target value =>
        simp only [Node.relabel_expr, Expr.relabel, storedValue?]
        split <;> rfl
      | _ => rfl
    | stmt s =>
      cases s with
      | «variable» d =>
        simp only [Node.relabel_stmt, Stmt.relabel, storedValue?, VarDecl.relabel_eq]
      | _ => rfl
    | _ => rfl
  unfold EffectModel.lost
  rw [hvalue]
  cases storedValue? n with
  | none => rfl
  | some value =>
    simp only [Option.map_some]
    rw [hM.storedIn?, hM.effects? fun e he => hM.rooted.storedIn? he, hM.carried, filter_map]
    congr 2
    funext ty
    rw [Function.comp_apply, hM.covers]

end EffectModel.Mirrors

/-! ## Findings -/

def Finding.rename (r : Renaming) (f : Finding) : Finding :=
  { f with
    site := f.site.relabel r
    type := r.type f.type
    origin := f.origin.map (Origin.rename r)
    span := r.span f.span }

theorem Node.span_relabel (r : Renaming) (uri : String) (n : Node) :
    (n.relabel r).span uri = r.span (n.span uri) := by
  unfold span
  rw [n.extent?_relabel]
  cases n.extent? with
  | none => exact (r.span_ofFile uri).symm
  | some e => exact (r.span_ofExtent uri e).symm

theorem Origin.description_rename (r : Renaming) (site : Node) (o : Origin) :
    (o.rename r).description (site.relabel r) = o.description site := by
  have hname : calleeName? (site.relabel r) = calleeName? site := by
    cases site with
    | expr e =>
      cases e with
      | call info callee args creation => cases callee <;> rfl
      | _ => rfl
    | _ => rfl
  cases o with
  | call e => exact (Element.executable e).qualifiedName_rename r
  | parameterCall | variableCall => simp only [rename, description, hname]
  | _ => rfl

theorem Origin.message_rename (r : Renaming) (site : Node) (name : String) (o : Origin) :
    (o.rename r).message (site.relabel r) name = o.message site name := by
  have hdescription := o.description_rename r site
  unfold message
  cases o <;> dsimp only [rename] at hdescription ⊢
  all_goals rw [hdescription]

namespace EffectModel.Mirrors

variable {m : Mirror} {units : List CompilationUnit} {M M' : EffectModel}
  (hM : M.Mirrors m units M')
include hM

theorem unhandledFinding (uri : String) (site : Node) (c : Candidate) :
    M'.unhandledFinding uri (site.relabel m) (c.rename m) =
      (M.unhandledFinding uri site c).rename m := by
  have hname : M'.types.displayName (m.type c.type) = M.types.displayName c.type :=
    hM.program.types.displayName c.type
  simp only [EffectModel.unhandledFinding, Finding.rename, Candidate.rename, hname,
    Origin.code_rename, Origin.message_rename, Origin.description_rename, Node.span_relabel,
    Option.map_some]

theorem lostFinding (uri : String) (site : Node) (ty : TypeId) :
    M'.lostFinding uri (site.relabel m) (m.type ty) = (M.lostFinding uri site ty).rename m := by
  have hname : M'.types.displayName (m.type ty) = M.types.displayName ty :=
    hM.program.types.displayName ty
  simp only [EffectModel.lostFinding, Finding.rename, hname, Node.span_relabel, Option.map_none]

theorem findingsAt (enabled : List LintCode) (uri : String) (place : Place) :
    M'.findingsAt enabled uri (place.relabel m) =
      (M.findingsAt enabled uri place).map (Finding.rename m) := by
  have henabled : ((M'.candidates (place.relabel m)).filter fun c => c.origin.code ∈ enabled) =
      ((M.candidates place).filter fun c => c.origin.code ∈ enabled).map (Candidate.rename m) := by
    rw [hM.candidates, filter_map]
    congr 2
    funext c
    simp [Candidate.rename]
  have hlost : (if .lostInAssignment ∈ enabled then M'.lost (place.node.relabel m) else []) =
      (if .lostInAssignment ∈ enabled then M.lost place.node else []).map m.type := by
    rw [hM.lost]
    split <;> rfl
  unfold EffectModel.findingsAt
  simp only [henabled, place.node_relabel, hlost, hM.escaping, map_append, map_map]
  congr 1
  · apply map_congr_left
    intro c _
    exact hM.unhandledFinding uri place.node c
  · apply map_congr_left
    intro ty _
    exact hM.lostFinding uri place.node ty

theorem findings (enabled : List LintCode) (u : CompilationUnit) :
    M'.findings enabled (u.relabel m) = (M.findings enabled u).map (Finding.rename m) := by
  have hwalk : Place.walkCode (.unit (u.relabel m)) =
      (Place.walkCode (.unit u)).map (Place.relabel m) := Place.walkCode_relabel m (.unit u)
  unfold EffectModel.findings
  rw [hwalk, flatMap_map, map_flatMap]
  congr 1
  funext place
  exact hM.findingsAt enabled u.uri place

end EffectModel.Mirrors

/-! ## Units beside a hidden library -/

namespace StandsBeside

variable {r : Renaming} {hidden : String} {before after : List CompilationUnit}
  {x : Option CompilationUnit} (hbeside : StandsBeside r hidden before x after)
include hbeside

theorem types_mirror :
    (Program.ofUnits (before ++ after)).types.Mirrors hbeside.mirror
      (Program.ofUnits (r.unitsBeside before x after)).types where
  wellFormed := (Program.typed_ofUnits _).wellFormed
  wellFormed' := (Program.typed_ofUnits _).wellFormed
  def? ty := by
    cases hdef : (Program.ofUnits (before ++ after)).types.def? ty with
    | none => exact hbeside.matches.def?_typeInto_none hdef
    | some d => exact hbeside.facts_mirror.defs ty d hdef
  supertypes ty := by
    have hedges : ∀ units ty, (Program.ofUnits units).types.supertypes ty =
        ((Workspace.ofUnits units).parentTypes ty).filter (· ≠ ty) := by
      intro units ty
      rw [← Workspace.supertypes_ofUnits, Program.types, TypeTable.supertypes,
        (Program.typed_ofUnits units).tables.edges]
      rfl
    rw [hedges, hedges, hbeside.workspace_mirrors.parentTypes, filter_map]
    congr 2
    funext ty'
    simp [hbeside.mirror.type_injective.eq_iff]
  object := hbeside.facts_mirror.object
  core := hbeside.facts_mirror.core

theorem model_mirrors (t : IntrinsicTable) :
    EffectModel.Mirrors hbeside.mirror (before ++ after)
      ⟨Program.ofUnits (before ++ after), t⟩
      ⟨Program.ofUnits (r.unitsBeside before x after), t⟩ where
  program := ⟨hbeside.workspace_mirrors.libraries, hbeside.facts_mirror, hbeside.types_mirror⟩
  intrinsics := rfl
  rooted := ⟨hbeside.numbered, Program.rooted_ofUnits hbeside.numbered⟩
  others := hbeside.others

theorem findings (t : IntrinsicTable) (enabled : List LintCode) (u : CompilationUnit) :
    (EffectModel.mk (Program.ofUnits (r.unitsBeside before x after)) t).findings enabled
        (u.relabel r) =
      ((EffectModel.mk (Program.ofUnits (before ++ after)) t).findings enabled u).map
        (Finding.rename hbeside.mirror) :=
  (hbeside.model_mirrors t).findings enabled u

theorem warnings :
    Interleaves (Diagnostic.isElsewhere hidden) (Diagnostic.rename r)
      (Program.ofUnits (before ++ after)).warnings
      (Program.ofUnits (r.unitsBeside before x after)).warnings :=
  hbeside.workspace_mirrors.warnings.append hbeside.facts_mirror.warnings

end StandsBeside

end CheckedThrows
