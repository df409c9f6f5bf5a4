import CheckedThrows.Proofs.Contents
import CheckedThrows.Proofs.SoundFacts
import Mathlib.Algebra.BigOperators.Group.List.Basic
import Mathlib.Algebra.Order.Group.Multiset
import Mathlib.Tactic.Abel

/-!
# Where a step writes

A step of the resolution goes through some nodes of one library.  What is known
of other nodes stays as it is, the expressions among the nodes have a type
afterwards, and a name is reported as undefined at most once for each place
where it stands.  The nodes are given by their marks.
-/

namespace CheckedThrows

open List

structure NodeFacts where
  declared : Option Element
  signature : Option Signature
  variableType : Option TypeId
  staticType : Option TypeId
  meaning : Option Element
  read : Option Element
  write : Option Element
  operator : Option ExecutableElement
  argument : Option ParameterElement
  catchType : Option TypeId

def Facts.about (f : Facts) (n : NodeId) : NodeFacts where
  declared := f.declared[n]?
  signature := f.signatures[n]?
  variableType := f.variableTypes[n]?
  staticType := f.staticTypes[n]?
  meaning := f.meanings[n]?
  read := f.reads[n]?
  write := f.writes[n]?
  operator := f.operators[n]?
  argument := f.arguments[n]?
  catchType := f.catchTypes[n]?

/-- Only declarations are declared, not what they bring about besides, and no
classes but the given ones. -/
def Facts.Plain (classes : List ClassElement) (f : Facts) : Prop :=
  NodeMap.All (fun _ e => e.id.role = .declared ∧ ∀ c ∈ e.toClass?, c ∈ classes) f.declared

inductive Mark
  /-- Something may be written down about this node. -/
  | write (node : NodeId)
  /-- This node is given a type. -/
  | type (node : NodeId)
  /-- The name that stands here may be reported as undefined. -/
  | name (place : Extent)
  deriving DecidableEq

namespace Node

def ownMarks : Node → Multiset Mark
  | .expr (.name info _) => {.write info.id, .type info.id, .name info.extent}
  | .expr e => {.write e.id, .type e.id}
  | n => {.write n.id}

def marks (n : Node) : Multiset Mark :=
  (n.nodes.map ownMarks).sum

theorem marks_eq (n : Node) : n.marks = n.ownMarks + (n.children.map fun c => c.2.marks).sum := by
  have hbelow : ∀ cs : List (Slot × Node),
      ((cs.flatMap fun c => c.2.nodes).map ownMarks).sum = (cs.map fun c => c.2.marks).sum := by
    intro cs
    induction cs with
    | nil => rfl
    | cons c cs ih =>
      rw [flatMap_cons, map_append, sum_append, ih]
      rfl
  rw [marks, nodes_eq, map_cons, sum_cons, nodesBelow, hbelow]

theorem marks_expr (e : Expr) :
    (Node.expr e).marks = (Node.expr e).ownMarks + ((exprChildren e).map fun c => c.2.marks).sum :=
  marks_eq (.expr e)

theorem marks_stmt (s : Stmt) :
    (Node.stmt s).marks = {.write (stmtId s)} + ((stmtChildren s).map fun c => c.2.marks).sum :=
  marks_eq (.stmt s)

end Node

def bodyCodes : List String :=
  ["undefined_class", "invalid_field_formal", "undefined_annotation"]

def Diagnostic.IsWarningIn (uri : String) (d : Diagnostic) : Prop :=
  ∃ code ∈ "undefined_identifier" :: bodyCodes, ∃ place message,
    d = warning code (.ofExtent uri place) message

def Diagnostic.isUndefinedName (uri : String) (place : Extent) (d : Diagnostic) : Bool :=
  d.code = some "undefined_identifier" && d.span = .ofExtent uri place

/-- Facts `f'` come from `f` by going through nodes with the given marks, where
something may also be written down about the nodes `own`. -/
structure Facts.Visited (uri : String) (own : List NodeId) (marks : Multiset Mark)
    (f f' : Facts) : Prop where
  table : f.types.Extends f'.types
  frame : ∀ n, n ∉ own → Mark.write n ∉ marks → f'.about n = f.about n
  declared : ∀ n : NodeId, (f.declared[n]?).isSome → (f'.declared[n]?).isSome
  plain : ∀ classes, f.Plain classes → f'.Plain classes
  typed : ∀ n : NodeId, (f.staticTypes[n]?).isSome → (f'.staticTypes[n]?).isSome
  covered : ∀ n, Mark.type n ∈ marks → (f'.staticTypes[n]?).isSome
  warnings : ∃ new, f'.warnings = f.warnings ++ new ∧ (∀ d ∈ new, d.IsWarningIn uri) ∧
    ∀ place, new.countP (Diagnostic.isUndefinedName uri place) ≤ marks.count (.name place)

namespace Facts.Visited

variable {uri : String} {own own' : List NodeId} {s s' : Multiset Mark} {f g h : Facts}

theorem refl (own : List NodeId) (f : Facts) : f.Visited uri own 0 f where
  table := .refl _
  frame := fun _ _ _ => rfl
  declared := fun _ h => h
  plain := fun _ h => h
  typed := fun _ h => h
  covered := fun _ h => absurd h (Multiset.notMem_zero _)
  warnings := ⟨[], by simp⟩

theorem trans (hfg : f.Visited uri own s g) (hgh : g.Visited uri own s' h) :
    f.Visited uri own (s + s') h where
  table := hfg.table.trans hgh.table
  frame := by
    intro n hown hmarks
    rw [Multiset.mem_add, not_or] at hmarks
    rw [hgh.frame n hown hmarks.2, hfg.frame n hown hmarks.1]
  declared := fun n hn => hgh.declared n (hfg.declared n hn)
  plain := fun classes hf => hgh.plain classes (hfg.plain classes hf)
  typed := fun n hn => hgh.typed n (hfg.typed n hn)
  covered := by
    intro n hn
    rcases Multiset.mem_add.mp hn with hleft | hright
    · exact hgh.typed n (hfg.covered n hleft)
    · exact hgh.covered n hright
  warnings := by
    obtain ⟨new, hnew, hwarn, hcount⟩ := hfg.warnings
    obtain ⟨new', hnew', hwarn', hcount'⟩ := hgh.warnings
    refine ⟨new ++ new', ?_, ?_, ?_⟩
    · rw [hnew', hnew, append_assoc]
    · exact forall_mem_append.mpr ⟨hwarn, hwarn'⟩
    · intro place
      rw [countP_append, Multiset.count_add]
      exact Nat.add_le_add (hcount place) (hcount' place)

/-- More may be allowed than is done, as long as it does not have to be. -/
theorem mono (hvisited : f.Visited uri own s g)
    (hwrites : ∀ n, n ∈ own ∨ Mark.write n ∈ s → n ∈ own' ∨ Mark.write n ∈ s')
    (htypes : ∀ n, Mark.type n ∈ s' → Mark.type n ∈ s)
    (hnames : ∀ place, s.count (.name place) ≤ s'.count (.name place)) :
    f.Visited uri own' s' g where
  table := hvisited.table
  frame := by
    intro n hown hmarks
    have hnot : ¬(n ∈ own ∨ Mark.write n ∈ s) :=
      fun hn => (hwrites n hn).elim hown hmarks
    exact hvisited.frame n (fun hn => hnot (.inl hn)) (fun hn => hnot (.inr hn))
  declared := hvisited.declared
  plain := hvisited.plain
  typed := hvisited.typed
  covered := fun n hn => hvisited.covered n (htypes n hn)
  warnings := by
    obtain ⟨new, hnew, hwarn, hcount⟩ := hvisited.warnings
    exact ⟨new, hnew, hwarn, fun place => Nat.le_trans (hcount place) (hnames place)⟩

theorem add (hvisited : f.Visited uri own s g) (s' : Multiset Mark)
    (hnone : ∀ n, Mark.type n ∉ s') : f.Visited uri own (s + s') g := by
  apply hvisited.mono
  · exact fun n hn => hn.imp_right fun hmem => Multiset.mem_add.mpr (.inl hmem)
  · intro n hn
    exact (Multiset.mem_add.mp hn).resolve_right (hnone n)
  · intro place
    rw [Multiset.count_add]
    exact Nat.le_add_right _ _

end Facts.Visited

namespace Resolving

def Visits {α : Type} (uri : String) (own : List NodeId) (marks : Multiset Mark)
    (step : Resolving α) : Prop :=
  ∀ f : Facts, f.Visited uri own marks (step.run f).2

section
variable {α β : Type} {uri : String} {own own' : List NodeId} {s s' : Multiset Mark}
  {step : Resolving α}

theorem Visits.pure (own : List NodeId) (a : α) : Visits uri own 0 (Pure.pure a) :=
  fun f => .refl own f

theorem visits_get : Visits uri own 0 get :=
  fun f => .refl own f

theorem Visits.bind {next : α → Resolving β} (hstep : Visits uri own s step)
    (hnext : ∀ a, Visits uri own s' (next a)) : Visits uri own (s + s') (step >>= next) :=
  fun f => (hstep f).trans (hnext _ _)

theorem Visits.last {next : α → Resolving β} (hstep : Visits uri own s step)
    (hnext : ∀ a, Visits uri own 0 (next a)) : Visits uri own s (step >>= next) := by
  have hboth := hstep.bind hnext
  rwa [add_zero] at hboth

theorem Visits.first {next : α → Resolving β} (hstep : Visits uri own 0 step)
    (hnext : ∀ a, Visits uri own s (next a)) : Visits uri own s (step >>= next) := by
  have hboth := hstep.bind hnext
  rwa [zero_add] at hboth

theorem Visits.done (hstep : Visits uri own s step) (result : α → β) :
    Visits uri own s (step >>= fun a => Pure.pure (result a)) :=
  hstep.last fun _ => .pure own _

theorem visits_read (find : Facts → β) : Visits uri own 0 (do return find (← get)) :=
  visits_get.done find

theorem Visits.mono (hstep : Visits uri own s step)
    (hwrites : ∀ n, n ∈ own ∨ Mark.write n ∈ s → n ∈ own' ∨ Mark.write n ∈ s')
    (htypes : ∀ n, Mark.type n ∈ s' → Mark.type n ∈ s)
    (hnames : ∀ place, s.count (.name place) ≤ s'.count (.name place)) :
    Visits uri own' s' step :=
  fun f => (hstep f).mono hwrites htypes hnames

theorem Visits.absorb (hstep : Visits uri own s step)
    (hown : ∀ n ∈ own, n ∈ own' ∨ Mark.write n ∈ s) : Visits uri own' s step :=
  hstep.mono (fun n hn => hn.elim (hown n) .inr) (fun _ hn => hn) fun _ => Nat.le_refl _

theorem Visits.absorb_cons {node : NodeId} (hstep : Visits uri (node :: own) s step)
    (hnode : Mark.write node ∈ s) : Visits uri own s step := by
  apply hstep.absorb
  intro n hn
  rcases mem_cons.mp hn with rfl | hmem
  · exact .inr hnode
  · exact .inl hmem

theorem Visits.add (hstep : Visits uri own s step) (s' : Multiset Mark)
    (hnone : ∀ n, Mark.type n ∉ s') : Visits uri own (s + s') step :=
  fun f => (hstep f).add s' hnone

theorem Visits.of_eq (hstep : Visits uri own s step) (heq : s = s') : Visits uri own s' step :=
  heq ▸ hstep

theorem visits_forM {act : α → Resolving Unit} {marks : α → Multiset Mark} {l : List α}
    (hact : ∀ a ∈ l, Visits uri own (marks a) (act a)) :
    Visits uri own (l.map marks).sum (l.forM act) := by
  induction l with
  | nil => exact .pure own ()
  | cons a l ih =>
    exact (hact a mem_cons_self).bind fun _ =>
      ih fun b hb => hact b (mem_cons_of_mem a hb)

end

section
variable {uri : String} {own : List NodeId}

theorem isSome_insert {α : Type} (m : NodeMap α) (node : NodeId) (a : α) {n : NodeId}
    (hn : (m[n]?).isSome) : ((Std.TreeMap.insert m node a)[n]?).isSome := by
  rw [Std.TreeMap.getElem?_insert]
  split
  · rfl
  · exact hn

theorem getElem?_insert_ne {α : Type} (m : NodeMap α) {node n : NodeId} (a : α) (hne : n ≠ node) :
    (Std.TreeMap.insert m node a)[n]? = m[n]? := by
  rw [Std.TreeMap.getElem?_insert, if_neg]
  exact fun heq => hne (Std.LawfulEqCmp.eq_of_compare heq).symm

/-- A step that writes down something about one node. -/
theorem visits_write {node : NodeId} {update : Facts → Facts} (hnode : node ∈ own)
    (htypes : ∀ f, (update f).types = f.types) (hwarnings : ∀ f, (update f).warnings = f.warnings)
    (hframe : ∀ f n, n ≠ node → (update f).about n = f.about n)
    (hdeclared : ∀ (f : Facts) (n : NodeId),
      (f.declared[n]?).isSome → ((update f).declared[n]?).isSome)
    (hplain : ∀ f classes, f.Plain classes → (update f).Plain classes)
    (htyped : ∀ (f : Facts) (n : NodeId),
      (f.staticTypes[n]?).isSome → ((update f).staticTypes[n]?).isSome) :
    Visits uri own 0 (modify update) := by
  intro f
  refine ⟨?_, ?_, hdeclared f, hplain f, htyped f, ?_, [], ?_, by simp, by simp⟩
  · show f.types.Extends (update f).types
    rw [htypes]
    exact .refl _
  · intro n hown _
    exact hframe f n fun heq => hown (heq ▸ hnode)
  · exact fun n hn => absurd hn (Multiset.notMem_zero _)
  · show (update f).warnings = f.warnings ++ []
    rw [hwarnings, append_nil]

/-- What is written down about a node besides its declaration and its type. -/
inductive Entry
  | signature (s : Signature)
  | variableType (ty : TypeId)
  | meaning (e : Element)
  | read (e : Element)
  | write (e : Element)
  | operator (e : ExecutableElement)
  | argument (p : ParameterElement)
  | catchType (ty : TypeId)

def Entry.note (node : NodeId) : Entry → Resolving Unit
  | .signature s => setSignature node s
  | .variableType ty => setVariableType node ty
  | .meaning e => setMeaning node e
  | .read e => setRead node e
  | .write e => setWrite node e
  | .operator e => setOperator node e
  | .argument p => setArgument node p
  | .catchType ty => setCatchType node ty

variable {node : NodeId} (hnode : node ∈ own)
include hnode

theorem visits_note (entry : Entry) : Visits uri own 0 (entry.note node) := by
  cases entry <;>
    exact visits_write hnode (fun _ => rfl) (fun _ => rfl)
      (fun f n hn => by simp [Facts.about, getElem?_insert_ne _ _ hn])
      (fun _ _ h => h) (fun _ _ h => h) fun _ _ h => h

theorem visits_setDeclared {e : Element} (hrole : e.id.role = .declared)
    (hclass : e.toClass? = none) :
    Visits uri own 0 (setDeclared node e) :=
  visits_write hnode (fun _ => rfl) (fun _ => rfl)
    (fun f n hn => by simp [Facts.about, getElem?_insert_ne _ _ hn])
    (fun f n => isSome_insert f.declared node e)
    (fun _ _ h => h.insert ⟨hrole, by simp [hclass]⟩) fun _ _ h => h

omit hnode

theorem visits_setType (node : NodeId) (ty : TypeId) :
    Visits uri own {.write node, .type node} (setType node ty) := by
  have hwrite : Visits uri (node :: own) 0 (setType node ty) :=
    visits_write mem_cons_self (fun _ => rfl) (fun _ => rfl)
      (fun f n hn => by simp [Facts.about, getElem?_insert_ne _ _ hn])
      (fun _ _ h => h) (fun _ _ h => h) fun f n => isSome_insert f.staticTypes node ty
  intro f
  have hvisited := hwrite f
  refine ⟨hvisited.table, ?_, hvisited.declared, hvisited.plain, hvisited.typed, ?_, ?_⟩
  · intro n hown hmarks
    have hne : n ≠ node := by simpa using hmarks
    exact hvisited.frame n (by simp [hne, hown]) (Multiset.notMem_zero _)
  · intro n hn
    obtain rfl : n = node := by simpa using hn
    show ((Std.TreeMap.insert f.staticTypes n ty)[n]?).isSome
    simp
  · obtain ⟨new, hnew, hwarn, hcount⟩ := hvisited.warnings
    exact ⟨new, hnew, hwarn, fun place => Nat.le_trans (hcount place) (by simp)⟩

theorem visits_notice (n : Notice) : Visits uri own 0 (notice n) :=
  fun f => ⟨.refl _, fun _ _ _ => rfl, fun _ h => h, fun _ h => h, fun _ h => h,
    fun _ h => absurd h (Multiset.notMem_zero _), [], (append_nil _).symm,
    by simp, by simp⟩

theorem visits_fail (fault : UnknownType) : Visits uri own 0 (fail fault) :=
  fun f => ⟨.refl _, fun _ _ _ => rfl, fun _ h => h, fun _ h => h, fun _ h => h,
    fun _ h => absurd h (Multiset.notMem_zero _), [], (append_nil _).symm,
    by simp, by simp⟩

theorem visits_newFunction (params : List TypeId) (returns : TypeId) :
    Visits uri own 0 (newFunction params returns) :=
  fun f => ⟨f.types.extends_intern _, fun _ _ _ => rfl, fun _ h => h, fun _ h => h, fun _ h => h,
    fun _ h => absurd h (Multiset.notMem_zero _), [], (append_nil _).symm,
    by simp, by simp⟩

theorem visits_warn {code : String} (hcode : code ∈ bodyCodes) (place : Extent)
    (message : Text) : Visits uri own 0 (warn code (.ofExtent uri place) message) := by
  intro f
  have hother : code ≠ "undefined_identifier" := by
    rintro rfl
    simp [bodyCodes] at hcode
  refine ⟨.refl _, fun _ _ _ => rfl, fun _ h => h, fun _ h => h, fun _ h => h,
    fun _ h => absurd h (Multiset.notMem_zero _), _, rfl, ?_, ?_⟩
  · exact forall_mem_singleton.mpr ⟨code, mem_cons_of_mem _ hcode, place, message, rfl⟩
  · intro place'
    simp [warning, Diagnostic.isUndefinedName, hother]

theorem visits_undefinedName (ctx : BodyContext) (info : NodeInfo) (name : String) :
    Visits ctx.library own {.name info.extent} (undefinedName ctx info name) := by
  intro f
  refine ⟨.refl _, fun _ _ _ => rfl, fun _ h => h, fun _ h => h, fun _ h => h, by simp, _, rfl,
    ?_, ?_⟩
  · exact forall_mem_singleton.mpr ⟨_, mem_cons_self, info.extent, _, rfl⟩
  · intro place
    by_cases hplace : place = info.extent
    · subst hplace
      exact Nat.le_trans countP_le_length (by simp)
    · have hspan : (Span.ofExtent ctx.library info.extent) ≠ .ofExtent ctx.library place := by
        intro heq
        apply hplace
        obtain ⟨⟨l, c, o⟩, ⟨l', c', o'⟩⟩ := place
        obtain ⟨⟨⟨a, b, d⟩, ⟨a', b', d'⟩⟩, id⟩ := info
        simp_all [Span.ofExtent]
      simp [warning, Diagnostic.isUndefinedName, hspan]

theorem visits_callResult (ty : TypeId) : Visits uri own 0 (callResult ty) := by
  refine visits_get.first fun f => ?_
  split
  · exact .pure own _
  · exact .pure own _
  · exact (visits_fail _).done _

theorem visits_typed {find : Resolving TypeId} {s : Multiset Mark} (node : NodeId)
    (hfind : Visits uri (node :: own) s find) :
    Visits uri own ({.write node, .type node} + s) (typed node find) := by
  have hboth : Visits uri (node :: own) (s + {.write node, .type node}) (typed node find) :=
    hfind.bind fun ty => (visits_setType node ty).done _
  exact (hboth.of_eq (add_comm _ _)).absorb_cons (by simp)

end

end Resolving

end CheckedThrows
