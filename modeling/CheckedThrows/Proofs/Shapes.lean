import CheckedThrows.Ast.Shape
import CheckedThrows.Proofs.Contents

/-!
# Trees without faults

A tree has no fault exactly if every node of it is well shaped and every
decimal number in it can be read.  Otherwise the fault that is found is that of
one of its nodes: `n.HasFault f` says that the node `n` itself is as the fault
`f` describes, with the place that `f` reports.
-/

namespace CheckedThrows

variable {n : Node}

namespace Node

def WellShaped : Node → Prop
  | .expr (.assign _ _ target _) => target.isAssignable = true
  | .expr (.step _ _ _ operand) => operand.isAssignable = true
  | .expr (.lambda _ params _) => ∀ p ∈ params, p.isFieldFormal = false
  | .stmt (.guarded _ _ catches finallyBlock) => catches ≠ [] ∨ finallyBlock ≠ none
  | .stmt (.function d) => d.kind = .setter → d.params.length = 1
  | .class d =>
    ∀ f, .function f ∈ d.members → ∀ q, f.qualifier = some q → q.name = d.name
  | _ => True

def Readable : Node → Prop
  | .expr (.literal _ value) => value.excessDigits? = none
  | _ => True

abbrev Shaped (n : Node) : Prop := n.All WellShaped

def Faultless (n : Node) : Prop := n.WellShaped ∧ n.Readable

theorem faultless_iff : n.All Faultless ↔ n.All WellShaped ∧ n.All Readable := by
  simp only [All, Faultless, forall_and]

def HasFault (f : ShapeFault) : Node → Prop
  | .expr (.literal _ value) => value.excessDigits?.map .digits = some f
  | .expr (.assign _ _ target _) =>
    target.isAssignable = false ∧ f = .target target.extent
  | .expr (.step _ op _ operand) =>
    operand.isAssignable = false ∧ f = .stepOperand op operand.extent
  | .expr (.lambda info params _) =>
    params.any Param.isFieldFormal = true ∧ f = .lambdaFieldFormal info.extent
  | .stmt (.guarded info _ catches finallyBlock) =>
    catches = [] ∧ finallyBlock = none ∧ f = .unguarded info.extent
  | .stmt (.function d) =>
    d.kind = .setter ∧ d.params.length ≠ 1 ∧ f = .setterParams d.info.extent
  | .class d => ∃ g, .function g ∈ d.members ∧ g.qualifierFault? d.name = some f
  | _ => False

def Lacks (f : ShapeFault) (n : Node) : Prop := ¬n.HasFault f

abbrev Free (f : ShapeFault) (n : Node) : Prop := n.All (Lacks f)

theorem free_type (f : ShapeFault) (t : TypeRef) : (Node.type t).Free f :=
  all_type (fun _ h => h) t

end Node

open Node

theorem faultIf_eq_none_iff {condition : Bool} {fault : ShapeFault} :
    faultIf condition fault = none ↔ condition = false := by
  cases condition <;> simp [faultIf]

theorem FunctionDecl.qualifierFault?_eq_none_iff (className : String) (d : FunctionDecl) :
    d.qualifierFault? className = none ↔ ∀ q, d.qualifier = some q → q.name = className := by
  cases hq : d.qualifier <;> simp [FunctionDecl.qualifierFault?, hq, faultIf_eq_none_iff]

namespace Node

theorem WellShaped.digits {f : ShapeFault} (hshape : n.WellShaped)
    (hfault : n.HasFault f) : ∃ count, f = .digits count := by
  unfold HasFault at hfault
  split at hfault
  next info value =>
    obtain ⟨count, -, rfl⟩ := Option.map_eq_some_iff.mp hfault
    exact ⟨count, rfl⟩
  next => simp [WellShaped, hfault.1] at hshape
  next => simp [WellShaped, hfault.1] at hshape
  next =>
    obtain ⟨p, hp, hformal⟩ := List.any_eq_true.mp hfault.1
    simp [hshape p hp] at hformal
  next => simp [WellShaped, hfault.1, hfault.2.1] at hshape
  next => exact absurd (hshape hfault.1) hfault.2.1
  next d =>
    obtain ⟨g, hg, hqualifier⟩ := hfault
    have hnone := (g.qualifierFault?_eq_none_iff d.name).mpr (hshape g hg)
    simp [hnone] at hqualifier
  next => exact hfault.elim

theorem HasFault.literal {count : Nat} (hfault : n.HasFault (.digits count)) :
    ∃ info spelling, n = .expr (.literal info (.int spelling)) ∧
      (Literal.int spelling).excessDigits? = some count := by
  unfold HasFault at hfault
  split at hfault
  case h_1 info value =>
    cases value with
    | int spelling => exact ⟨info, spelling, rfl, by simpa using hfault⟩
    | null | bool | double | string => simp [Literal.excessDigits?] at hfault
  case h_7 d =>
    obtain ⟨g, -, hqualifier⟩ := hfault
    obtain ⟨q, -, hnamed⟩ := Option.bind_eq_some_iff.mp hqualifier
    simp [faultIf] at hnamed
  all_goals simp at hfault

theorem wellShaped_of_no_fault (hnone : ∀ f, ¬n.HasFault f) : n.WellShaped := by
  unfold WellShaped
  split
  next => simpa [HasFault] using hnone
  next => simpa [HasFault] using hnone
  next info params body => simpa [HasFault] using hnone (.lambdaFieldFormal info.extent)
  next info body catches finallyBlock =>
    simpa [HasFault, Classical.or_iff_not_imp_left] using hnone (.unguarded info.extent)
  next d => simpa [HasFault] using hnone (.setterParams d.info.extent)
  next d =>
    intro g hg
    rw [← g.qualifierFault?_eq_none_iff d.name, Option.eq_none_iff_forall_ne_some]
    exact fun f hf => hnone f ⟨g, hg, hf⟩
  next => trivial

theorem faultless_iff_no_fault : n.Faultless ↔ ∀ f, ¬n.HasFault f := by
  constructor
  · rintro ⟨hshape, hreadable⟩ f hfault
    obtain ⟨count, rfl⟩ := hshape.digits hfault
    obtain ⟨info, spelling, rfl, hexcess⟩ := hfault.literal
    simp [Readable, hexcess] at hreadable
  · intro hnone
    refine ⟨wellShaped_of_no_fault hnone, ?_⟩
    unfold Readable
    split
    next info value =>
      rw [Option.eq_none_iff_forall_ne_some]
      exact fun count hcount => hnone (.digits count) (by simp [HasFault, hcount])
    next => trivial

end Node

/-! ## The fault that is found -/

def Finds (found : Option ShapeFault) (free : ShapeFault → Prop) : Prop :=
  match found with
  | some f => ¬free f
  | none => ∀ f, free f

section
variable {a b : Option ShapeFault} {P Q : ShapeFault → Prop}

theorem Finds.orElse (ha : Finds a P) (hb : Finds b Q) : Finds (a <|> b) fun f => P f ∧ Q f := by
  cases a with
  | some f => exact fun hfree => ha hfree.1
  | none =>
    cases b with
    | some f => exact fun hfree => hb hfree.2
    | none => exact fun f => ⟨ha f, hb f⟩

theorem Finds.congr (ha : Finds a P) (hiff : ∀ f, P f ↔ Q f) : Finds a Q := by
  obtain rfl : P = Q := funext fun f => propext (hiff f)
  exact ha

theorem finds_self (a : Option ShapeFault) : Finds a fun f => a ≠ some f := by
  cases a <;> simp [Finds]

theorem finds_faultIf (condition : Bool) (fault : ShapeFault) :
    Finds (faultIf condition fault) fun f => ¬(condition = true ∧ f = fault) := by
  cases condition <;> simp [Finds, faultIf]

theorem finds_findSome? {α : Type} {fault? : α → Option ShapeFault}
    {free : α → ShapeFault → Prop} (h : ∀ x, Finds (fault? x) (free x)) (l : List α) :
    Finds (l.findSome? fault?) fun f => ∀ x ∈ l, free x f := by
  induction l with
  | nil => simp [Finds]
  | cons x l ih =>
    rw [show (x :: l).findSome? fault? = (fault? x <|> l.findSome? fault?) by
      cases hx : fault? x <;> simp [hx]]
    exact ((h x).orElse ih).congr fun f => by simp

end

section
attribute [local simp] Lacks HasFault free_type all_list all_member all_call all_index all_binary
  all_unary all_step all_assign all_throw all_lambda all_param all_metadatum all_clause all_block
  all_exprStmt all_ret all_branch all_loop all_guarded all_varDecl all_functionDecl

mutual

theorem Expr.finds_fault? (e : Expr) : Finds e.fault? fun f => (Node.expr e).Free f := by
  cases e with
  | name | self | rethrow => simp [Expr.fault?, Finds, all_expr, exprChildren]
  | literal info value =>
    exact (finds_self (value.excessDigits?.map .digits)).congr fun f => by
      simp [all_expr, exprChildren]
  | list info items => exact (finds_exprsFault? items).congr fun f => by simp
  | member info target name => exact target.finds_fault?.congr fun f => by simp
  | call info callee args creation =>
    exact (callee.finds_fault?.orElse (finds_exprsFault? args)).congr fun f => by simp
  | index info target index =>
    exact (target.finds_fault?.orElse index.finds_fault?).congr fun f => by simp
  | binary info op left right =>
    exact (left.finds_fault?.orElse right.finds_fault?).congr fun f => by simp
  | unary info op operand => exact operand.finds_fault?.congr fun f => by simp
  | step info op form operand =>
    exact (operand.finds_fault?.orElse (finds_faultIf _ _)).congr fun f => by simp [and_comm]
  | assign info op target value =>
    exact (target.finds_fault?.orElse ((finds_faultIf _ _).orElse value.finds_fault?)).congr
      fun f => by simp [and_left_comm]
  | throw info value => exact value.finds_fault?.congr fun f => by simp
  | lambda info params body =>
    exact ((finds_paramsFault? params).orElse
      (body.finds_fault?.orElse (finds_faultIf _ _))).congr
      fun f => by simp [and_comm, and_left_comm, and_assoc]

theorem finds_exprsFault? (es : List Expr) :
    Finds (exprsFault? es) fun f => ∀ e ∈ es, (Node.expr e).Free f := by
  cases es with
  | nil => simp [exprsFault?, Finds]
  | cons e es => exact (e.finds_fault?.orElse (finds_exprsFault? es)).congr fun f => by simp

theorem Body.finds_fault? (b : Body) : Finds b.fault? fun f => (Node.ofBody b).Free f := by
  cases b with
  | block b => exact b.finds_fault?
  | value e => exact e.finds_fault?

theorem finds_bodyFault? (b : Option Body) :
    Finds (bodyFault? b) fun f => ∀ x ∈ b, (Node.ofBody x).Free f := by
  cases b with
  | none => simp [bodyFault?, Finds]
  | some b => exact b.finds_fault?.congr fun f => by simp

theorem Param.finds_fault? (p : Param) : Finds p.fault? fun f => (Node.param p).Free f := by
  obtain ⟨info, name, t, isFieldFormal, entries⟩ := p
  exact (finds_metadataFault? entries).congr fun f => by simp

theorem finds_paramsFault? (ps : List Param) :
    Finds (paramsFault? ps) fun f => ∀ p ∈ ps, (Node.param p).Free f := by
  cases ps with
  | nil => simp [paramsFault?, Finds]
  | cons p ps => exact (p.finds_fault?.orElse (finds_paramsFault? ps)).congr fun f => by simp

theorem Metadatum.finds_fault? (m : Metadatum) :
    Finds m.fault? fun f => (Node.metadatum m).Free f := by
  match m with
  | ⟨info, name, none⟩ => simp [Metadatum.fault?, Finds]
  | ⟨info, name, some args⟩ => exact (finds_exprsFault? args).congr fun f => by simp

theorem finds_metadataFault? (ms : List Metadatum) :
    Finds (metadataFault? ms) fun f => ∀ m ∈ ms, (Node.metadatum m).Free f := by
  cases ms with
  | nil => simp [metadataFault?, Finds]
  | cons m ms => exact (m.finds_fault?.orElse (finds_metadataFault? ms)).congr fun f => by simp

theorem Block.finds_fault? (b : Block) : Finds b.fault? fun f => (Node.block b).Free f := by
  obtain ⟨info, statements⟩ := b
  exact (finds_stmtsFault? statements).congr fun f => by simp

theorem finds_stmtsFault? (ss : List Stmt) :
    Finds (stmtsFault? ss) fun f => ∀ s ∈ ss, (Node.stmt s).Free f := by
  cases ss with
  | nil => simp [stmtsFault?, Finds]
  | cons s ss => exact (s.finds_fault?.orElse (finds_stmtsFault? ss)).congr fun f => by simp

theorem Stmt.finds_fault? (s : Stmt) : Finds s.fault? fun f => (Node.stmt s).Free f := by
  match s with
  | .block b => exact b.finds_fault?
  | .variable d => exact d.finds_fault?
  | .function d => exact d.finds_fault?
  | .leave info | .next info | .ret info none =>
    simp [Stmt.fault?, Finds, all_stmt, stmtChildren]
  | .expr info e | .ret info (some e) => exact e.finds_fault?.congr fun f => by simp
  | .branch info cond thenBlock none =>
    exact (cond.finds_fault?.orElse thenBlock.finds_fault?).congr fun f => by simp
  | .branch info cond thenBlock (some elseBlock) =>
    exact (elseBlock.finds_fault?.orElse
      (cond.finds_fault?.orElse thenBlock.finds_fault?)).congr
      fun f => by simp [and_comm, and_assoc]
  | .loop info cond body =>
    exact (cond.finds_fault?.orElse body.finds_fault?).congr fun f => by simp
  | .guarded info body catches none =>
    exact (body.finds_fault?.orElse
      ((finds_catchesFault? catches).orElse (finds_faultIf _ _))).congr
      fun f => by simp [and_comm, and_left_comm]
  | .guarded info body catches (some finallyBlock) =>
    exact (body.finds_fault?.orElse
      ((finds_catchesFault? catches).orElse finallyBlock.finds_fault?)).congr
      fun f => by simp

theorem CatchClause.finds_fault? (c : CatchClause) :
    Finds c.fault? fun f => (Node.clause c).Free f := by
  obtain ⟨info, t, binder, stackBinder, body⟩ := c
  exact body.finds_fault?.congr fun f => by simp

theorem finds_catchesFault? (cs : List CatchClause) :
    Finds (catchesFault? cs) fun f => ∀ c ∈ cs, (Node.clause c).Free f := by
  cases cs with
  | nil => simp [catchesFault?, Finds]
  | cons c cs => exact (c.finds_fault?.orElse (finds_catchesFault? cs)).congr fun f => by simp

theorem VarDecl.finds_fault? (d : VarDecl) : Finds d.fault? fun f => (Node.varDecl d).Free f := by
  match d with
  | ⟨info, name, kind, t, some init, modifiers, entries⟩ =>
    exact (init.finds_fault?.orElse (finds_metadataFault? entries)).congr fun f => by simp
  | ⟨info, name, kind, t, none, modifiers, entries⟩ =>
    exact (finds_metadataFault? entries).congr fun f => by simp

theorem FunctionDecl.finds_fault? (d : FunctionDecl) :
    Finds d.fault? fun f => (Node.functionDecl d).Free f := by
  obtain ⟨info, name, kind, qualifier, params, returns, body, modifiers, entries⟩ := d
  exact ((finds_paramsFault? params).orElse ((finds_faultIf _ _).orElse
    ((finds_bodyFault? body).orElse (finds_metadataFault? entries)))).congr
    fun f => by simp [and_assoc, and_left_comm]

end

end

theorem Member.finds_fault? (className : String) (m : Member) :
    Finds (m.fault? className) fun f => (Node.ofMember m).Free f ∧
      ∀ g, m = .function g → g.qualifierFault? className ≠ some f := by
  cases m with
  | «variable» d => exact d.finds_fault?.congr fun f => by simp [ofMember]
  | function d =>
    exact ((finds_self _).orElse d.finds_fault?).congr fun f => by simp [ofMember, and_comm]

theorem ClassDecl.finds_fault? (d : ClassDecl) : Finds d.fault? fun f => (Node.class d).Free f := by
  refine ((finds_metadataFault? d.metadata).orElse
    (finds_findSome? (Member.finds_fault? d.name) d.members)).congr fun f => ?_
  have hself : (Node.class d).Lacks f ↔ ∀ m ∈ d.members, ∀ g, m = .function g →
      g.qualifierFault? d.name ≠ some f :=
    ⟨fun h m hm g heq hfault => h ⟨g, heq ▸ hm, hfault⟩,
      fun h ⟨g, hg, hfault⟩ => h _ hg g rfl hfault⟩
  simp [all_class, hself, free_type, forall_and, and_assoc, and_comm, and_left_comm]

theorem Declaration.finds_fault? (d : Declaration) :
    Finds d.fault? fun f => (Node.ofDeclaration d).Free f := by
  cases d with
  | «class» d => exact d.finds_fault?
  | function d => exact d.finds_fault?
  | «variable» d => exact d.finds_fault?

namespace CompilationUnit

theorem finds_fault? (u : CompilationUnit) : Finds u.fault? fun f => (Node.unit u).Free f :=
  (finds_findSome? Declaration.finds_fault? u.declarations).congr fun f => by
    simp [all_unit, all_directive, Lacks, HasFault]

theorem exists_hasFault {u : CompilationUnit} {f : ShapeFault} (hfault : u.fault? = some f) :
    ∃ n ∈ (Node.unit u).nodes, n.HasFault f := by
  have hfound := u.finds_fault?
  rw [hfault] at hfound
  simpa [Finds, all_iff_forall_mem_nodes, Lacks] using hfound

theorem fault?_eq_none_iff (u : CompilationUnit) :
    u.fault? = none ↔ (Node.unit u).All Faultless := by
  have hall : (Node.unit u).All Faultless ↔ ∀ f, (Node.unit u).Free f := by
    simp only [All, faultless_iff_no_fault]
    exact ⟨fun h f p hp => h p hp f, fun h p hp f => h f p hp⟩
  have hfound := u.finds_fault?
  rw [hall]
  cases hfault : u.fault? with
  | none =>
    rw [hfault] at hfound
    exact iff_of_true rfl hfound
  | some f =>
    rw [hfault] at hfound
    exact iff_of_false (Option.some_ne_none f) fun hfree => hfound (hfree f)

end CompilationUnit

end CheckedThrows
