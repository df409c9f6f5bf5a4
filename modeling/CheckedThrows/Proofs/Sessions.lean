import CheckedThrows.Effects.Session
import CheckedThrows.Proofs.Evaluation
import CheckedThrows.Proofs.Origins

/-!
# Sessions remember nothing wrong

What a session remembers under a number is what would be found anew for
whatever has that number.  Each step of a session keeps it so, and gives the
answer that does without a memo.  So the answers do not depend on what was asked
before.
-/

namespace CheckedThrows

open List

variable {units : List CompilationUnit} {e : Element}

/-- What is remembered is right for every entry and element of the units, and no
variable is being evaluated. -/
structure Memo.Sound (units : List CompilationUnit) (m : EffectModel) (memo : Memo) : Prop where
  active : memo.active = []
  constants : ∀ entry : Metadatum, entry.StandsIn units →
    ∀ c, memo.constants.lookup entry.id = some c → c = m.program.entryConstant? entry
  effects : ∀ e : Element, e.RootedIn units →
    ∀ types, memo.effects.lookup e.id = some types → types = m.effects e

theorem Memo.sound_empty (units : List CompilationUnit) (m : EffectModel) :
    ({} : Memo).Sound units m :=
  ⟨rfl, by simp, by simp⟩

structure EffectModel.Rooted (units : List CompilationUnit) (m : EffectModel) : Prop where
  numbered : Numbered units
  facts : m.program.facts.Sound (Element.RootedIn units) m.program.workspace

namespace EffectModel.Rooted

variable {units : List CompilationUnit} {m : EffectModel} (hm : m.Rooted units)
  {node : NodeId} {e : Element}
include hm

theorem meaning? (hmeaning : m.program.meaning? node = some e) : e.RootedIn units :=
  (hm.facts.meanings _ _ hmeaning).holds

theorem declared? (hdeclared : m.program.declared? node = some e) : e.RootedIn units :=
  (hm.facts.declared _ _ hdeclared).2.holds

theorem read? (hread : m.program.read? node = some e) : e.RootedIn units :=
  (hm.facts.reads _ _ hread).holds

theorem write? (hwrite : m.program.write? node = some e) : e.RootedIn units :=
  (hm.facts.writes _ _ hwrite).holds

theorem operator? (hoperator : (m.program.operator? node).map .executable = some e) :
    e.RootedIn units := by
  obtain ⟨x, hx, rfl⟩ := Option.map_eq_some_iff.mp hoperator
  exact (hm.facts.operators _ _ hx).holds

theorem parameterFor? {p : ParameterElement} (hparameter : m.program.parameterFor? node = some p) :
    (Element.parameter p).RootedIn units :=
  (hm.facts.arguments _ _ hparameter).holds

theorem getter? (hgetter : m.program.getter? node = some e) : e.RootedIn units :=
  hm.meaning? (Option.filter_eq_some_iff.mp hgetter).1

theorem invocations {slot : Slot} {x : Expr} (hmem : some e ∈ m.program.invocations slot x) :
    e.RootedIn units := by
  unfold Program.invocations at hmem
  split at hmem
  case h_1 => exact hm.meaning? (mem_singleton.mp hmem).symm
  case h_2 | h_3 =>
    split at hmem
    · simp at hmem
    · exact hm.getter? (mem_singleton.mp hmem).symm
  case h_4 =>
    split at hmem
    · simp at hmem
    · exact hm.operator? (mem_singleton.mp hmem).symm
  case h_5 | h_6 => exact hm.operator? (mem_singleton.mp hmem).symm
  case h_7 =>
    simp only [mem_cons, not_mem_nil, or_false] at hmem
    rcases hmem with hoperator | hread | hwrite
    · exact hm.operator? hoperator.symm
    · exact hm.read? hread.symm
    · exact hm.write? hwrite.symm
  case h_8 =>
    split at hmem
    · exact hm.write? (mem_singleton.mp hmem).symm
    · simp only [mem_cons, not_mem_nil, or_false] at hmem
      rcases hmem with hwrite | hread | hoperator
      · exact hm.write? hwrite.symm
      · exact hm.read? hread.symm
      · exact hm.operator? hoperator.symm
  case h_9 => simp at hmem

theorem invoked {place : Place} {x : ExecutableElement} (hx : x ∈ m.program.invoked place) :
    (Element.executable x).RootedIn units := by
  unfold Program.invoked at hx
  split at hx
  next y _ =>
    rcases mem_of_mem_foldl_unknown hx with hnone | hmem
    · simp at hnone
    · obtain ⟨found, hfound, hto⟩ := mem_filterMap.mp hmem
      obtain ⟨e, rfl, hto⟩ := Option.bind_eq_some_iff.mp hto
      cases e with
      | executable x' => exact Option.some.inj hto ▸ hm.invocations hfound
      | _ => simp [Element.toExecutable?] at hto
  next => simp at hx

theorem storedIn? {n : Node} (hstored : m.storedIn? n = some e) : e.RootedIn units := by
  unfold EffectModel.storedIn? at hstored
  split at hstored
  · exact hm.write? (Option.filter_eq_some_iff.mp hstored).1
  · exact hm.declared? hstored
  · simp at hstored

end EffectModel.Rooted

namespace Session

/-- From a sound memo, a step leads to a sound memo and gives this value. -/
def Answers {α : Type} (units : List CompilationUnit) (m : EffectModel) (step : Session α)
    (a : α) : Prop :=
  ∀ memo : Memo, memo.Sound units m → (step.run memo).1 = a ∧ (step.run memo).2.Sound units m

section
variable {α β : Type} {units : List CompilationUnit} {m : EffectModel}

theorem Answers.pure (a : α) : Answers units m (Pure.pure a) a :=
  fun _ hmemo => ⟨rfl, hmemo⟩

theorem Answers.bind {step : Session α} {next : α → Session β} {a : α} {b : β}
    (hstep : Answers units m step a) (hnext : Answers units m (next a) b) :
    Answers units m (step >>= next) b := by
  intro memo hmemo
  obtain ⟨hvalue, hafter⟩ := hstep memo hmemo
  have hrun : (step >>= next).run memo = (next a).run (step.run memo).2 := by
    rw [← hvalue]
    rfl
  rw [hrun]
  exact hnext _ hafter

theorem Answers.map {step : Session α} {a : α} (f : α → β) (hstep : Answers units m step a) :
    Answers units m (do return f (← step)) (f a) :=
  hstep.bind (.pure (f a))

theorem Answers.mapM {step : α → Session β} {f : α → β} {l : List α}
    (hstep : ∀ a ∈ l, Answers units m (step a) (f a)) :
    Answers units m (l.mapM step) (l.map f) := by
  induction l with
  | nil => exact .pure []
  | cons a l ih =>
    obtain ⟨ha, hl⟩ := forall_mem_cons.mp hstep
    rw [mapM_cons]
    exact ha.bind ((ih hl).bind (.pure (f a :: l.map f)))

theorem Answers.foldlM {step : β → α → Session β} {f : β → α → β}
    (hstep : ∀ b a, Answers units m (step b a) (f b a)) (l : List α) (b : β) :
    Answers units m (l.foldlM step b) (l.foldl f b) := by
  induction l generalizing b with
  | nil => exact .pure b
  | cons a l ih => exact (hstep b a).bind (ih (f b a))

end

/-! ## Constants and effects -/

section
variable {units : List CompilationUnit} {m : EffectModel} (hm : m.Rooted units)
include hm
variable (place : Place) (type : TypeId)

theorem answers_entryConstant? {entry : Metadatum} (hentry : entry.StandsIn units) :
    Answers units m (entryConstant? m entry) (m.program.entryConstant? entry) := by
  intro memo hmemo
  cases hlookup : memo.constants.lookup entry.id with
  | some known =>
    have hrun : (entryConstant? m entry).run memo = (known, memo) := by
      simp only [entryConstant?, StateT.run_bind, StateT.run_get, pure_bind, hlookup]
      rfl
    rw [hrun]
    exact ⟨hmemo.constants entry hentry known hlookup, hmemo⟩
  | none =>
    have hvalue : (m.program.evaluateEntry memo.active entry).value =
        m.program.entryConstant? entry := by
      rw [hmemo.active]
      exact m.program.value_evaluateEntry entry
    have hrun : (entryConstant? m entry).run memo =
        (m.program.entryConstant? entry,
          { memo with
            constants := (entry.id, m.program.entryConstant? entry) :: memo.constants
            active := (m.program.evaluateEntry memo.active entry).guard }) := by
      simp only [entryConstant?, StateT.run_bind, StateT.run_get, pure_bind, hlookup, hvalue]
      rfl
    rw [hrun]
    refine ⟨rfl, ?_, ?_, hmemo.effects⟩
    · exact (m.program.evaluateEntry memo.active entry).guard_eq.trans hmemo.active
    · intro entry' hentry' c hc
      rw [lookup_cons] at hc
      split at hc
      next heq =>
        obtain rfl := hentry'.eq_of_id_eq hm.numbered hentry (by simpa using heq)
        exact (Option.some.inj hc).symm
      next => exact hmemo.constants entry' hentry' c hc

theorem answers_declaredEffects (he : e.RootedIn units) :
    Answers units m (declaredEffects m e) (m.declaredEffects e) := by
  have hconstants : Answers units m (e.metadata.mapM (entryConstant? m))
      (e.metadata.map m.program.entryConstant?) :=
    .mapM fun entry hentry => answers_entryConstant? hm (he.standsIn hentry)
  have hvalue : m.declaredEffects e = addTypes []
      ((e.metadata.map m.program.entryConstant?).flatMap fun c =>
        (c.map m.thrownBy).getD []) := by
    rw [flatMap_map]
    rfl
  rw [hvalue]
  exact hconstants.map _

/-- Effects that are not known are those that are declared, or else those of the
table. -/
theorem answers_effects (he : e.RootedIn units) : Answers units m (effects m e) (m.effects e) := by
  intro memo hmemo
  cases hlookup : memo.effects.lookup e.id with
  | some known =>
    have hrun : (effects m e).run memo = (known, memo) := by
      simp only [effects, StateT.run_bind, StateT.run_get, pure_bind, hlookup]
      rfl
    rw [hrun]
    exact ⟨hmemo.effects e he known hlookup, hmemo⟩
  | none =>
    obtain ⟨hdeclared, hafter⟩ := answers_declaredEffects hm he memo hmemo
    have hvalue : (if (m.declaredEffects e).isEmpty then m.intrinsicEffects e
        else m.declaredEffects e) = m.effects e := by
      unfold EffectModel.effects
      cases m.declaredEffects e <;> rfl
    have hrun : (effects m e).run memo =
        (m.effects e,
          { ((declaredEffects m e).run memo).2 with
            effects := (e.id, m.effects e) :: ((declaredEffects m e).run memo).2.effects }) := by
      rw [← hvalue, ← hdeclared]
      simp only [effects, StateT.run_bind, StateT.run_get, pure_bind, hlookup]
      rfl
    rw [hrun]
    refine ⟨rfl, hafter.active, hafter.constants, ?_⟩
    intro e' he' types htypes
    rw [lookup_cons] at htypes
    split at htypes
    next heq =>
      rw [← Option.some.inj htypes]
      exact he.effects_eq hm.numbered he' (by simpa using (eq_of_beq heq).symm)
    next => exact hafter.effects e' he' types htypes

theorem answers_effects? {e : Option Element} (he : ∀ e' ∈ e, e'.RootedIn units) :
    Answers units m (effects? m e) (m.effects? e) := by
  cases e with
  | none => exact .pure []
  | some e => exact answers_effects hm (he e rfl)

/-! ## What is around a site -/

theorem answers_isDeclaredByParameter :
    Answers units m (isDeclaredByParameter m place type) (m.isDeclaredByParameter place type) := by
  unfold isDeclaredByParameter EffectModel.isDeclaredByParameter
  cases hparameter : place.enclosingLambda?.bind m.program.parameterFor? with
  | none => exact .pure false
  | some p =>
    obtain ⟨node, _, hp⟩ := Option.bind_eq_some_iff.mp hparameter
    exact (answers_effects hm (hm.parameterFor? hp)).map fun declared => m.covers declared type

theorem answers_isDeclaredByFunction :
    Answers units m (isDeclaredByFunction m place type) (m.isDeclaredByFunction place type) := by
  unfold isDeclaredByFunction EffectModel.isDeclaredByFunction
  cases place.enclosingFunction? with
  | none => exact .pure false
  | some d =>
    exact (answers_effects? hm fun e he => hm.declared? he).map fun declared =>
      m.covers declared type

theorem answers_isDeclared :
    Answers units m (isDeclared m place type) (m.isDeclared place type) := by
  unfold isDeclared EffectModel.isDeclared
  refine (answers_isDeclaredByParameter hm place type).bind ?_
  cases m.isDeclaredByParameter place type with
  | true => exact .pure true
  | false => exact answers_isDeclaredByFunction hm place type

theorem answers_escapes : Answers units m (escapes m place type) (m.escapes place type) := by
  unfold escapes EffectModel.escapes
  cases m.program.isHandled place type with
  | true => exact .pure false
  | false => exact (answers_isDeclared hm place type).map fun declared => !declared

/-! ## Candidates -/

theorem answers_candidatesOf {callee : Element} (hcallee : callee.RootedIn units)
    (origin : Origin) :
    Answers units m (candidatesOf m callee origin)
      ((m.effects callee).map fun type => ⟨type, origin⟩) :=
  (answers_effects hm hcallee).bind (.pure _)

theorem answers_calls : Answers units m (calls m place) (m.calls place) := by
  have hall : Answers units m
      ((m.program.invoked place).mapM fun e => candidatesOf m (.executable e) (.call e))
      ((m.program.invoked place).map fun e =>
        (m.effects (.executable e)).map fun type => ⟨type, .call e⟩) :=
    .mapM fun e he => answers_candidatesOf hm (hm.invoked he) (.call e)
  rw [show m.calls place = ((m.program.invoked place).map fun e =>
    (m.effects (.executable e)).map fun type => ⟨type, .call e⟩).flatten from flatMap_def ..]
  exact hall.map List.flatten

theorem answers_valueCalls (callee : Expr) :
    Answers units m (valueCalls m callee) (m.valueCalls callee) := by
  unfold valueCalls EffectModel.valueCalls
  cases hmeaning : m.program.meaning? callee.id with
  | none => exact .pure []
  | some e =>
    cases e with
    | parameter p => exact answers_candidatesOf hm (hm.meaning? hmeaning) (.parameterCall p)
    | «variable» v => exact answers_candidatesOf hm (hm.meaning? hmeaning) (.variableCall v)
    | «class» _ | executable _ => exact .pure []

theorem answers_candidates : Answers units m (candidates m place) (m.candidates place) := by
  unfold candidates
  split
  next => exact .pure _
  next => exact .pure _
  next info callee args creation hnode =>
    have hvalue : m.candidates place = m.calls place ++ m.valueCalls callee := by
      simp [EffectModel.candidates, hnode]
    rw [hvalue]
    exact (answers_calls hm place).bind
      ((answers_valueCalls hm callee).map fun more => m.calls place ++ more)
  next hthrow hrethrow hcall =>
    have hvalue : m.candidates place = m.calls place := by
      unfold EffectModel.candidates
      split
      next h => exact absurd h (hthrow _ _)
      next h => exact absurd h (hrethrow _)
      next h => exact absurd h (hcall _ _ _ _)
      next => rfl
    rw [hvalue]
    exact answers_calls hm place

theorem answers_escaping (cs : List Candidate) :
    Answers units m (escaping m place cs) (m.escaping place cs) := by
  refine .foldlM (fun kept c => ?_) cs []
  split
  next hknown =>
    rw [hknown]
    exact .pure kept
  next hnew =>
    refine (answers_escapes hm place c.type).bind ?_
    rw [Bool.eq_false_of_not_eq_true hnew]
    cases m.escapes place c.type with
    | true => exact .pure (kept ++ [c])
    | false => exact .pure kept

theorem answers_unhandled : Answers units m (unhandled m place) (m.unhandled place) :=
  (answers_candidates hm place).bind
    ((answers_escaping hm place (m.candidates place)).map fun cs => cs.map Candidate.type)

/-! ## Assignments and findings -/

theorem answers_carried (e : Expr) : Answers units m (carried m e) (m.carried e) := by
  unfold carried EffectModel.carried
  split
  · cases hmeaning : (m.program.meaning? e.id).filter Element.carriesEffects with
    | none => exact .pure []
    | some element =>
      exact (answers_effects hm (hm.meaning? (Option.filter_eq_some_iff.mp hmeaning).1)).map
        fun types => addTypes [] types
  · exact .pure []

theorem answers_lost (n : Node) : Answers units m (lost m n) (m.lost n) := by
  unfold lost EffectModel.lost
  cases EffectModel.storedValue? n with
  | none => exact .pure []
  | some value =>
    dsimp only
    refine (answers_carried hm value).bind ?_
    cases m.carried value with
    | nil => exact .pure []
    | cons type types =>
      exact (answers_effects? hm fun e he => hm.storedIn? he).map fun declared =>
        (type :: types).filter fun type => !m.covers declared type

theorem answers_findingsAt (enabled : List LintCode) (uri : String) (place : Place) :
    Answers units m (findingsAt m enabled uri place) (m.findingsAt enabled uri place) := by
  unfold findingsAt EffectModel.findingsAt
  refine (answers_candidates hm place).bind ((answers_escaping hm place _).bind ?_)
  by_cases hlost : .lostInAssignment ∈ enabled
  · simp only [if_pos hlost]
    exact (answers_lost hm place.node).map fun types =>
      (m.escaping place _).map _ ++ types.map (m.lostFinding uri place.node)
  · simp only [if_neg hlost]
    exact .pure _

theorem answers_findings (enabled : List LintCode) (u : CompilationUnit) :
    Answers units m (findings m enabled u) (m.findings enabled u) := by
  have hall : Answers units m
      ((Place.walkCode (.unit u)).mapM (findingsAt m enabled u.uri))
      ((Place.walkCode (.unit u)).map (m.findingsAt enabled u.uri)) :=
    .mapM fun place _ => answers_findingsAt hm enabled u.uri place
  exact hall.map List.flatten

end

end Session

/-! ## Questions -/

inductive Program.Mentions (p : Program) : Element → Prop
  | topLevel {l : Library} {entry : String × Element} (isLibrary : l ∈ p.workspace.libraries)
      (isEntry : entry ∈ l.scope) : Mentions p entry.2
  | class {i : ClassInfo} (isClass : i ∈ p.workspace.classes) : Mentions p (.class i.element)
  | method {i : ClassInfo} {entry : String × ExecutableElement}
      (isClass : i ∈ p.workspace.classes) (isEntry : entry ∈ i.members.methods) :
      Mentions p (.executable entry.2)
  | getter {i : ClassInfo} {entry : String × Property}
      (isClass : i ∈ p.workspace.classes) (isEntry : entry ∈ i.members.getters) :
      Mentions p entry.2.toElement
  | setter {i : ClassInfo} {entry : String × Property}
      (isClass : i ∈ p.workspace.classes) (isEntry : entry ∈ i.members.setters) :
      Mentions p entry.2.toElement
  | constructor {i : ClassInfo} {entry : String × ExecutableElement}
      (isClass : i ∈ p.workspace.classes) (isEntry : entry ∈ i.members.constructors) :
      Mentions p (.executable entry.2)
  | declared {node : NodeId} {e : Element} (isDeclared : p.declared? node = some e) : Mentions p e
  | meaning {node : NodeId} {e : Element} (isMeaning : p.meaning? node = some e) : Mentions p e
  | read {node : NodeId} {e : Element} (isRead : p.read? node = some e) : Mentions p e
  | write {node : NodeId} {e : Element} (isWritten : p.write? node = some e) : Mentions p e
  | operator {node : NodeId} {e : ExecutableElement} (isOperator : p.operator? node = some e) :
      Mentions p (.executable e)
  | argument {node : NodeId} {e : ParameterElement} (isFor : p.parameterFor? node = some e) :
      Mentions p (.parameter e)
  | parameter {e : ExecutableElement} {x : ParameterElement} (isParam : x ∈ p.facts.paramsOf e) :
      Mentions p (.parameter x)

theorem Program.Mentions.rootedIn (hunits : Numbered units)
    (hmentions : (Program.ofUnits units).Mentions e) : e.RootedIn units := by
  have hfacts := Program.rooted_ofUnits hunits
  have hholds := Workspace.holds_rootedIn units
  cases hmentions with
  | topLevel hl hentry => exact hholds.scope _ hl _ hentry
  | «class» hi =>
    obtain ⟨u, hu, hdecl, hlibrary⟩ := Workspace.class_ofUnits hi
    exact Element.rootedIn_class hu hdecl hlibrary
  | method hi hentry => exact (hholds.members _ hi).methods _ hentry
  | getter hi hentry => exact (hholds.members _ hi).getters _ hentry
  | setter hi hentry => exact (hholds.members _ hi).setters _ hentry
  | constructor hi hentry => exact (hholds.members _ hi).constructors _ hentry
  | declared h => exact (hfacts.declared _ _ h).2.holds
  | meaning h => exact (hfacts.meanings _ _ h).holds
  | read h => exact (hfacts.reads _ _ h).holds
  | write h => exact (hfacts.writes _ _ h).holds
  | operator h => exact (hfacts.operators _ _ h).holds
  | argument h => exact (hfacts.arguments _ _ h).holds
  | parameter h => exact (hfacts.paramsOf _ _ h).holds

/-- A question that can be asked about a program of these units: metadata is
that of the units, and elements are those of the program. -/
def Question.IsAbout (units : List CompilationUnit) (p : Program) : Question → Prop
  | .constant entry => entry.StandsIn units
  | .effects e => ∀ e' ∈ e, p.Mentions e'
  | .unhandled _ | .lost _ | .findings .. => True

namespace Session

theorem answers_ask (hunits : Numbered units) (intrinsics : IntrinsicTable) {q : Question}
    (hq : q.IsAbout units (Program.ofUnits units)) :
    let m : EffectModel := ⟨Program.ofUnits units, intrinsics⟩
    Answers units m (ask m q) (m.answer q) := by
  intro m
  have hm : m.Rooted units := ⟨hunits, Program.rooted_ofUnits hunits⟩
  cases q with
  | constant entry => exact (answers_entryConstant? hm hq).map Answer.constant
  | effects e =>
    exact (answers_effects? hm fun e' he' => (hq e' he').rootedIn hunits).map Answer.types
  | unhandled place => exact (answers_unhandled hm place).map Answer.types
  | lost n => exact (answers_lost hm n).map Answer.types
  | findings enabled u => exact (answers_findings hm enabled u).map Answer.findings

/-- In a program of parsed texts, questions that are asked one after the other
in one session, in whichever order and however often, have the answers that they
have in sessions of their own.  Between them nothing is being evaluated, and
what is remembered for an entry or an element is what is found for it. -/
theorem askAll_eq_map_ask {next : NodeId} {sources : List Source}
    {parsed : List (Source × Except Diagnostic CompilationUnit)}
    (hparsed : Source.parseAll next sources = .ok parsed) {units : List CompilationUnit}
    (hunits : units ⊆ parsed.filterMap Loaded.unitOf?) (intrinsics : IntrinsicTable)
    (questions : List Question)
    (hquestions : ∀ q ∈ questions, q.IsAbout units (Program.ofUnits units)) :
    let m : EffectModel := ⟨Program.ofUnits units, intrinsics⟩
    let memo := ((questions.mapM (ask m)).run {}).2
    askAll m questions = (questions.map fun q => ((ask m q).run {}).1) ∧
      (∀ q ∈ questions, ((ask m q).run {}).1 = m.answer q) ∧
      memo.active = [] ∧
      (∀ entry : Metadatum, entry.StandsIn units → ∀ c,
        memo.constants.lookup entry.id = some c → c = m.program.entryConstant? entry) ∧
      ∀ e, m.program.Mentions e → ∀ types,
        memo.effects.lookup e.id = some types → types = m.effects e := by
  intro m memo
  have hnumbered := (Source.numberedFrom_parseAll hparsed).numbered.of_subset hunits
  have hempty := Memo.sound_empty units m
  have halone : ∀ q ∈ questions, ((ask m q).run {}).1 = m.answer q :=
    fun q hq => (answers_ask hnumbered intrinsics (hquestions q hq) {} hempty).1
  have hall : Answers units m (questions.mapM (ask m)) (questions.map m.answer) :=
    .mapM fun q hq => answers_ask hnumbered intrinsics (hquestions q hq)
  obtain ⟨hanswers, hmemo⟩ := hall {} hempty
  refine ⟨?_, halone, hmemo.active, hmemo.constants, ?_⟩
  · rw [askAll, hanswers]
    exact (map_congr_left halone).symm
  · exact fun e he => hmemo.effects e (he.rootedIn hnumbered)

end Session

/-! ## An example -/

namespace CyclicConstants

def text : Source := ⟨"lib/a.dart", "const a = b; const b = a; @a f() {}"⟩

def entryCounts (u : CompilationUnit) : List (Option Nat) :=
  u.declarations.map fun
    | .function d => some d.metadata.length
    | _ => none

def questionsAt (p : Program) : Declaration → List Question
  | .function d => .effects (p.declared? d.id) :: d.metadata.map .constant
  | _ => []

def questions (p : Program) (u : CompilationUnit) : List Question :=
  let asked := u.declarations.flatMap (questionsAt p)
  asked ++ .findings LintCode.all u :: asked.reverse

theorem isAbout_questions {u : CompilationUnit} (hu : u ∈ units) :
    ∀ q ∈ questions (Program.ofUnits units) u, q.IsAbout units (Program.ofUnits units) := by
  have hasked : ∀ d ∈ u.declarations, ∀ q ∈ questionsAt (Program.ofUnits units) d,
      q.IsAbout units (Program.ofUnits units) := by
    intro d hd q hq
    cases d with
    | function d =>
      rcases mem_cons.mp hq with rfl | hentry
      · exact fun e he => .declared he
      · obtain ⟨entry, hmem, rfl⟩ := mem_map.mp hentry
        exact ⟨u, hu, _, Place.mem_walk_child (Place.ofDeclaration_mem_walk hd)
          (Node.mem_children_of_mem_metadata hmem), rfl⟩
    | «class» _ | «variable» _ => simp [questionsAt] at hq
  intro q hq
  simp only [questions, mem_append, mem_cons, mem_reverse, mem_flatMap] at hq
  rcases hq with ⟨d, hd, hq⟩ | rfl | ⟨d, hd, hq⟩
  · exact hasked d hd q hq
  · trivial
  · exact hasked d hd q hq

theorem entryCounts_text :
    ((Source.parseAll 1 [text]).toOption.map fun parsed =>
      (parsed.filterMap Loaded.unitOf?).map entryCounts) = some [[none, none, some 1]] := by
  decide +kernel

theorem cyclic_constants_asked_twice :
    ∃ parsed u, Source.parseAll 1 [text] = .ok parsed ∧
      parsed.filterMap Loaded.unitOf? = [u] ∧ entryCounts u = [none, none, some 1] ∧
      let m : EffectModel := ⟨Program.ofUnits [u], .empty⟩
      (∀ q ∈ questions m.program u, q.IsAbout [u] m.program) ∧
        Session.askAll m (questions m.program u) =
          ((questions m.program u).map fun q => ((Session.ask m q).run {}).1) ∧
        (((questions m.program u).mapM (Session.ask m)).run {}).2.active = [] := by
  have hcounts := entryCounts_text
  cases hparsed : Source.parseAll 1 [text] with
  | error fault =>
    rw [hparsed] at hcounts
    cases hcounts
  | ok parsed =>
    rw [hparsed] at hcounts
    obtain ⟨u, rest, hunits, hu, hrest⟩ :=
      map_eq_cons_iff.mp (Option.some.inj hcounts)
    obtain rfl : rest = [] := map_eq_nil_iff.mp hrest
    have hsubset : [u] ⊆ parsed.filterMap Loaded.unitOf? := by
      rw [hunits]
      exact List.Subset.refl _
    have habout := isAbout_questions (mem_singleton.mpr (rfl : u = u))
    obtain ⟨hanswers, -, hactive, -, -⟩ := Session.askAll_eq_map_ask hparsed hsubset .empty
      (questions (Program.ofUnits [u]) u) habout
    exact ⟨parsed, u, rfl, hunits, hu, habout, hanswers, hactive⟩

end CyclicConstants

end CheckedThrows
