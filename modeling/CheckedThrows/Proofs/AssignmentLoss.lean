import CheckedThrows.Proofs.CallChain
import CheckedThrows.Proofs.TypeOrder

/-!
# Assignments that lose nothing

A value that carries effects is stored in a variable or a parameter.  If the
assignment loses none of them, then whoever calls through the variable sees, for
each effect of the value, a supertype of it.  So what would have escaped from a
call of the value still escapes from a call through the variable.
-/

namespace CheckedThrows

open List

variable {place : Place}

theorem mem_addTypes {old new : List TypeId} {type : TypeId} :
    type ∈ addTypes old new ↔ type ∈ old ∨ type ∈ new := by
  unfold addTypes
  induction new generalizing old with
  | nil => simp
  | cons t new ih =>
    rw [foldl_cons, ih]
    by_cases hmem : t ∈ old
    · rw [if_pos hmem, mem_cons]
      by_cases heq : type = t
      · simp [heq, hmem]
      · simp [heq]
    · rw [if_neg hmem, mem_append, mem_singleton, mem_cons, or_assoc]

/-! ## What stops a supertype -/

namespace EffectModel

section
variable {m : EffectModel} {sub sup : TypeId}

theorem covers_of_isSubtype (hwf : m.types.WellFormed) (htop : m.types.ObjectOnTop)
    (hsub : m.types.isSubtype sub sup = true) {declared : List TypeId}
    (hcovers : m.covers declared sup = true) : m.covers declared sub = true := by
  simp only [covers, any_eq_true] at hcovers ⊢
  obtain ⟨d, hd, hsup⟩ := hcovers
  exact ⟨d, hd, TypeTable.isSubtype_trans hwf htop hsub hsup⟩

theorem isDeclared_of_isSubtype (hwf : m.types.WellFormed) (htop : m.types.ObjectOnTop)
    (hsub : m.types.isSubtype sub sup = true)
    (hdeclared : m.isDeclared place sup = true) : m.isDeclared place sub = true := by
  rw [isDeclared, Bool.or_eq_true] at hdeclared ⊢
  rcases hdeclared with hparameter | hfunction
  · left
    unfold isDeclaredByParameter at hparameter ⊢
    split at hparameter
    · exact covers_of_isSubtype hwf htop hsub hparameter
    · simp at hparameter
  · right
    unfold isDeclaredByFunction at hfunction ⊢
    split at hfunction
    · exact covers_of_isSubtype hwf htop hsub hfunction
    · simp at hfunction

theorem escapes_of_isSubtype (hwf : m.types.WellFormed) (htop : m.types.ObjectOnTop)
    (hsub : m.types.isSubtype sub sup = true)
    (hescapes : m.escapes place sub = true) : m.escapes place sup = true := by
  rw [escapes, Bool.and_eq_true, Bool.not_eq_true', Bool.not_eq_true'] at hescapes ⊢
  obtain ⟨hunhandled, hundeclared⟩ := hescapes
  constructor
  · by_contra hhandled
    rw [Bool.not_eq_false] at hhandled
    have := Program.isHandled_of_isSubtype hwf htop hsub hhandled
    simp [hunhandled] at this
  · by_contra hdeclared
    rw [Bool.not_eq_false] at hdeclared
    have := isDeclared_of_isSubtype hwf htop hsub hdeclared
    simp [hundeclared] at this

theorem escapes_child_congr (around : Place) (slot : Slot) (n n' : Node) (type : TypeId) :
    m.escapes (.child around slot n) type = m.escapes (.child around slot n') type := rfl

end

end EffectModel

/-! ## Calls through an element -/

theorem Element.carriesEffects_of_isBinding {e : Element} (hbinding : e.isBinding = true) :
    e.carriesEffects = true := by
  cases e with
  | «class» _ | executable _ => simp [isBinding] at hbinding
  | «variable» _ | parameter _ => rfl

/-- What a call calls: the executable that it invokes, and the variable or
parameter that its callee names. -/
def Program.called (p : Program) : Expr → List Element
  | .call info callee _ _ =>
    (executables [p.meaning? info.id]).map .executable ++
      ((p.meaning? callee.id).filter Element.isBinding).toList
  | _ => []

namespace EffectModel

def candidatesThrough (m : EffectModel) : Element → List Candidate
  | .executable e => (m.effects (.executable e)).map fun type => ⟨type, .call e⟩
  | .parameter p => (m.effects (.parameter p)).map fun type => ⟨type, .parameterCall p⟩
  | .variable v => (m.effects (.variable v)).map fun type => ⟨type, .variableCall v⟩
  | .class _ => []

section
variable {m : EffectModel} {e : Element} {c : Candidate}

theorem source?_of_mem_candidatesThrough (hc : c ∈ m.candidatesThrough e) :
    c.origin.source? = some e := by
  cases e with
  | «class» _ => simp [candidatesThrough] at hc
  | executable _ | «variable» _ | parameter _ =>
    obtain ⟨type, _, rfl⟩ := mem_map.mp hc
    rfl

theorem map_type_candidatesThrough (m : EffectModel) (hcarries : e.carriesEffects = true) :
    (m.candidatesThrough e).map Candidate.type = m.effects e := by
  cases e with
  | «class» _ => simp [Element.carriesEffects] at hcarries
  | executable _ | «variable» _ | parameter _ => simp [candidatesThrough, Function.comp_def]

theorem calls_call (m : EffectModel) {info : NodeInfo} {callee : Expr}
    {args : List Expr} {creation : Option CreationWord}
    (hnode : place.node = .expr (.call info callee args creation)) :
    m.calls place = ((executables [m.program.meaning? info.id]).map .executable).flatMap
      m.candidatesThrough := by
  have hinvoked : m.program.invoked place = executables [m.program.meaning? info.id] := by
    simp only [Program.invoked, hnode, Program.invocations]
    cases hmeaning : m.program.meaning? info.id with
    | none => rfl
    | some e => cases e <;> rfl
  rw [calls, hinvoked, flatMap_map]
  rfl

theorem valueCalls_eq (m : EffectModel) (callee : Expr) :
    m.valueCalls callee =
      ((m.program.meaning? callee.id).filter Element.isBinding).toList.flatMap
        m.candidatesThrough := by
  unfold valueCalls
  cases hmeaning : m.program.meaning? callee.id with
  | none => rfl
  | some e => cases e <;> simp [Option.filter, Element.isBinding, candidatesThrough]

theorem candidates_eq_flatMap_called {call : Expr} (hnode : place.node = .expr call)
    (he : e ∈ m.program.called call) :
    m.candidates place = (m.program.called call).flatMap m.candidatesThrough := by
  unfold Program.called at he ⊢
  split at he
  next info callee args creation =>
    rw [flatMap_append, ← calls_call m hnode, ← valueCalls_eq m callee, candidates, hnode]
  next => simp at he

theorem mem_candidatesThrough_iff {call : Expr} (hnode : place.node = .expr call)
    (he : e ∈ m.program.called call) :
    c ∈ m.candidatesThrough e ↔ c ∈ m.candidates place ∧ c.origin.source? = some e := by
  rw [candidates_eq_flatMap_called hnode he]
  constructor
  · intro hc
    exact ⟨mem_flatMap.mpr ⟨e, he, hc⟩, source?_of_mem_candidatesThrough hc⟩
  · rintro ⟨hc, hsource⟩
    obtain ⟨e', _, hc'⟩ := mem_flatMap.mp hc
    have heq := (source?_of_mem_candidatesThrough hc').symm.trans hsource
    rw [Option.some.injEq] at heq
    exact heq ▸ hc'

end

/-! ## Assignments -/

section
variable {m : EffectModel} {n : Node} {value : Expr} {source target : Element}

theorem mem_carried_iff (hnamed : value.isNamed = true)
    (hsource : m.program.meaning? value.id = some source)
    (hcarries : source.carriesEffects = true) {type : TypeId} :
    type ∈ m.carried value ↔ type ∈ m.effects source := by
  simp [carried, hnamed, hsource, Option.filter, hcarries, mem_addTypes]

theorem lost_eq_nil_iff (hvalue : storedValue? n = some value) (hnamed : value.isNamed = true)
    (hsource : m.program.meaning? value.id = some source)
    (hcarries : source.carriesEffects = true) (htarget : m.storedIn? n = some target) :
    m.lost n = [] ↔ ∀ type ∈ m.effects source,
      ∃ sup ∈ m.effects target, m.types.isSubtype type sup = true := by
  have hdeclared : m.effects? (some target) = m.effects target := rfl
  rw [lost, hvalue]
  simp only [filter_eq_nil_iff, htarget, hdeclared, mem_carried_iff hnamed hsource hcarries,
    Bool.not_eq_true', Bool.not_eq_false, covers, any_eq_true]

end

/-- An assignment that loses nothing hides nothing: for each effect that calls
of the stored value have, calls through what it is stored in have a supertype
of it, and this escapes wherever the effect does.  The candidates through an
element are those that real calls of it have. -/
theorem lossless_assignment_hides_nothing
    (units : List CompilationUnit) (intrinsics : IntrinsicTable)
    (hobject : ∀ c, (Workspace.ofUnits units).coreClass? "Object" = some c →
      c.decl.superclass = none ∧ c.decl.interfaces = [])
    {n : Node} {value : Expr} {source target : Element}
    (hvalue : storedValue? n = some value) (hnamed : value.isNamed = true)
    (hsource : (Program.ofUnits units).meaning? value.id = some source)
    (hcarries : source.carriesEffects = true)
    (htarget : storedIn? ⟨Program.ofUnits units, intrinsics⟩ n = some target)
    (hbinding : target.isBinding = true)
    (hlost : lost ⟨Program.ofUnits units, intrinsics⟩ n = []) :
    (∀ c ∈ candidatesThrough ⟨Program.ofUnits units, intrinsics⟩ source,
      ∃ c' ∈ candidatesThrough ⟨Program.ofUnits units, intrinsics⟩ target,
        (Program.ofUnits units).types.isSubtype c.type c'.type = true ∧
        ∀ (around : Place) (slot : Slot) (call call' : Node),
          escapes ⟨Program.ofUnits units, intrinsics⟩ (.child around slot call) c.type = true →
          escapes ⟨Program.ofUnits units, intrinsics⟩ (.child around slot call') c'.type = true) ∧
    ∀ e ∈ [source, target], ∀ (place : Place) (call : Expr), place.node = .expr call →
      e ∈ (Program.ofUnits units).called call →
      ∀ c, c ∈ candidatesThrough ⟨Program.ofUnits units, intrinsics⟩ e ↔
        c ∈ candidates ⟨Program.ofUnits units, intrinsics⟩ place ∧ c.origin.source? = some e := by
  have hwf := (Program.typed_ofUnits units).wellFormed
  have htop := Program.objectOnTop_ofUnits hobject
  constructor
  · intro c hc
    have htype : c.type ∈ effects ⟨Program.ofUnits units, intrinsics⟩ source := by
      rw [← map_type_candidatesThrough _ hcarries]
      exact mem_map_of_mem hc
    obtain ⟨sup, hsup, hsub⟩ :=
      (lost_eq_nil_iff (m := ⟨Program.ofUnits units, intrinsics⟩) hvalue hnamed hsource hcarries
        htarget).mp hlost c.type htype
    rw [← map_type_candidatesThrough _ (Element.carriesEffects_of_isBinding hbinding)] at hsup
    obtain ⟨c', hc', rfl⟩ := mem_map.mp hsup
    refine ⟨c', hc', hsub, ?_⟩
    intro around slot call call' hescapes
    rw [escapes_child_congr around slot call' call]
    exact escapes_of_isSubtype (m := ⟨Program.ofUnits units, intrinsics⟩) hwf htop hsub hescapes
  · intro e _ place call hnode he c
    exact mem_candidatesThrough_iff hnode he

end EffectModel

/-! The function `f` throws an `E`.  It is stored in `g`, which is declared to
throw the superclass `B` of `E`. -/

namespace StoredExample

def core : CompilationUnit where
  id := 1
  extent := none
  uri := "dart:core"
  directives := []
  declarations := [.class ⟨.bare 2, "Object", [], none, [], false, []⟩]
  comments := []

def throwsConstructor : FunctionDecl :=
  ⟨.bare 5, "", .constructor, none, [⟨.bare 6, "types", none, true, []⟩], none, none,
    { isConst := true }, []⟩

def thrower : FunctionDecl :=
  ⟨.bare 12, "f", .function, none, [], none, none, { isExternal := true }, []⟩

def value : Expr := .name (.bare 14) "f"

def stored : VarDecl :=
  ⟨.bare 13, "g", .topLevel, none, some value, {},
    [⟨.bare 15, "Throws", some [.list (.bare 16) [.name (.bare 17) "B"]]⟩]⟩

def call : Expr := .call (.bare 19) (.name (.bare 20) "g") [] none

def caller : FunctionDecl :=
  ⟨.bare 18, "h", .function, none, [], none, some (.value call), {}, []⟩

def unit : CompilationUnit where
  id := 3
  extent := none
  uri := EffectModel.throwsLibrary
  directives := []
  declarations := [
    .class ⟨.bare 4, "Throws", [.function throwsConstructor], none, [], false, []⟩,
    .class ⟨.bare 9, "B", [], none, [], false, []⟩,
    .class ⟨.bare 10, "E", [], some ⟨.bare 11, "B", false⟩, [], false, []⟩,
    .function thrower, .variable stored, .function caller]
  comments := []

def intrinsics : IntrinsicTable where
  libraries := .ofList [(EffectModel.throwsLibrary, .ofList [("f", ["E"])])]

def model : EffectModel := ⟨Program.ofUnits [core, unit], intrinsics⟩

def around : Place := .child (.root (.unit unit)) .other (.functionDecl caller)

def entryNumbers? (e : Element) : Option (NodeId × NodeId) :=
  match e.metadata with
  | [⟨entry, _, some [.list _ [.name item _]]⟩] => some (entry.id, item.id)
  | _ => none

def made? (e : Element) : Option (TypeId × List (String × Bool)) :=
  e.toExecutable?.bind fun ctor => (Program.constClass? ctor).map fun c =>
    (c.type, (model.program.facts.paramsOf ctor).map fun x => (x.name, x.isFieldFormal))

theorem found :
    ((Workspace.ofUnits [core, unit]).coreClass? "Object").all (fun c =>
        c.decl.superclass.isNone && c.decl.interfaces.isEmpty) = true ∧
      (model.program.meaning? 15).bind made? = some (6, [("types", true)]) ∧
      (model.program.meaning? 17).bind (fun e => e.toClass?.map ClassElement.type) = some 7 ∧
      model.isThrows 6 = true ∧
      (model.storedIn? (.varDecl stored)).map (fun e => (e.isBinding, entryNumbers? e)) =
        some (true, some (15, 17)) ∧
      (model.program.meaning? value.id).map (fun e => (e.carriesEffects, model.effects e)) =
        some (true, [8]) ∧
      model.escapes (.child around .other (.expr call)) 8 = true ∧
      model.types.isSubtype 8 7 = true := by
  decide +kernel

theorem object_has_no_header :
    ∀ c, (Workspace.ofUnits [core, unit]).coreClass? "Object" = some c →
      c.decl.superclass = none ∧ c.decl.interfaces = [] := by
  obtain ⟨hobject, -⟩ := found
  intro c hc
  simpa [hc] using hobject

theorem exists_constructor : ∃ ctor c x,
    model.program.meaning? 15 = some (.executable ctor) ∧ Program.constClass? ctor = some c ∧
      c.type = 6 ∧ model.program.facts.paramsOf ctor = [x] ∧ x.name = "types" ∧
      x.isFieldFormal = true := by
  obtain ⟨-, hmade, -⟩ := found
  obtain ⟨e, he, hmade⟩ := Option.bind_eq_some_iff.mp hmade
  cases e with
  | executable ctor =>
    obtain ⟨c, hc, hmade⟩ := Option.map_eq_some_iff.mp hmade
    rw [Prod.mk.injEq, map_eq_singleton_iff] at hmade
    obtain ⟨htype, x, hparams, hx⟩ := hmade
    rw [Prod.mk.injEq] at hx
    exact ⟨ctor, c, x, he, hc, htype, hparams, hx⟩
  | «class» _ | «variable» _ | parameter _ => simp [made?, Element.toExecutable?] at hmade

theorem exists_item : ∃ c, model.program.meaning? 17 = some (.class c) ∧ c.type = 7 := by
  obtain ⟨-, -, hclass, -⟩ := found
  obtain ⟨e, he, hclass⟩ := Option.bind_eq_some_iff.mp hclass
  cases e with
  | «class» c => exact ⟨c, he, by simpa [Element.toClass?] using hclass⟩
  | executable _ | «variable» _ | parameter _ => simp [Element.toClass?] at hclass

theorem effects_of_entryNumbers? {e : Element} (he : entryNumbers? e = some (15, 17)) :
    model.effects e = [7] := by
  obtain ⟨ctor, c, x, hctor, hc, htype, hparams, hname, hformal⟩ := exists_constructor
  obtain ⟨d, hitem, hdenoted⟩ := exists_item
  have hclass : model.program.meantVariable? 17 = none :=
    Program.meantVariable?_eq_none (by simp [hitem])
  obtain ⟨-, -, -, hthrows, -⟩ := found
  unfold entryNumbers? at he
  split at he
  next hmetadata =>
    rw [Option.some.injEq, Prod.mk.injEq] at he
    simp [EffectModel.effects, EffectModel.declaredEffects, hmetadata, Program.entryConstant?,
      Program.entryWith, Program.objectWith, Metadatum.id, he, hctor, hc, hparams,
      Program.fieldsWith, hname, hformal, Program.constantWith, Program.itemsWith, hclass, hitem,
      Element.toClass?, EffectModel.thrownBy, Constant.type?, htype, hthrows, Constant.field?, Constant.items?,
      Constant.denoted?, NameTable.insert, hdenoted, addTypes]
  next => simp at he

theorem lost_stored {source target : Element}
    (hsource : model.program.meaning? value.id = some source)
    (hcarries : source.carriesEffects = true) (hthrown : model.effects source = [8])
    (htarget : model.storedIn? (.varDecl stored) = some target)
    (hdeclared : model.effects target = [7]) : model.lost (.varDecl stored) = [] := by
  have hinit : EffectModel.storedValue? (.varDecl stored) = some value := rfl
  rw [EffectModel.lost_eq_nil_iff hinit rfl hsource hcarries htarget, hthrown, hdeclared]
  obtain ⟨-, -, -, -, -, -, -, hsub⟩ := found
  intro type htype
  rw [mem_singleton.mp htype]
  exact ⟨7, mem_singleton_self 7, hsub⟩

end StoredExample

open StoredExample in
theorem EffectModel.stored_function_escapes_through_variable : ∃ source target,
    model.program.meaning? value.id = some source ∧
      model.storedIn? (.varDecl stored) = some target ∧ model.lost (.varDecl stored) = [] ∧
      (model.candidatesThrough source).map Candidate.type = [8] ∧
      ∃ c ∈ model.candidatesThrough target, model.types.isSubtype 8 c.type = true ∧
        model.escapes (.child around .other (.expr call)) c.type = true := by
  obtain ⟨-, -, -, -, hstored, hmeaning, hescape, -⟩ := found
  obtain ⟨source, hsource, hthrown⟩ := Option.map_eq_some_iff.mp hmeaning
  obtain ⟨target, htarget, hdeclared⟩ := Option.map_eq_some_iff.mp hstored
  rw [Prod.mk.injEq] at hthrown hdeclared
  have hlost := lost_stored hsource hthrown.1 hthrown.2 htarget
    (effects_of_entryNumbers? hdeclared.2)
  have hthrough := map_type_candidatesThrough model hthrown.1
  rw [hthrown.2] at hthrough
  have hmem : 8 ∈ (model.candidatesThrough source).map Candidate.type := by
    rw [hthrough]
    exact mem_singleton_self 8
  obtain ⟨c, hc, htype⟩ := mem_map.mp hmem
  obtain ⟨c', hc', hsub, hescapes⟩ := (lossless_assignment_hides_nothing [core, unit]
    StoredExample.intrinsics object_has_no_header (n := .varDecl stored) rfl rfl hsource
    hthrown.1 htarget hdeclared.1 hlost).1 c hc
  rw [htype] at hsub hescapes
  exact ⟨source, target, hsource, htarget, hlost, hthrough, c', hc', hsub,
    hescapes around .other (.expr call) (.expr call) hescape⟩

end CheckedThrows
