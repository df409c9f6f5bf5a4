import CheckedThrows.Proofs.AssignmentLoss

/-!
# What handles a subtype

The clauses of every `try` around a site, in the order in which the search for a
handler meets them, are a list that does not depend on the type.  A clause for a
type is also for its subtypes, so the search for a subtype ends at the same
clause or at an earlier one.  The same holds of declarations.
-/

namespace CheckedThrows

namespace Place

/-- The clauses of the tries that protect a place in its function, from the
nearest `try` outwards. -/
def protectors : Place → List CatchClause
  | .root _ => []
  | .child parent slot _ =>
    if parent.node.isFunction then []
    else (if slot = .guarded then parent.node.catches else []) ++ parent.protectors

theorem handler?_eq_find? (isFor : CatchClause → Bool) (p : Place) :
    p.handler? isFor = p.protectors.find? isFor := by
  induction p with
  | root n => rfl
  | child parent slot n ih =>
    rw [handler?, protectors]
    by_cases hfunction : parent.node.isFunction = true
    · rw [if_pos hfunction, if_pos hfunction, List.find?_nil]
    · rw [if_neg hfunction, if_neg hfunction, List.find?_append, ← ih]
      by_cases hslot : slot = .guarded
      · rw [if_pos hslot, if_pos hslot]
        cases parent.node.catches.find? isFor <;> rfl
      · rw [if_neg hslot, if_neg hslot]
        rfl

end Place

namespace Program

variable {p : Program} {place : Place} {sub sup : TypeId}

/-- The clause that handles a subtype is the one that handles the supertype, or
the search meets it before. -/
theorem handlerOf?_of_isSubtype (hwf : p.types.WellFormed) (htop : p.types.ObjectOnTop)
    (hsub : p.types.isSubtype sub sup = true) {c : CatchClause}
    (hhandler : p.handlerOf? place sup = some c) :
    ∃ earlier later, place.protectors = earlier ++ c :: later ∧
      (∀ d ∈ earlier, p.clauseFor sup d = false) ∧
      ∃ c' ∈ earlier ++ [c], p.handlerOf? place sub = some c' := by
  rw [handlerOf?, Place.handler?_eq_find?, List.find?_eq_some_iff_append] at hhandler
  obtain ⟨hfor, earlier, later, hprotectors, hearlier⟩ := hhandler
  have hother : ∀ d ∈ earlier, p.clauseFor sup d = false := by
    intro d hd
    simpa using hearlier d hd
  have hfor' := clauseFor_of_isSubtype hwf htop hsub hfor
  have hfind : p.handlerOf? place sub = (earlier ++ [c]).find? (p.clauseFor sub) := by
    rw [handlerOf?, Place.handler?_eq_find?, hprotectors, List.find?_append, List.find?_append,
      List.find?_cons_of_pos hfor', List.find?_cons_of_pos hfor']
  have hsome : ((earlier ++ [c]).find? (p.clauseFor sub)).isSome = true :=
    List.find?_isSome.mpr ⟨c, by simp, hfor'⟩
  obtain ⟨c', hc'⟩ := Option.isSome_iff_exists.mp hsome
  exact ⟨earlier, later, hprotectors, hother, c', List.mem_of_find?_eq_some hc', hfind.trans hc'⟩

end Program

namespace EffectModel

/-- Handling and declaring are closed under subtypes: if a supertype is handled
or declared at a site, so is the subtype, and by the same clause or by one that
is met before.  So no subtype escapes where the supertype does not. -/
theorem supertype_stopped_stops_subtype (units : List CompilationUnit)
    (intrinsics : IntrinsicTable) (hobject : (Program.ofUnits units).types.ObjectOnTop)
    (site : Place) {sub sup : TypeId}
    (hsub : (Program.ofUnits units).types.isSubtype sub sup = true) :
    (∀ type, (Program.ofUnits units).handlerOf? site type =
      site.protectors.find? ((Program.ofUnits units).clauseFor type)) ∧
    (∀ c, (Program.ofUnits units).handlerOf? site sup = some c →
      ∃ earlier later, site.protectors = earlier ++ c :: later ∧
        (∀ d ∈ earlier, (Program.ofUnits units).clauseFor sup d = false) ∧
        ∃ c' ∈ earlier ++ [c], (Program.ofUnits units).handlerOf? site sub = some c') ∧
    ((Program.ofUnits units).isHandled site sup = true →
      (Program.ofUnits units).isHandled site sub = true) ∧
    (isDeclared ⟨Program.ofUnits units, intrinsics⟩ site sup = true →
      isDeclared ⟨Program.ofUnits units, intrinsics⟩ site sub = true) ∧
    (escapes ⟨Program.ofUnits units, intrinsics⟩ site sup = false →
      escapes ⟨Program.ofUnits units, intrinsics⟩ site sub = false) := by
  have hwf := (Program.typed_ofUnits units).wellFormed
  refine ⟨fun type => Place.handler?_eq_find? _ site, ?_, ?_, ?_, ?_⟩
  · intro c hhandler
    exact Program.handlerOf?_of_isSubtype hwf hobject hsub hhandler
  · intro hhandled
    exact Program.isHandled_of_isSubtype hwf hobject hsub hhandled
  · intro hdeclared
    exact isDeclared_of_isSubtype (m := ⟨Program.ofUnits units, intrinsics⟩) hwf hobject hsub
      hdeclared
  · intro hstopped
    by_contra hescapes
    rw [Bool.not_eq_false] at hescapes
    have hsup := escapes_of_isSubtype (m := ⟨Program.ofUnits units, intrinsics⟩) hwf hobject hsub
      hescapes
    rw [hstopped] at hsup
    exact absurd hsup (by decide)

end EffectModel

/-! A call inside of two tries: the outer one has a clause for `A`, the inner one
a clause for its subclass `B`. -/

namespace NestedTries

def clause (id : NodeId) (name : String) : CatchClause :=
  ⟨.bare id, some (.named (.bare (id + 1) name)), none, none, ⟨.bare (id + 2), []⟩⟩

def call : Stmt := .expr (.bare 14) (.call (.bare 15) (.name (.bare 16) "f") [] none)

def innerTry : Stmt := .guarded (.bare 12) ⟨.bare 13, [call]⟩ [clause 17 "B"] none

def outerTry : Stmt := .guarded (.bare 10) ⟨.bare 11, [innerTry]⟩ [clause 20 "A"] none

def function : FunctionDecl :=
  ⟨.bare 8, "f", .function, none, [], none, some (.block ⟨.bare 9, [outerTry]⟩), {}, []⟩

def core : CompilationUnit where
  id := 1
  extent := none
  uri := "dart:core"
  directives := []
  declarations := [.class ⟨.bare 2, "Object", [], none, [], false, []⟩]
  comments := []

def unit : CompilationUnit where
  id := 3
  extent := none
  uri := "a.dart"
  directives := []
  declarations := [
    .class ⟨.bare 4, "A", [], none, [], false, []⟩,
    .class ⟨.bare 5, "B", [], some (.bare 6 "A"), [], false, []⟩, .function function]
  comments := []

def site : Place :=
  .child (.child (.child (.child (.child (.child (.child (.child (.root (.unit unit)) .other
    (.functionDecl function)) .other (.block ⟨.bare 9, [outerTry]⟩)) .other
    (.stmt outerTry)) .guarded (.block ⟨.bare 11, [innerTry]⟩)) .other
    (.stmt innerTry)) .guarded (.block ⟨.bare 13, [call]⟩)) .other
    (.stmt call)) .other (.expr (.call (.bare 15) (.name (.bare 16) "f") [] none))

theorem object_on_top : (Program.ofUnits [core, unit]).types.ObjectOnTop := by
  have htypes : (Program.ofUnits [core, unit]).types.object = some 5 ∧
      (Program.ofUnits [core, unit]).types.supertypes 5 = [] := by
    decide +kernel
  intro ty hty
  obtain rfl := Option.some.inj (htypes.1.symm.trans hty)
  exact htypes.2

theorem handlerOf?_supertype :
    (Program.ofUnits [core, unit]).handlerOf? site 6 = some (clause 20 "A") := by
  cbv

/-- The clause for `A` is the handler of `A`, and `B` has an earlier one. -/
theorem earlier_clause_handles_subtype :
    (Program.ofUnits [core, unit]).types.isSubtype 7 6 = true ∧
      (∃ earlier later, site.protectors = earlier ++ clause 20 "A" :: later ∧
        (∀ d ∈ earlier, (Program.ofUnits [core, unit]).clauseFor 6 d = false) ∧
        ∃ c' ∈ earlier ++ [clause 20 "A"],
          (Program.ofUnits [core, unit]).handlerOf? site 7 = some c') ∧
      (Program.ofUnits [core, unit]).handlerOf? site 7 = some (clause 17 "B") ∧
      EffectModel.escapes ⟨Program.ofUnits [core, unit], .empty⟩ site 7 = false := by
  have hsub : (Program.ofUnits [core, unit]).types.isSubtype 7 6 = true := by cbv
  obtain ⟨_, hhandler, _, _, hescapes⟩ := EffectModel.supertype_stopped_stops_subtype [core, unit]
    .empty object_on_top site hsub
  have hstopped : EffectModel.escapes ⟨Program.ofUnits [core, unit], .empty⟩ site 6 = false := by
    rw [EffectModel.escapes, Program.isHandled, handlerOf?_supertype]
    rfl
  exact ⟨hsub, hhandler _ handlerOf?_supertype, by cbv, hescapes hstopped⟩

end NestedTries

end CheckedThrows
