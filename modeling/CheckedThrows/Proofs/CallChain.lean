import CheckedThrows.Proofs.Escape
import CheckedThrows.Proofs.SoundBodies
import Mathlib

/-!
# Effects along chains of calls

An effect reaches a function through a chain of calls, and changes on the way:
each function declares a supertype of what it lets through.  In units without
unhandled effects nothing is lost.  The effect is stopped by a clause that is
for it, or the last function declares a supertype of it.
-/

namespace CheckedThrows

open List

namespace Place

/-- A place in the protected body of a `try` that has the clause, with no
function in between. -/
inductive ProtectedBy (c : CatchClause) : Place → Prop
  | body {parent : Place} (n : Node) (hclause : c ∈ parent.node.catches) :
      ProtectedBy c (.child parent .guarded n)
  | inside {parent : Place} (slot : Slot) (n : Node) (habove : ProtectedBy c parent)
      (hopen : parent.node.isFunction = false) : ProtectedBy c (.child parent slot n)

theorem not_isFunction_of_mem_catches {n : Node} {c : CatchClause} (hmem : c ∈ n.catches) :
    n.isFunction = false := by
  unfold Node.catches at hmem
  split at hmem
  · rfl
  · simp at hmem

theorem handler?_isSome_iff {isFor : CatchClause → Bool} {p : Place} :
    (p.handler? isFor).isSome = true ↔ ∃ c, ProtectedBy c p ∧ isFor c = true := by
  induction p with
  | root n =>
    simp only [handler?, Option.isSome_none, Bool.false_eq_true, false_iff, not_exists, not_and]
    intro c hprotected
    cases hprotected
  | child parent slot n ih =>
    rw [handler?]
    constructor
    · intro hsome
      split at hsome
      next => simp at hsome
      next hopen =>
        split at hsome
        next c hfind =>
          split at hfind
          next hslot =>
            subst hslot
            exact ⟨c, .body n (mem_of_find?_eq_some hfind), find?_some hfind⟩
          next => simp at hfind
        next =>
          obtain ⟨c, hprotected, hfor⟩ := ih.mp hsome
          exact ⟨c, .inside slot n hprotected (by simpa using hopen), hfor⟩
    · rintro ⟨c, hprotected, hfor⟩
      cases hprotected with
      | body n hclause =>
        rw [not_isFunction_of_mem_catches hclause]
        have hfind : (parent.node.catches.find? isFor).isSome = true :=
          find?_isSome.mpr ⟨c, hclause, hfor⟩
        obtain ⟨c', hfind⟩ := Option.isSome_iff_exists.mp hfind
        simp [hfind]
      | inside slot n habove hopen =>
        have habove := ih.mpr ⟨c, habove, hfor⟩
        rw [hopen]
        simp only [Bool.false_eq_true, if_false]
        split
        · rfl
        · exact habove

end Place

theorem Program.isHandled_iff {p : Program} {place : Place} {type : TypeId} :
    p.isHandled place type = true ↔ ∃ c, place.ProtectedBy c ∧ p.clauseFor type c = true :=
  Place.handler?_isSome_iff

/-! ## One function -/

namespace EffectModel

/-- A site outside of metadata and directly in the body of a function, in a unit
that has no unhandled effects. -/
structure CleanSite (m : EffectModel) (d : FunctionDecl) (site : Place) : Prop where
  clean : ∃ u : CompilationUnit, site ∈ Place.walkCode (.unit u) ∧
    ∀ f ∈ m.findings LintCode.all u, f.code = .lostInAssignment
  function : site.enclosingFunction? = some d
  literal : site.enclosingLambda? = none

section
variable {m : EffectModel} {site : Place} {d : FunctionDecl} {type : TypeId}

theorem CleanSite.not_escapes (hsite : m.CleanSite d site)
    (htype : type ∈ (m.candidates site).map Candidate.type) : m.escapes site type = false := by
  obtain ⟨u, hmem, hclean⟩ := hsite.clean
  by_contra hescapes
  obtain ⟨f, hf, _, hcode⟩ := (exists_mem_findingsAt_iff m u.uri site type).mpr
    ⟨htype, by simpa using hescapes⟩
  exact hcode (hclean f (mem_flatMap.mpr ⟨site, hmem, hf⟩))

theorem CleanSite.handled_or_declared (hsite : m.CleanSite d site)
    (htype : type ∈ (m.candidates site).map Candidate.type) :
    m.program.isHandled site type = true ∨
      ∃ e ∈ m.effects? (m.program.declared? d.id), m.types.isSubtype type e = true := by
  have hescapes := hsite.not_escapes htype
  rw [escapes, Bool.and_eq_false_iff, Bool.not_eq_false', Bool.not_eq_false'] at hescapes
  rcases hescapes with hhandled | hdeclared
  · exact .inl hhandled
  · rw [isDeclared, isDeclaredByParameter, isDeclaredByFunction, hsite.literal,
      hsite.function] at hdeclared
    right
    simpa [covers] using hdeclared

theorem mem_candidates_of_mem_invoked {e : ExecutableElement}
    (hinvoked : e ∈ m.program.invoked site) (htype : type ∈ m.effects (.executable e)) :
    type ∈ (m.candidates site).map Candidate.type := by
  have hcalls : type ∈ (m.calls site).map Candidate.type := by
    refine mem_map.mpr ⟨⟨type, .call e⟩, ?_, rfl⟩
    exact mem_flatMap.mpr ⟨e, hinvoked, mem_map.mpr ⟨type, htype, rfl⟩⟩
  unfold candidates
  split
  next hnode => simp [Program.invoked, hnode, Program.invocations, executables,
    distinctExecutables] at hinvoked
  next hnode => simp [Program.invoked, hnode, Program.invocations, executables,
    distinctExecutables] at hinvoked
  next =>
    rw [map_append]
    exact mem_append_left _ hcalls
  next => exact hcalls

end

/-! ## Chains -/

/-- A chain of calls from `function 0` to `function k`: each function after the
first one calls the one before it, at a site of its own. -/
structure CallChain (m : EffectModel) (k : Nat) (function : Nat → FunctionDecl)
    (site : Nat → Place) : Prop where
  clean : ∀ i ≤ k, m.CleanSite (function i) (site i)
  calls : ∀ i < k, ∃ e, m.program.declared? (function i).id = some (.executable e) ∧
    e ∈ m.program.invoked (site (i + 1))

end EffectModel

theorem Program.clauseFor_of_isSubtype {p : Program} {c : CatchClause} {sub sup : TypeId}
    (hwf : p.types.WellFormed) (htop : p.types.ObjectOnTop)
    (hsub : p.types.isSubtype sub sup = true) (hfor : p.clauseFor sup c = true) :
    p.clauseFor sub c = true := by
  unfold Program.clauseFor at hfor ⊢
  split at hfor
  · exact TypeTable.isSubtype_trans hwf htop hsub hfor
  · rfl

theorem Program.isHandled_of_isSubtype {p : Program} {place : Place} {sub sup : TypeId}
    (hwf : p.types.WellFormed) (htop : p.types.ObjectOnTop)
    (hsub : p.types.isSubtype sub sup = true) (hhandled : p.isHandled place sup = true) :
    p.isHandled place sub = true := by
  rw [Program.isHandled_iff] at hhandled ⊢
  obtain ⟨c, hprotected, hfor⟩ := hhandled
  exact ⟨c, hprotected, clauseFor_of_isSubtype hwf htop hsub hfor⟩

namespace EffectModel

theorem CallChain.protected_or_declared_of_le {m : EffectModel} {k : Nat}
    {function : Nat → FunctionDecl} {site : Nat → Place} (hwf : m.types.WellFormed)
    (htop : m.types.ObjectOnTop) (hchain : m.CallChain k function site) {type : TypeId}
    (htype : type ∈ (m.candidates (site 0)).map Candidate.type) {j : Nat} (hj : j ≤ k) :
    (∃ i ≤ j, m.program.isHandled (site i) type = true) ∨
      ∃ e ∈ m.effects? (m.program.declared? (function j).id), m.types.isSubtype type e = true := by
  induction j with
  | zero =>
    rcases (hchain.clean 0 hj).handled_or_declared htype with hhandled | hdeclared
    · exact .inl ⟨0, Nat.le_refl 0, hhandled⟩
    · exact .inr hdeclared
  | succ j ih =>
    rcases ih (Nat.le_of_succ_le hj) with ⟨i, hi, hhandled⟩ | ⟨sup, hsup, hsub⟩
    · exact .inl ⟨i, Nat.le_succ_of_le hi, hhandled⟩
    · -- the caller sees the declared supertype, and treats it as it would the effect
      obtain ⟨e, hdeclared, hinvoked⟩ := hchain.calls j hj
      rw [hdeclared] at hsup
      have hcandidate := mem_candidates_of_mem_invoked hinvoked hsup
      rcases (hchain.clean (j + 1) hj).handled_or_declared hcandidate with
        hhandled | ⟨sup', hsup', hsub'⟩
      · exact .inl ⟨j + 1, Nat.le_refl _, Program.isHandled_of_isSubtype hwf htop hsub hhandled⟩
      · exact .inr ⟨sup', hsup', TypeTable.isSubtype_trans hwf htop hsub hsub'⟩

end EffectModel

/-- No effect is lost along a chain of calls through functions without unhandled
effects: a clause on the way is for it, or the last function declares a
supertype of it. -/
theorem EffectModel.protected_or_declared_along_calls
    (units : List CompilationUnit) (intrinsics : IntrinsicTable)
    (hobject : ∀ c, (Workspace.ofUnits units).coreClass? "Object" = some c →
      c.decl.superclass = none ∧ c.decl.interfaces = [])
    {k : Nat} {function : Nat → FunctionDecl} {site : Nat → Place}
    (hchain : CallChain ⟨Program.ofUnits units, intrinsics⟩ k function site)
    {type : TypeId}
    (htype : type ∈ (candidates ⟨Program.ofUnits units, intrinsics⟩ (site 0)).map Candidate.type) :
    (∃ i ≤ k, ∃ c, (site i).ProtectedBy c ∧
        (Program.ofUnits units).clauseFor type c = true) ∨
      ∃ e ∈ effects? ⟨Program.ofUnits units, intrinsics⟩
          ((Program.ofUnits units).declared? (function k).id),
        (Program.ofUnits units).types.isSubtype type e = true := by
  have hfacts := Program.typed_ofUnits units
  have htop : (Program.ofUnits units).types.ObjectOnTop := by
    intro ty hty
    rw [Program.types, hfacts.tables.object] at hty
    rw [Program.types, TypeTable.supertypes, hfacts.tables.edges]
    exact Workspace.objectOnTop_ofUnits hobject ty hty
  have hall := CallChain.protected_or_declared_of_le (m := ⟨Program.ofUnits units, intrinsics⟩)
    hfacts.wellFormed htop hchain htype (Nat.le_refl k)
  rcases hall with ⟨i, hi, hhandled⟩ | hdeclared
  · exact .inl ⟨i, hi, Program.isHandled_iff.mp hhandled⟩
  · exact .inr hdeclared

/-! `g` calls `f`, and `f` calls `h`, which throws an `E`.  `f` declares the
superclass `B` of `E`, and `g` declares `Object`. -/

namespace ChainExample

def classDecl (id : NodeId) (name : String) (superclass : Option TypeName) : ClassDecl :=
  ⟨.bare id, name, [], superclass, [], false, []⟩

def call (id : NodeId) (callee : String) : Expr :=
  .call (.bare (id + 3)) (.name (.bare (id + 4)) callee) [] none

def body (id : NodeId) (callee : String) : Block :=
  ⟨.bare (id + 1), [.expr (.bare (id + 2)) (call id callee)]⟩

def calling (id : NodeId) (name callee : String) : FunctionDecl :=
  ⟨.bare id, name, .function, none, [], none, some (.block (body id callee)), {}, []⟩

def thrower : FunctionDecl :=
  ⟨.bare 7, "h", .function, none, [], none, none, { isExternal := true }, []⟩

def core : CompilationUnit where
  id := 1
  extent := none
  uri := "dart:core"
  directives := []
  declarations := [.class (classDecl 2 "Object" none)]
  comments := []

def unit : CompilationUnit where
  id := 3
  extent := none
  uri := "a.dart"
  directives := []
  declarations := [.function (calling 10 "f" "h"), .function (calling 20 "g" "f"),
    .function thrower, .class (classDecl 4 "B" none),
    .class (classDecl 5 "E" (some ⟨.bare 6, "B", false⟩))]
  comments := []

def intrinsics : IntrinsicTable where
  libraries := .ofList [("a.dart", .ofList [("h", ["E"]), ("f", ["B"]), ("g", ["Object"])])]

def function : Nat → FunctionDecl
  | 0 => calling 10 "f" "h"
  | _ => calling 20 "g" "f"

def callPlace (id : NodeId) (name callee : String) : Place :=
  .child (.child (.child (.child (.root (.unit unit)) .other
    (.functionDecl (calling id name callee))) .other (.block (body id callee))) .other
    (.stmt (.expr (.bare (id + 2)) (call id callee)))) .other (.expr (call id callee))

def site : Nat → Place
  | 0 => callPlace 10 "f" "h"
  | _ => callPlace 20 "g" "f"

def model : EffectModel := ⟨Program.ofUnits [core, unit], intrinsics⟩

theorem findings_eq_nil : model.findings LintCode.all unit = [] := by
  apply eq_nil_of_length_eq_zero
  decide +kernel

theorem callPlace_mem_walkCode {id : NodeId} {name callee : String}
    (hmem : (Slot.other, Node.functionDecl (calling id name callee)) ∈ (Node.unit unit).children) :
    callPlace id name callee ∈ Place.walkCode (.unit unit) := by
  rw [Place.mem_walkCode_iff]
  exact .child (.child (.child (.child .self (Place.mem_children_iff.mpr ⟨_, hmem, rfl⟩) rfl)
    (.head _) rfl) (.head _) rfl) (.head _) rfl

theorem callChain : model.CallChain 1 function site := by
  constructor
  · intro i hi
    rcases Nat.le_one_iff_eq_zero_or_eq_one.mp hi with rfl | rfl
    · exact ⟨⟨unit, callPlace_mem_walkCode (.head _), by simp [findings_eq_nil]⟩, rfl, rfl⟩
    · exact ⟨⟨unit, callPlace_mem_walkCode (.tail _ (.head _)), by simp [findings_eq_nil]⟩,
        rfl, rfl⟩
  · intro i hi
    obtain rfl : i = 0 := by omega
    refine ⟨⟨.declared (calling 10 "f" "h"), "a.dart", none⟩, ?_, ?_⟩
    · cbv
    · have hinvoked : model.program.invoked (site 1) =
          [⟨.declared (calling 10 "f" "h"), "a.dart", none⟩] := by cbv
      rw [hinvoked]
      exact .head _

theorem object_has_no_header :
    ∀ c, (Workspace.ofUnits [core, unit]).coreClass? "Object" = some c →
      c.decl.superclass = none ∧ c.decl.interfaces = [] := by
  have hobject : ((Workspace.ofUnits [core, unit]).coreClass? "Object").all
      (fun c => c.decl.superclass.isNone && c.decl.interfaces.isEmpty) = true := by decide +kernel
  intro c hc
  rw [hc] at hobject
  simpa using hobject

theorem not_isHandled {i : Nat} (hi : i ≤ 1) : model.program.isHandled (site i) 7 = false := by
  rcases Nat.le_one_iff_eq_zero_or_eq_one.mp hi with rfl | rfl <;> decide +kernel

end ChainExample

theorem EffectModel.last_caller_declares_thrown_subclass :
    ChainExample.model.CallChain 1 ChainExample.function ChainExample.site ∧
      7 ∈ (ChainExample.model.candidates (ChainExample.site 0)).map Candidate.type ∧
      ∃ e ∈ ChainExample.model.effects?
          (ChainExample.model.program.declared? (ChainExample.function 1).id),
        ChainExample.model.types.isSubtype 7 e = true := by
  have hcandidate :
      (ChainExample.model.candidates (ChainExample.site 0)).map Candidate.type = [7] := by decide +kernel
  have htype : 7 ∈ (ChainExample.model.candidates (ChainExample.site 0)).map Candidate.type := by
    rw [hcandidate]
    exact .head _
  refine ⟨ChainExample.callChain, htype, ?_⟩
  rcases EffectModel.protected_or_declared_along_calls _ _ ChainExample.object_has_no_header
    ChainExample.callChain htype with ⟨i, hi, hprotected⟩ | hdeclared
  · have hhandled := Program.isHandled_iff.mpr hprotected
    simpa using hhandled.symm.trans (ChainExample.not_isHandled hi)
  · exact hdeclared

end CheckedThrows
