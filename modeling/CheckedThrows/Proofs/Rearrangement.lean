import CheckedThrows.Effects.Finding
import CheckedThrows.Proofs.Numbers
import Mathlib

/-!
# Units in another order

`Rearranged` says that two lists of units differ in nothing but the order of the
units and of their top-level declarations.  What is thrown by way of a variable
without a written type is known only to bodies that come later: there the order
matters.
-/

namespace CheckedThrows

structure CompilationUnit.Rearranges (u u' : CompilationUnit) : Prop where
  uri : u'.uri = u.uri
  directives : u'.directives = u.directives
  declarations : u.declarations.Perm u'.declarations

/-- The same units in another order, each with its declarations in any order. -/
def Rearranged (units units' : List CompilationUnit) : Prop :=
  ∃ between, List.Forall₂ CompilationUnit.Rearranges units between ∧ between.Perm units'

/-- Units that can be told apart by their uris, their declarations by their
names, and their nodes by their numbers. -/
structure Distinguished (units : List CompilationUnit) : Prop where
  uris : (units.map CompilationUnit.uri).Nodup
  names : ∀ u ∈ units, (u.declarations.map Library.key).Nodup
  numbers : (units.flatMap fun u =>
    u.declarations.flatMap fun d => (Node.ofDeclaration d).numbers).Nodup

def Finding.told (f : Finding) : LintCode × String × String × Node :=
  (f.code, f.typeName, f.message, f.site)

/-! A function throws the value of a variable that has no written type and
belongs to another library. -/

namespace ThrownVariable

def core : CompilationUnit where
  extent := none
  uri := "dart:core"
  directives := []
  declarations := [.class ⟨.bare 1, "Exception", [], none, [], false, []⟩]
  comments := []

def variableUnit : CompilationUnit where
  extent := none
  uri := "b.dart"
  directives := []
  declarations := [.variable ⟨.bare 2, "e", .topLevel, none,
    some (.call (.bare 3) (.name (.bare 4) "Exception") [] none), {}, []⟩]
  comments := []

def throwing : Expr := .throw (.bare 8) (.name (.bare 9) "e")

def throwingBlock : Block := ⟨.bare 6, [.expr (.bare 7) throwing]⟩

def throwingFunction : FunctionDecl :=
  ⟨.bare 5, "f", .function, none, [], none, some (.block throwingBlock), {}, []⟩

def throwingUnit : CompilationUnit where
  extent := none
  uri := "a.dart"
  directives := [⟨.bare 10, .imports, Text.ofString "b.dart"⟩]
  declarations := [.function throwingFunction]
  comments := []

def site : Place :=
  .child (.child (.child (.child (.root (.unit throwingUnit)) .other
    (.functionDecl throwingFunction)) .other (.block throwingBlock)) .other
    (.stmt (.expr (.bare 7) throwing))) .other (.expr throwing)

def model (units : List CompilationUnit) : EffectModel := ⟨Program.ofUnits units, .empty⟩

theorem site_mem_walkCode : site ∈ Place.walkCode (.unit throwingUnit) := by
  rw [Place.mem_walkCode_iff]
  exact .child (.child (.child (.child .self (.tail _ (.head _)) rfl) (.head _) rfl) (.head _) rfl)
    (.head _) rfl

theorem findingsAt_site :
    (model [core, variableUnit, throwingUnit]).findingsAt LintCode.all "a.dart" site =
      [(model [core, variableUnit, throwingUnit]).unhandledFinding "a.dart" (.expr throwing)
        ⟨5, .throw⟩] := by
  have hcandidates : (model [core, variableUnit, throwingUnit]).candidates site =
      [⟨5, .throw⟩] := by cbv
  have hescapes : (model [core, variableUnit, throwingUnit]).escapes site 5 = true := by cbv
  have hlost : (model [core, variableUnit, throwingUnit]).lost (.expr throwing) = [] := rfl
  have hnode : site.node = .expr throwing := rfl
  simp [EffectModel.findingsAt, EffectModel.escaping, hcandidates, hescapes, hnode, hlost,
    Origin.code, LintCode.all]

theorem displayName_thrown :
    (model [core, variableUnit, throwingUnit]).types.displayName 5 = "Exception" := by
  cbv

theorem mem_told {m : EffectModel} (hname : m.types.displayName 5 = "Exception")
    (hsite : m.findingsAt LintCode.all "a.dart" site =
      [m.unhandledFinding "a.dart" (.expr throwing) ⟨5, .throw⟩]) :
    (.unhandledThrow, "Exception",
        "Unhandled throw of 'Exception'. Catch it or declare it with @Throws.",
        .expr throwing) ∈
      (m.findings LintCode.all throwingUnit).map Finding.told := by
  have hmem : m.unhandledFinding "a.dart" (.expr throwing) ⟨5, .throw⟩ ∈
      m.findings LintCode.all throwingUnit := by
    refine List.mem_flatMap.mpr ⟨site, site_mem_walkCode, ?_⟩
    rw [show throwingUnit.uri = "a.dart" from rfl, hsite]
    exact List.mem_singleton_self _
  have htext : "Unhandled throw of '" ++ "Exception" ++
      "'. Catch it or declare it with @Throws." =
        "Unhandled throw of 'Exception'. Catch it or declare it with @Throws." := by decide
  have htold : (m.unhandledFinding "a.dart" (.expr throwing) ⟨5, .throw⟩).told =
      (.unhandledThrow, m.types.displayName 5, "Unhandled throw of '" ++ m.types.displayName 5 ++
        "'. Catch it or declare it with @Throws.", .expr throwing) := rfl
  rw [hname, htext] at htold
  exact List.mem_map.mpr ⟨_, hmem, htold⟩

theorem findings_eq_nil :
    (model [core, throwingUnit, variableUnit]).findings LintCode.all throwingUnit = [] := by
  apply List.eq_nil_of_length_eq_zero
  cbv

theorem distinguished : Distinguished [core, throwingUnit, variableUnit] := by
  refine ⟨by decide, by decide, ?_⟩
  have hnumbers : ([core, throwingUnit, variableUnit].flatMap fun u =>
      u.declarations.flatMap fun d => (Node.ofDeclaration d).numbers) =
      [1, 5, 6, 7, 8, 9, 2, 3, 4] := by cbv
  rw [hnumbers]
  decide

end ThrownVariable

end CheckedThrows
