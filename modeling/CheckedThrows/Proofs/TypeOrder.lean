import CheckedThrows.Proofs.SoundBodies

/-!
# The order of the types of a program

In every program subtyping is a preorder: classes may extend each other in a
circle, so it need not be antisymmetric.  At its upper end are `dynamic`, `void`
and the topmost class, and at its lower end is `Never`.
-/

namespace CheckedThrows

namespace TypeTable

section
variable {t : TypeTable} {a b : TypeId}

theorem isSubtype_of_isTop (hwf : t.WellFormed) (ha : t.Has a) {d : TypeDef}
    (hb : t.def? b = some d) (htop : d.isTop = true) : t.isSubtype a b = true := by
  obtain ⟨aDef, haDef⟩ := ha
  rw [isSubtype_iff hwf]
  exact .inr ⟨aDef, d, haDef, hb, .inl htop⟩

theorem isSubtype_object (hwf : t.WellFormed) (ha : t.Has a) (hobject : t.object = some b) :
    t.isSubtype a b = true := by
  obtain ⟨aDef, haDef⟩ := ha
  obtain ⟨bDef, hbDef⟩ := (hwf.object_class hobject).has
  rw [isSubtype_iff hwf]
  exact .inr ⟨aDef, bDef, haDef, hbDef, .inr (.inl hobject)⟩

theorem never_isSubtype (hwf : t.WellFormed) (ha : t.def? a = some .never) (hb : t.Has b) :
    t.isSubtype a b = true := by
  obtain ⟨bDef, hbDef⟩ := hb
  rw [isSubtype_iff hwf]
  exact .inr ⟨.never, bDef, ha, hbDef, .inr (.inr (.inl rfl))⟩

end

structure SubtypeOrder (t : TypeTable) : Prop where
  refl : ∀ a, t.Has a → t.isSubtype a a = true
  trans : ∀ a b c, t.Has a → t.Has b → t.Has c →
    t.isSubtype a b = true → t.isSubtype b c = true → t.isSubtype a c = true
  le_dynamic : t.def? .dynamic = some .dynamic ∧ ∀ a, t.Has a → t.isSubtype a .dynamic = true
  le_void : t.def? .void = some .void ∧ ∀ a, t.Has a → t.isSubtype a .void = true
  le_object : ∀ object, t.object = some object → ∀ a, t.Has a → t.isSubtype a object = true
  never_le : t.def? .never = some .never ∧ ∀ a, t.Has a → t.isSubtype .never a = true

theorem subtypeOrder {t : TypeTable} (hwf : t.WellFormed) (htop : t.ObjectOnTop)
    (hspecial : TypeTable.initial.Grows t) : t.SubtypeOrder := by
  have hdynamic : t.def? .dynamic = some .dynamic := hspecial _ _ rfl
  have hvoid : t.def? .void = some .void := hspecial _ _ rfl
  have hnever : t.def? .never = some .never := hspecial _ _ rfl
  constructor
  · intro a _
    exact t.isSubtype_refl a
  · intro a b c _ _ _ hab hbc
    exact isSubtype_trans hwf htop hab hbc
  · exact ⟨hdynamic, fun a ha => isSubtype_of_isTop hwf ha hdynamic rfl⟩
  · exact ⟨hvoid, fun a ha => isSubtype_of_isTop hwf ha hvoid rfl⟩
  · intro object hobject a ha
    exact isSubtype_object hwf ha hobject
  · exact ⟨hnever, fun a ha => never_isSubtype hwf hnever ha⟩

end TypeTable

namespace Program

theorem objectOnTop_ofUnits {units : List CompilationUnit}
    (hobject : ∀ c, (Workspace.ofUnits units).coreClass? "Object" = some c →
      c.decl.superclass = none ∧ c.decl.interfaces = []) :
    (Program.ofUnits units).types.ObjectOnTop := by
  have htables := (Program.typed_ofUnits units).tables
  intro ty hty
  rw [Program.types, htables.object] at hty
  rw [Program.types, TypeTable.supertypes, htables.edges]
  exact Workspace.objectOnTop_ofUnits hobject ty hty

/-- Subtyping is a preorder with the special types at its ends in every program
whose class `Object` names no supertypes. -/
theorem subtypeOrder_ofUnits (units : List CompilationUnit)
    (hobject : ∀ c, (Workspace.ofUnits units).coreClass? "Object" = some c →
      c.decl.superclass = none ∧ c.decl.interfaces = []) :
    (Program.ofUnits units).types.SubtypeOrder := by
  have hfacts := Program.typed_ofUnits units
  have hspecial := hfacts.special (Workspace.typed_ofUnits units)
  exact TypeTable.subtypeOrder hfacts.wellFormed (objectOnTop_ofUnits hobject) hspecial

/-! Three classes that extend each other in a circle, and functions from each
to the next: by way of the circle, any two of the functions have related types. -/

namespace CircleExample

def classDecl (id : NodeId) (name superclass : String) : Declaration :=
  .class ⟨.bare id, name, [], some (.bare (id + 1) superclass), [], false, []⟩

def functionDecl (id : NodeId) (name param returns : String) : Declaration :=
  .function ⟨.bare id, name, .function, none,
    [⟨.bare (id + 1), "x", some (.named (.bare (id + 2) param)), false, []⟩],
    some (.named (.bare (id + 3) returns)), none, { isExternal := true }, []⟩

def core : CompilationUnit where
  id := 1
  extent := none
  uri := "dart:core"
  directives := []
  declarations := [.class ⟨.bare 2, "Object", [], none, [], false, []⟩]
  comments := []

def unit : CompilationUnit where
  id := 3
  extent := none
  uri := "a.dart"
  directives := []
  declarations := [classDecl 4 "A" "B", classDecl 6 "B" "C", classDecl 8 "C" "A",
    functionDecl 10 "f" "A" "B", functionDecl 14 "g" "B" "C", functionDecl 18 "h" "C" "A"]
  comments := []

def table : TypeTable where
  defs := #[.dynamic, .void, .never, .unknown, .class "Object" "dart:core",
    .class "A" "a.dart", .class "B" "a.dart", .class "C" "a.dart",
    .function [] (some 5), .function [] (some 6), .function [] (some 7), .function [] (some 8),
    .function [6] (some 7), .function [7] (some 8), .function [8] (some 6)]
  edges := [(8, [6]), (7, [8]), (6, [7]), (5, [])]
  object := some 5
  core := [("Object", 5)]

theorem types_eq : (Program.ofUnits [core, unit]).types = table := by decide +kernel

theorem object_has_no_header :
    ∀ c, (Workspace.ofUnits [core, unit]).coreClass? "Object" = some c →
      c.decl.superclass = none ∧ c.decl.interfaces = [] := by
  have hobject : ((Workspace.ofUnits [core, unit]).coreClass? "Object").all
      (fun c => c.decl.superclass.isNone && c.decl.interfaces.isEmpty) = true := by decide +kernel
  intro c hc
  rw [hc] at hobject
  simpa using hobject

end CircleExample

open CircleExample in
theorem circle_of_function_types :
    (Program.ofUnits [core, unit]).types = table ∧
      table.isSubtype 13 14 = true ∧ table.isSubtype 14 15 = true ∧
      table.isSubtype 13 15 = true ∧ table.isSubtype 15 5 = true := by
  have horder := subtypeOrder_ofUnits [core, unit] object_has_no_header
  rw [types_eq] at horder
  have hfg : table.isSubtype 13 14 = true := by decide
  have hgh : table.isSubtype 14 15 = true := by decide
  have hfh : table.isSubtype 13 15 = true :=
    horder.trans 13 14 15 ⟨_, rfl⟩ ⟨_, rfl⟩ ⟨_, rfl⟩ hfg hgh
  exact ⟨types_eq, hfg, hgh, hfh, horder.le_object 5 rfl 15 ⟨_, rfl⟩⟩

end Program

end CheckedThrows
