import CheckedThrows.Proofs.MirroredWorkspace

/-!
# Looking up members beside a hidden library

The classes that a class inherits from, their members, and what a name means
inside a body are the same with and without a hidden library, under other
numbers.
-/

namespace CheckedThrows

open List

namespace Workspace

def pendingParents (w : Workspace) (seen : List TypeId) : Nat :=
  total (fun c => if c.type ∈ seen then 0 else c.parents.length) w.classes

theorem pendingParents_le_parentCount (w : Workspace) (seen : List TypeId) :
    w.pendingParents seen ≤ w.parentCount := by
  unfold pendingParents parentCount
  induction w.classes with
  | nil => exact Nat.le_refl _
  | cons c classes ih =>
    simp only [total] at ih ⊢
    split <;> omega

theorem boundsEdges_parentTypes (w : Workspace) : BoundsEdges w.parentTypes w.pendingParents := by
  intro seen ty hfresh
  unfold parentTypes classInfo? pendingParents
  induction w.classes with
  | nil => exact Nat.le_refl _
  | cons c classes ih =>
    have hless : total (fun c : ClassInfo => if c.type ∈ ty :: seen then 0
          else c.parents.length) classes ≤
        total (fun c : ClassInfo => if c.type ∈ seen then 0 else c.parents.length) classes := by
      clear ih
      induction classes with
      | nil => exact Nat.le_refl _
      | cons c classes ih =>
        simp only [total, mem_cons] at ih ⊢
        grind
    rw [find?_cons]
    by_cases heq : c.type = ty
    · simp only [total, heq, decide_true, Option.map_some, Option.getD_some, length_map,
        mem_cons_self, if_true, hfresh, if_false] at hless ⊢
      omega
    · simp only [total, heq, decide_false, mem_cons, false_or] at ih ⊢
      omega

namespace Mirrors

variable {r : Renaming} {hidden : String} {w w' : Workspace} (hw : w.Mirrors r hidden w')
include hw
variable (ty : TypeId) (c : ClassElement) (name : String) (static : Option Bool)

theorem classInfo? : w'.classInfo? (r.type ty) = (w.classInfo? ty).map (ClassInfo.rename r) := by
  apply hw.classes.find?
  · intro c _
    have htype : (c.rename r).type = r.type c.type := rfl
    simp [htype, r.type_injective.eq_iff]
  · intro c hc htype
    have heq : c.type = r.type ty := by simpa using htype
    have helsewhere : c.element.library ≠ hidden := fun hlibrary => hw.apart c hc hlibrary ty heq
    simpa [ClassInfo.isElsewhere] using helsewhere

theorem classOf? : w'.classOf? (r.type ty) = (w.classOf? ty).map (ClassElement.rename r) := by
  unfold Workspace.classOf?
  rw [hw.classInfo?]
  cases w.classInfo? ty <;> rfl

theorem parentTypes : w'.parentTypes (r.type ty) = (w.parentTypes ty).map r.type := by
  unfold Workspace.parentTypes
  rw [hw.classInfo?]
  cases w.classInfo? ty with
  | none => rfl
  | some c =>
    simp only [Option.map_some, Option.getD_some, ClassInfo.parents_rename, map_map]
    rfl

theorem hierarchy : w'.hierarchy (c.rename r) = (w.hierarchy c).map (ClassInfo.rename r) := by
  have hcount : w.parentCount ≤ w'.parentCount := by
    apply total_le_of_interleaves hw.classes
    intro c
    rw [ClassInfo.parents_rename, length_map]
  have hpending := w.pendingParents_le_parentCount []
  have hfuel : breadthFirst w.parentTypes (w'.parentCount + 2) [] [c.type] =
      breadthFirst w.parentTypes (w.parentCount + 2) [] [c.type] :=
    breadthFirst_congr_fuel w.boundsEdges_parentTypes (by rw [length_singleton]; omega)
      (by rw [length_singleton]; omega)
  have hfound := breadthFirst_map r.type_injective hw.parentTypes (w'.parentCount + 2) [] [c.type]
  unfold Workspace.hierarchy
  rw [← hfuel, map_filterMap]
  show (breadthFirst _ _ (List.map r.type []) (List.map r.type [c.type])).filterMap _ = _
  rw [hfound, filterMap_map]
  exact filterMap_congr fun ty _ => hw.classInfo? ty

theorem lookupMember {α : Type} {table : Members → NameTable α} {rename : α → α}
    {isStatic : α → Bool} (htable : ∀ m, table (m.rename r) = (table m).mapValues rename)
    (hstatic : ∀ a, isStatic (rename a) = isStatic a) (static : Option Bool) (c : ClassElement)
    (name : String) :
    w'.lookupMember table isStatic static (c.rename r) name =
      (w.lookupMember table isStatic static c name).map rename := by
  unfold Workspace.lookupMember
  rw [hw.hierarchy, findSome?_map, map_findSome?]
  apply findSome?_congr
  intro info _
  have hmembers : (info.rename r).members = info.members.rename r := rfl
  simp only [Function.comp_def, hmembers, htable, NameTable.lookup_mapValues,
    Option.filter_map, hstatic]

theorem method? :
    w'.method? (c.rename r) name static =
      (w.method? c name static).map (ExecutableElement.rename r) :=
  hw.lookupMember (fun _ => rfl) (fun e => e.isStatic_rename r) static c name

theorem getter? :
    w'.getter? (c.rename r) name static = (w.getter? c name static).map (Property.rename r) :=
  hw.lookupMember (fun _ => rfl) (fun p => p.isStatic_rename r) static c name

theorem setter? :
    w'.setter? (c.rename r) name static = (w.setter? c name static).map (Property.rename r) :=
  hw.lookupMember (fun _ => rfl) (fun p => p.isStatic_rename r) static c name

theorem constructor? :
    w'.constructor? (c.rename r) name =
      (w.constructor? c name).map (ExecutableElement.rename r) := by
  unfold Workspace.constructor?
  rw [ClassElement.type_rename, hw.classInfo?]
  cases w.classInfo? c.type with
  | none => rfl
  | some info => exact NameTable.lookup_mapValues _ _ _

theorem readOf? (static : Bool) (name : String) :
    w'.readOf? (c.rename r) static name = (w.readOf? c static name).map (Element.rename r) := by
  unfold Workspace.readOf?
  rw [hw.getter?, hw.method?]
  cases w.getter? c name static with
  | some p => exact congrArg some (p.toElement_rename r)
  | none => cases w.method? c name static <;> rfl

theorem calleeOf? (static : Bool) (name : String) :
    w'.calleeOf? (c.rename r) static name = (w.calleeOf? c static name).map (Element.rename r) := by
  have hconstructor : (if static then w'.constructor? (c.rename r) name else none) =
      (if static then w.constructor? c name else none).map (ExecutableElement.rename r) := by
    cases static with
    | true => exact hw.constructor? c name
    | false => rfl
  unfold Workspace.calleeOf?
  rw [hw.method?, hw.getter?, hconstructor]
  cases w.method? c name static with
  | some m => rfl
  | none =>
    cases if static then w.constructor? c name else none with
    | some e => rfl
    | none =>
      cases w.getter? c name static with
      | none => rfl
      | some p => exact congrArg some (p.toElement_rename r)

theorem formalField? (owner : Option ClassElement) (name : String) :
    CheckedThrows.formalField? w' (owner.map (ClassElement.rename r)) name =
      (CheckedThrows.formalField? w owner name).map (VariableElement.rename r) := by
  have hfound : ((owner.map (ClassElement.rename r)).bind fun c =>
        (w'.classInfo? c.type).bind fun i => i.members.getters.lookup name) =
      (owner.bind fun c => (w.classInfo? c.type).bind fun i =>
        i.members.getters.lookup name).map (Property.rename r) := by
    cases owner with
    | none => rfl
    | some c =>
      show (w'.classInfo? (r.type c.type)).bind _ = _
      rw [hw.classInfo?]
      cases hinfo : w.classInfo? c.type with
      | none => simp [hinfo]
      | some i =>
        simp only [Option.bind_some, Option.map_some, hinfo]
        exact NameTable.lookup_mapValues _ _ _
  unfold CheckedThrows.formalField?
  rw [hfound]
  cases owner.bind fun c => (w.classInfo? c.type).bind fun i => i.members.getters.lookup name with
  | none => rfl
  | some p => cases p <;> rfl

end Mirrors

end Workspace

/-! ## Contexts -/

structure BodyContext.Mirrors (r : Renaming) (hidden : String) (ctx ctx' : BodyContext) :
    Prop where
  workspace : ctx.workspace.Mirrors r hidden ctx'.workspace
  library : ctx'.library = ctx.library
  elsewhere : ctx.library ≠ hidden
  owner : ctx'.owner = ctx.owner.map (ClassElement.rename r)
  isStatic : ctx'.isStatic = ctx.isStatic

namespace BodyContext.Mirrors

variable {r : Renaming} {hidden : String} {ctx ctx' : BodyContext}
  (hctx : ctx.Mirrors r hidden ctx')
include hctx
variable (scope : Names) (name : String)

theorem visible (isStatic : Bool) : ctx'.visible isStatic = ctx.visible isStatic := by
  rw [BodyContext.visible, BodyContext.visible, hctx.isStatic]

theorem readMember? : ctx'.readMember? name = (ctx.readMember? name).map (Element.rename r) := by
  unfold BodyContext.readMember?
  rw [hctx.owner]
  cases ctx.owner with
  | none => rfl
  | some c =>
    simp only [Option.map_some, Option.bind_eq_bind, Option.bind_some, hctx.workspace.getter?,
      hctx.workspace.method?]
    cases ctx.workspace.getter? c name none with
    | some p =>
      simp only [Option.map_some, Property.isStatic_rename, hctx.visible, Property.toElement_rename]
      split <;> rfl
    | none =>
      cases ctx.workspace.method? c name none with
      | none => rfl
      | some m =>
        simp only [Option.map_none, Option.map_some, Option.bind_some,
          ExecutableElement.isStatic_rename, hctx.visible]
        split <;> rfl

theorem writeMember? : ctx'.writeMember? name = (ctx.writeMember? name).map (Element.rename r) := by
  unfold BodyContext.writeMember?
  rw [hctx.owner]
  cases ctx.owner with
  | none => rfl
  | some c =>
    simp only [Option.map_some, Option.bind_eq_bind, Option.bind_some, hctx.workspace.setter?]
    cases ctx.workspace.setter? c name none with
    | none => rfl
    | some p =>
      simp only [Option.map_some, Option.bind_some, Property.isStatic_rename, hctx.visible,
        Property.toElement_rename]
      split <;> rfl

theorem lookupRead :
    ctx'.lookupRead (Names.rename r scope) name =
      (ctx.lookupRead scope name).map (Element.rename r) := by
  unfold BodyContext.lookupRead
  rw [Names.rename, NameTable.lookup_mapValues, hctx.readMember?, hctx.library,
    hctx.workspace.libraries.lookup hctx.elsewhere]
  cases scope.lookup name with
  | some e => rfl
  | none => cases ctx.readMember? name <;> rfl

theorem lookupWrite :
    ctx'.lookupWrite (Names.rename r scope) name =
      (ctx.lookupWrite scope name).map (Element.rename r) := by
  unfold BodyContext.lookupWrite
  rw [Names.rename, NameTable.lookup_mapValues, hctx.writeMember?, hctx.library,
    hctx.workspace.libraries.lookup hctx.elsewhere,
    hctx.workspace.libraries.lookup hctx.elsewhere]
  cases scope.lookup name with
  | some e =>
    simp only [Option.map_some, Element.isBinding_rename]
    split <;> rfl
  | none =>
    cases ctx.writeMember? name with
    | some e => rfl
    | none =>
      cases ctx.workspace.libraries.lookup ctx.library (name ++ "=") with
      | some e => rfl
      | none =>
        simp only [Option.map_none, Option.filter_map]
        congr 2
        funext e
        simp

theorem classNamed? (e : Expr) :
    ctx'.classNamed? (Names.rename r scope) (e.relabel r) =
      (ctx.classNamed? scope e).map (ClassElement.rename r) := by
  cases e with
  | name info name =>
    rw [Expr.relabel, BodyContext.classNamed?, BodyContext.classNamed?, hctx.lookupRead]
    cases ctx.lookupRead scope name with
    | none => rfl
    | some e => exact e.toClass?_rename r
  | _ => simp [Expr.relabel, BodyContext.classNamed?]

end BodyContext.Mirrors

end CheckedThrows
