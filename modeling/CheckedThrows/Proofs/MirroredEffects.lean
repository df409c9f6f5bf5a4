import CheckedThrows.Proofs.MirroredTypes
import CheckedThrows.Proofs.Sessions

/-!
# The same effects beside a hidden library

What is known of a program under other numbers, and perhaps beside a hidden
library, decides its effects: how types are written and related, what constants
stand for, and what elements are known to throw.
-/

namespace CheckedThrows

open List

/-! ## Types -/

structure TypeTable.Mirrors (r : Renaming) (t t' : TypeTable) : Prop where
  wellFormed : t.WellFormed
  wellFormed' : t'.WellFormed
  def? : ∀ ty, t'.def? (r.type ty) = (t.def? ty).map (TypeDef.rename r)
  supertypes : ∀ ty, t'.supertypes (r.type ty) = (t.supertypes ty).map r.type
  object : t'.object = t.object.map r.type
  core : ∀ name, t'.coreType name = (t.coreType name).map r.type

namespace TypeDef

variable (r : Renaming) (d : TypeDef)

@[simp]
theorem library_rename : (d.rename r).library = d.library := by
  cases d <;> rfl

@[simp]
theorem isTop_rename : (d.rename r).isTop = d.isTop := by
  cases d <;> rfl

@[simp]
theorem rename_eq_never : d.rename r = .never ↔ d = .never := by
  cases d <;> simp [rename]

end TypeDef

namespace TypeTable

theorem reachable_eq (t : TypeTable) {ty : TypeId} (fuel : Nat)
    (hfuel : (t.supertypes ty).length + t.edgeCount < fuel) :
    t.reachable ty = breadthFirst t.supertypes fuel [ty] (t.supertypes ty) := by
  have hle := t.pendingEdges_le_edgeCount [ty]
  exact breadthFirst_congr_fuel t.boundsEdges_supertypes (by omega) (by omega)

namespace Mirrors

variable {r : Renaming} {t t' : TypeTable} (ht : t.Mirrors r t')
include ht

theorem displayName (ty : TypeId) : t'.displayName (r.type ty) = t.displayName ty := by
  have hfrom : ∀ fuel ty, t'.displayNameFrom fuel (r.type ty) = t.displayNameFrom fuel ty := by
    intro fuel
    induction fuel with
    | zero => exact fun _ => rfl
    | succ fuel ih =>
      intro ty
      rw [displayNameFrom, displayNameFrom, write, write, ht.def?]
      cases t.def? ty with
      | none => rfl
      | some d =>
        cases d with
        | function params returns =>
          have hcomp : t'.displayNameFrom fuel ∘ r.type = t.displayNameFrom fuel := funext ih
          simp only [Option.map_some, TypeDef.rename, map_map, Option.map_map, hcomp]
        | _ => rfl
  rw [ht.wellFormed'.layered.displayName_eq
      (Nat.lt_succ_of_le (Nat.le_max_right t.defs.size t'.defs.size)),
    ht.wellFormed.layered.displayName_eq
      (Nat.lt_succ_of_le (Nat.le_max_left t.defs.size t'.defs.size)), hfrom]

theorem libraryOf (ty : TypeId) : t'.libraryOf (r.type ty) = t.libraryOf ty := by
  rw [TypeTable.libraryOf, TypeTable.libraryOf, ht.def?]
  cases t.def? ty with
  | none => rfl
  | some d => exact d.library_rename r

theorem reachable (ty : TypeId) : t'.reachable (r.type ty) = (t.reachable ty).map r.type := by
  have hlength : (t'.supertypes (r.type ty)).length = (t.supertypes ty).length := by
    rw [ht.supertypes, length_map]
  let fuel := (t.supertypes ty).length + t.edgeCount + t'.edgeCount + 1
  have hmap := breadthFirst_map r.type_injective ht.supertypes fuel [ty] (t.supertypes ty)
  rw [t.reachable_eq fuel (by omega), t'.reachable_eq fuel (by omega), ← hmap, ht.supertypes]
  rfl

theorem object_eq_some_iff (ty : TypeId) : t'.object = some (r.type ty) ↔ t.object = some ty := by
  rw [ht.object, Option.map_eq_some_iff]
  simp [r.type_injective.eq_iff]

theorem isSubtype (sub sup : TypeId) :
    t'.isSubtype (r.type sub) (r.type sup) = t.isSubtype sub sup := by
  have hfrom : ∀ fuel sub sup,
      t'.isSubtypeFrom fuel (r.type sub, r.type sup) = t.isSubtypeFrom fuel (sub, sup) := by
    intro fuel
    induction fuel with
    | zero => exact fun _ _ => rfl
    | succ fuel ih =>
      intro sub sup
      rw [isSubtypeFrom, isSubtypeFrom, relate, relate, ht.def?, ht.def?]
      simp only [r.type_injective.eq_iff, ht.object_eq_some_iff, ht.core]
      cases t.def? sub with
      | none => rfl
      | some subDef =>
        cases t.def? sup with
        | none => rfl
        | some supDef =>
          simp only [Option.map_some, TypeDef.isTop_rename, TypeDef.rename_eq_never]
          have hparts : ∀ ps ps' : List TypeId,
              (((ps.map r.type).zip (ps'.map r.type)).all fun x =>
                t'.isSubtypeFrom fuel x.swap) =
              (ps.zip ps').all fun x => t.isSubtypeFrom fuel x.swap := by
            intro ps ps'
            rw [zip_map, all_map]
            exact all_congr rfl fun pair => ih pair.2 pair.1
          cases subDef with
          | function params returns =>
            cases supDef with
            | function params' returns' =>
              cases returns <;> cases returns' <;>
                simp [TypeDef.rename, TypeDef.isTop, hparts, ih]
            | _ =>
              simp [TypeDef.rename, TypeDef.isTop, r.type_injective.eq_iff]
          | «class» name library =>
            cases supDef with
            | «class» name' library' =>
                simp [TypeDef.rename, ht.reachable, mem_map_of_injective r.type_injective]
            | _ => rfl
          | _ => cases supDef <;> rfl
  rw [ht.wellFormed'.layered.isSubtype_eq
      (Nat.lt_succ_of_le (Nat.le_max_right t.defs.size t'.defs.size)),
    ht.wellFormed.layered.isSubtype_eq
      (Nat.lt_succ_of_le (Nat.le_max_left t.defs.size t'.defs.size)), hfrom]

end Mirrors

end TypeTable

/-! ## Programs -/

/-- A program under other numbers, perhaps beside a hidden library. -/
structure Program.Mirrors (m : Mirror) (p p' : Program) : Prop where
  libraries : p.workspace.libraries.Beside m m.hidden p'.workspace.libraries
  facts : p.facts.Mirrors m p'.facts
  types : p.types.Mirrors m p'.types

def Constant.rename (r : Renaming) : Constant → Constant
  | .unknown => .unknown
  | .literal type value => .literal (type.map r.type) value
  | .list type items => .list (type.map r.type) (items.map fun c => c.rename r)
  | .classValue type denoted => .classValue (type.map r.type) (r.type denoted)
  | .object type fields => .object (r.type type) (fields.map fun f => (f.1, f.2.rename r))
decreasing_by
  · decreasing_tactic
  · rename_i hf
    have hless := sizeOf_lt_of_mem hf
    obtain ⟨name, c⟩ := f
    simp only [Prod.mk.sizeOf_spec, object.sizeOf_spec] at hless ⊢
    omega

namespace Program

theorem constClass?_rename (r : Renaming) (e : ExecutableElement) :
    constClass? (e.rename r) = (constClass? e).map (ClassElement.rename r) := by
  unfold constClass?
  rw [e.kind_rename, e.isConst_rename, e.owner_rename]
  split <;> rfl

namespace Mirrors

variable {m : Mirror} {p p' : Program}

section
variable (hp : p.Mirrors m p')
include hp
variable (n : NodeId)

theorem staticType? : p'.staticType? (m.node n) = (p.staticType? n).map m.type :=
  hp.facts.staticTypes n

theorem meaning? : p'.meaning? (m.node n) = (p.meaning? n).map (Element.rename m) :=
  hp.facts.meanings n

theorem read? : p'.read? (m.node n) = (p.read? n).map (Element.rename m) :=
  hp.facts.reads n

theorem write? : p'.write? (m.node n) = (p.write? n).map (Element.rename m) :=
  hp.facts.writes n

theorem operator? : p'.operator? (m.node n) = (p.operator? n).map (ExecutableElement.rename m) :=
  hp.facts.operators n

theorem declared? : p'.declared? (m.node n) = (p.declared? n).map (Element.rename m) :=
  hp.facts.declared n

theorem parameterFor? :
    p'.parameterFor? (m.node n) = (p.parameterFor? n).map (ParameterElement.rename m) :=
  hp.facts.arguments n

theorem catchType? : p'.catchType? (m.node n) = (p.catchType? n).map m.type :=
  hp.facts.catchTypes n

def meant (v : p.MeantVariable) : p'.MeantVariable :=
  ⟨v.1.rename m, by
    obtain ⟨node, hnode⟩ := v.2
    exact ⟨m.node node, by rw [hp.meaning?, hnode]; rfl⟩⟩

theorem meantVariable? : p'.meantVariable? (m.node n) = (p.meantVariable? n).map hp.meant := by
  by_cases hvar : ∃ v, p.meaning? n = some (.variable v)
  · obtain ⟨v, hv⟩ := hvar
    have hv' : p'.meaning? (m.node n) = some (.variable (v.rename m)) := by
      rw [hp.meaning?, hv]
      rfl
    rw [meantVariable?_eq_some hv, meantVariable?_eq_some hv']
    rfl
  · rw [meantVariable?_eq_none fun v hv => hvar ⟨v, hv⟩, meantVariable?_eq_none]
    · rfl
    · intro v' hv'
      rw [hp.meaning?] at hv'
      obtain ⟨e, he, hrename⟩ := Option.map_eq_some_iff.mp hv'
      cases e with
      | «variable» v => exact hvar ⟨v, he⟩
      | _ => simp [Element.rename] at hrename

theorem class? : (p'.meaning? (m.node n)).bind Element.toClass? =
    ((p.meaning? n).bind Element.toClass?).map (ClassElement.rename m) := by
  rw [hp.meaning?]
  cases p.meaning? n with
  | none => rfl
  | some e => cases e <;> rfl

end

theorem objectWith {fields fields' : Id (NameTable Constant)}
    (hfields : fields'.run = fields.run.mapValues (Constant.rename m)) (e : ExecutableElement) :
    (Program.objectWith (e.rename m) fields').run =
      (Program.objectWith e fields).run.map (Constant.rename m) := by
  unfold Program.objectWith
  rw [constClass?_rename]
  cases constClass? e with
  | none => rfl
  | some c =>
    simp only [Option.map_some, Id.run_bind, Id.run_pure, hfields, Constant.rename]
    rfl

section
variable {enter : p.MeantVariable → Id (Option Constant)}
  {enter' : p'.MeantVariable → Id (Option Constant)}

mutual

theorem constantWith (hp : p.Mirrors m p')
    (henter : ∀ v, (enter' (hp.meant v)).run = (enter v).run.map (Constant.rename m)) :
    (e : Expr) → (p'.constantWith enter' (e.relabel m)).run =
      (p.constantWith enter e).run.map (Constant.rename m)
  | .literal info value => by
    simp only [Expr.relabel, Program.constantWith, NodeInfo.relabel, hp.staticType?, Id.run_pure,
      Option.map_some, Constant.rename]
  | .list info items => by
    simp only [Expr.relabel, Program.constantWith, NodeInfo.relabel, hp.staticType?, Id.run_bind,
      Id.run_pure, itemsWith hp henter items, Option.map_some, Constant.rename]
  | .name info name => by
    simp only [Expr.relabel, Program.constantWith, NodeInfo.relabel, hp.staticType?,
      hp.meantVariable?, hp.class?]
    cases p.meantVariable? info.id with
    | none =>
      cases (p.meaning? info.id).bind Element.toClass? with
      | none => rfl
      | some c => simp only [Option.map_some, Option.map_none, Id.run_pure, Constant.rename]; rfl
    | some v => exact henter v
  | .call info callee args creation => by
    simp only [Expr.relabel, Program.constantWith, NodeInfo.relabel, hp.meaning?]
    cases p.meaning? info.id with
    | none => rfl
    | some e =>
      cases e with
      | executable e => exact objectWith (hp.facts.paramsOf e ▸ fieldsWith hp henter [] _ args) e
      | «class» _ | «variable» _ | parameter _ => rfl
  | .self _ | .member .. | .index .. | .binary .. | .unary .. | .step .. | .assign ..
  | .throw .. | .rethrow _ | .lambda .. => rfl

theorem itemsWith (hp : p.Mirrors m p')
    (henter : ∀ v, (enter' (hp.meant v)).run = (enter v).run.map (Constant.rename m)) :
    (es : List Expr) → (p'.itemsWith enter' (relabelExprs m es)).run =
      (p.itemsWith enter es).run.map (Constant.rename m)
  | [] => rfl
  | e :: rest => by
    simp only [relabelExprs, Program.itemsWith, Id.run_bind, Id.run_pure,
      constantWith hp henter e, itemsWith hp henter rest, map_cons]
    cases (p.constantWith enter e).run with
    | none => simp [Constant.rename]
    | some c => rfl

theorem fieldsWith (hp : p.Mirrors m p')
    (henter : ∀ v, (enter' (hp.meant v)).run = (enter v).run.map (Constant.rename m))
    (fields : NameTable Constant) : (params : List ParameterElement) → (args : List Expr) →
      (p'.fieldsWith enter' (fields.mapValues (Constant.rename m))
          (params.map (ParameterElement.rename m)) (relabelExprs m args)).run =
        (p.fieldsWith enter fields params args).run.mapValues (Constant.rename m)
  | param :: params, arg :: args => by
    simp only [relabelExprs, map_cons, Program.fieldsWith, param.isFieldFormal_rename,
      param.name_rename]
    split
    · simp only [Id.run_bind, constantWith hp henter arg]
      rw [← fieldsWith hp henter _ params args]
      cases (p.constantWith enter arg).run with
      | none => rfl
      | some c => rw [Option.elim_some, NameTable.mapValues_insert]; rfl
    · exact fieldsWith hp henter fields params args
  | [], [] | [], _ :: _ | _ :: _, [] => rfl

end

end

theorem constantVariable? (hp : p.Mirrors m p') (active : List NodeId) (v : p.MeantVariable) :
    p'.constantVariable? (active.map m.node) (hp.meant v) =
      (p.constantVariable? active v).map (Constant.rename m) := by
  have hinit : (hp.meant v).1.constantInit? = v.1.constantInit?.map (Expr.relabel m) :=
    v.1.constantInit?_rename m
  have hid : (hp.meant v).1.id.node = m.node v.1.id.node := by
    rw [meant, v.1.id_rename m]
    rfl
  rw [Program.constantVariable?, Program.constantVariable?, hinit]
  cases v.1.constantInit? with
  | none => rfl
  | some init =>
    simp only [Option.map_some, hid, mem_map_of_injective m.node_injective]
    by_cases hactive : v.1.id.node ∈ active
    · rw [dif_pos hactive, dif_pos hactive]
      rfl
    · have := p.inactive_cons_lt v hactive
      rw [dif_neg hactive, dif_neg hactive]
      exact hp.constantWith (constantVariable? hp (v.1.id.node :: active)) init
termination_by (p.inactive active).length

theorem entryConstant? (hp : p.Mirrors m p') (entry : Metadatum) :
    p'.entryConstant? (entry.relabel m) = (p.entryConstant? entry).map (Constant.rename m) := by
  obtain ⟨info, name, args⟩ := entry
  unfold Program.entryConstant? Program.entryWith
  cases args with
  | none =>
    simp only [Metadatum.relabel, Metadatum.id, NodeInfo.relabel, hp.meantVariable?]
    cases p.meantVariable? info.id with
    | none => rfl
    | some v => exact constantVariable? hp [] v
  | some args =>
    simp only [Metadatum.relabel, Metadatum.id, NodeInfo.relabel, hp.meaning?]
    cases p.meaning? info.id with
    | none => rfl
    | some e =>
      cases e with
      | executable e =>
        exact objectWith (hp.facts.paramsOf e ▸
          hp.fieldsWith (constantVariable? hp []) [] _ args) e
      | «class» _ | «variable» _ | parameter _ => rfl

end Mirrors

end Program

/-! ## Effects -/

namespace Constant

variable (r : Renaming) (c : Constant)

theorem type?_rename : (c.rename r).type? = c.type?.map r.type := by
  cases c <;> simp [rename, type?]

theorem field?_rename (name : String) :
    (c.rename r).field? name = (c.field? name).map (rename r) := by
  cases c with
  | object type fields =>
    rw [rename]
    exact NameTable.lookup_mapValues (rename r) fields name
  | _ => simp [rename, field?]

theorem items?_rename : (c.rename r).items? = c.items?.map (List.map (rename r)) := by
  cases c <;> simp [rename, items?]

theorem denoted?_rename : (c.rename r).denoted? = c.denoted?.map r.type := by
  cases c <;> simp [rename, denoted?]

end Constant

theorem addTypes_map {f : TypeId → TypeId} (hinj : Function.Injective f) (old new : List TypeId) :
    addTypes (old.map f) (new.map f) = (addTypes old new).map f := by
  unfold addTypes
  rw [foldl_map]
  apply foldl_hom (List.map f)
  intro types ty
  simp only [mem_map_of_injective hinj]
  split
  · rfl
  · rw [map_append, map_singleton]

structure EffectModel.Mirrors (m : Mirror) (units : List CompilationUnit) (M M' : EffectModel) :
    Prop where
  program : M.program.Mirrors m M'.program
  intrinsics : M'.intrinsics = M.intrinsics
  rooted : M.Rooted units
  others : ∀ u ∈ units, u.uri ≠ m.hidden

namespace EffectModel.Mirrors

variable {m : Mirror} {units : List CompilationUnit} {M M' : EffectModel}
  (hM : M.Mirrors m units M')
include hM

theorem isThrows (ty : TypeId) : M'.isThrows (m.type ty) = M.isThrows ty := by
  unfold EffectModel.isThrows EffectModel.types
  rw [hM.program.types.displayName, hM.program.types.libraryOf]

theorem thrownBy (c : Constant) : M'.thrownBy (c.rename m) = (M.thrownBy c).map m.type := by
  have hany : (c.rename m).type?.any M'.isThrows = c.type?.any M.isThrows := by
    rw [c.type?_rename]
    cases c.type? with
    | none => rfl
    | some ty => exact hM.isThrows ty
  unfold EffectModel.thrownBy
  rw [hany, c.field?_rename]
  split
  · cases c.field? "types" with
    | none => rfl
    | some field =>
      simp only [Option.map_some, Option.bind_some, field.items?_rename]
      cases field.items? with
      | none => rfl
      | some items =>
        exact filterMap_map_comm (fun c => c.denoted?_rename m) items
  · rfl

theorem declaredEffects (e : Element) :
    M'.declaredEffects (e.rename m) = (M.declaredEffects e).map m.type := by
  unfold EffectModel.declaredEffects
  rw [e.metadata_rename, flatMap_map, ← addTypes_map m.type_injective, map_flatMap]
  congr 2
  funext entry
  rw [hM.program.entryConstant?]
  cases M.program.entryConstant? entry with
  | none => rfl
  | some c => exact hM.thrownBy c

theorem intrinsicEffects {e : Element} (he : e.RootedIn units) :
    M'.intrinsicEffects (e.rename m) = (M.intrinsicEffects e).map m.type := by
  have hlibrary : e.library ≠ m.hidden := by
    obtain ⟨u, hu, place, -, hstands⟩ := he
    rw [hstands.library]
    exact hM.others u hu
  cases e with
  | executable e =>
    have hname : (Element.executable (e.rename m)).qualifiedName =
        (Element.executable e).qualifiedName := (Element.executable e).qualifiedName_rename m
    simp only [Element.rename, EffectModel.intrinsicEffects, e.library_rename, hname, hM.intrinsics]
    rw [← addTypes_map m.type_injective, map_filterMap]
    congr 2
    funext name
    cases name.toString? with
    | none => rfl
    | some name => exact hM.program.libraries.typeNamed? hlibrary name
  | _ => rfl

theorem effects {e : Element} (he : e.RootedIn units) :
    M'.effects (e.rename m) = (M.effects e).map m.type := by
  unfold EffectModel.effects
  rw [hM.declaredEffects, hM.intrinsicEffects he]
  cases M.declaredEffects e <;> rfl

theorem effects? {e : Option Element} (he : ∀ x ∈ e, x.RootedIn units) :
    M'.effects? (e.map (Element.rename m)) = (M.effects? e).map m.type := by
  cases e with
  | none => rfl
  | some e => exact hM.effects (he e rfl)

theorem covers (declared : List TypeId) (ty : TypeId) :
    M'.covers (declared.map m.type) (m.type ty) = M.covers declared ty := by
  unfold EffectModel.covers
  rw [any_map]
  congr 1
  funext d
  exact hM.program.types.isSubtype ty d

end EffectModel.Mirrors

end CheckedThrows
