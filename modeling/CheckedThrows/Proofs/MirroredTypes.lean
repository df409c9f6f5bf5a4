import CheckedThrows.Proofs.MirroredPrograms

/-!
# Matching the types of two programs

Which number a type of one program has in another one is read off the two tables
that the programs end with.  Classes are shifted past the classes of the hidden
library, a function type is found by its parts, and whatever the other table does
not have gets a number beyond it.
-/

namespace CheckedThrows

variable {params : List TypeId} {returns : Option TypeId}

namespace TypeTable

variable {t : TypeTable} {ty : Int}

def number? (t : TypeTable) (d : TypeDef) : Option TypeId :=
  (t.defs.findIdx? (· = d)).map fun i : Nat => (i : TypeId) + 1

theorem def?_number? {d : TypeDef} {ty : TypeId} (hty : t.number? d = some ty) :
    t.def? ty = some d := by
  obtain ⟨i, hi, rfl⟩ := Option.map_eq_some_iff.mp hty
  have hintern := t.def?_intern d
  rw [intern, hi] at hintern
  exact hintern

theorem number?_ne_none {d : TypeDef} {ty : TypeId} (hty : t.def? ty = some d) :
    t.number? d ≠ none := by
  intro hnone
  have hfalse := Array.findIdx?_eq_none_iff.mp (Option.map_eq_none_iff.mp hnone) d
    (mem_defs_of_def? hty)
  simp at hfalse

theorem def?_eq_none_iff : t.def? ty = none ↔ ty ≤ 0 ∨ t.defs.size < ty := by
  unfold def?
  by_cases hpos : 0 < ty
  · rw [if_pos hpos, Array.getElem?_eq_none_iff]
    omega
  · rw [if_neg hpos]
    simp only [true_iff]
    omega

theorem Grows.size_le {t' : TypeTable} (hgrows : t.Grows t') : t.defs.size ≤ t'.defs.size := by
  by_contra hlt
  have hlast : t.def? (t.defs.size : Int) ≠ none := by
    rw [Ne, def?_eq_none_iff]
    omega
  obtain ⟨d, hd⟩ := Option.ne_none_iff_exists'.mp hlast
  have hhas : t'.Has (t.defs.size : Int) := ⟨d, hgrows _ d hd⟩
  have := hhas.le_size
  omega

/-- The number in `t'` of a type of `t`, where `k` classes come after the first
`a` of `n` types. -/
def typeInto (t t' : TypeTable) (a k n : Nat) (ty : Int) : Int :=
  match t.def? ty with
  | some (.function params returns) =>
    let part (p : Int) : Int :=
      if p.toNat < ty.toNat then typeInto t t' a k n p else p
    (t'.number? (.function (params.map part) (returns.map part))).getD (t'.defs.size + ty)
  | _ =>
    if ty ≤ a then ty
    else if ty ≤ n then ty + k
    else t'.defs.size + ty
termination_by ty.toNat

theorem eq_of_map_eq_map {α β : Type} {f : α → β} {l l' : List α}
    (hinj : ∀ a ∈ l, ∀ a', f a = f a' → a = a') (hmap : l.map f = l'.map f) : l = l' := by
  induction l generalizing l' with
  | nil => exact (List.map_eq_nil_iff.mp hmap.symm).symm
  | cons a l ih =>
    obtain ⟨a', rest, rfl, ha, hrest⟩ := List.map_eq_cons_iff.mp hmap.symm
    rw [hinj a List.mem_cons_self a' ha.symm,
      ih (fun b hb => hinj b (List.mem_cons_of_mem a hb)) hrest.symm]

/-- Tables that begin with `n` and with `n + k` types that are no function types,
and of which the first `a` are the same; what comes after them are function
types, each once. -/
structure Matches (t t' : TypeTable) (a k n : Nat) : Prop where
  wellFormed : t.WellFormed
  interned : t.Interned
  interned' : t'.Interned
  le : a ≤ n
  size : n ≤ t.defs.size
  size' : n + k ≤ t'.defs.size
  functions : ∀ {ty : Int} {params returns}, t.def? ty = some (.function params returns) → n < ty
  functions' : ∀ {ty : Int} {params returns}, t'.def? ty = some (.function params returns) → n + k < ty

section
variable {t t' : TypeTable} {a k n : Nat} (h : t.Matches t' a k n)
include h

theorem Matches.typeInto_function (hty : t.def? ty = some (.function params returns)) :
    t.typeInto t' a k n ty =
      (t'.number? (.function (params.map (t.typeInto t' a k n))
        (returns.map (t.typeInto t' a k n)))).getD (t'.defs.size + ty) := by
  obtain ⟨hparams, r, rfl, -, hr⟩ := h.wellFormed.older hty
  have hmap : (params.map fun p => if p.toNat < ty.toNat then t.typeInto t' a k n p else p) =
      params.map (t.typeInto t' a k n) :=
    List.map_congr_left fun p hp => if_pos (hparams p hp).2
  rw [typeInto, hty]
  dsimp only [Option.map_some]
  rw [hmap, if_pos hr]

theorem Matches.typeInto_low (hty : ty ≤ a) : t.typeInto t' a k n ty = ty := by
  have hle := h.le
  rw [typeInto]
  split
  next params returns hdef =>
    have := h.functions hdef
    omega
  next => rw [if_pos hty]

theorem Matches.typeInto_high (hlow : a < ty) (hhigh : ty ≤ n) :
    t.typeInto t' a k n ty = ty + k := by
  rw [typeInto]
  split
  next params returns hdef =>
    have := h.functions hdef
    omega
  next => rw [if_neg (by omega), if_pos hhigh]

theorem Matches.typeInto_beyond (ty : Int) (hty : n < ty) :
    (∃ params returns, t.def? ty = some (.function params returns) ∧
        t'.def? (t.typeInto t' a k n ty) = some (.function (params.map (t.typeInto t' a k n))
          (returns.map (t.typeInto t' a k n)))) ∨
      t.typeInto t' a k n ty = t'.defs.size + ty := by
  have hle := h.le
  by_cases hfunction : ∃ params returns, t.def? ty = some (.function params returns)
  · obtain ⟨params, returns, hdef⟩ := hfunction
    have heq := h.typeInto_function hdef
    cases hnumber : t'.number? (.function (params.map (t.typeInto t' a k n))
        (returns.map (t.typeInto t' a k n))) with
    | none =>
      rw [hnumber] at heq
      exact .inr heq
    | some ty' =>
      rw [hnumber] at heq
      refine .inl ⟨params, returns, hdef, ?_⟩
      rw [heq]
      exact def?_number? hnumber
  · right
    rw [typeInto]
    split
    next params returns hdef => exact absurd ⟨params, returns, hdef⟩ hfunction
    next => rw [if_neg (by omega), if_neg (by omega)]

theorem Matches.lt_typeInto (ty : Int) (hty : n < ty) : n + k < t.typeInto t' a k n ty := by
  have hsize := h.size'
  rcases h.typeInto_beyond ty hty with ⟨params, returns, -, hdef⟩ | heq
  · exact h.functions' hdef
  · omega

theorem Matches.typeInto_injective : Function.Injective (t.typeInto t' a k n) := by
  have hle := h.le
  -- the numbers up to `n` are shifted, and those beyond stay beyond
  have hshift : ∀ ty : Int, ty ≤ n → (ty ≤ a ∧ t.typeInto t' a k n ty = ty) ∨
      (a < ty ∧ t.typeInto t' a k n ty = ty + k) := by
    intro ty hty
    by_cases hlow : ty ≤ a
    · exact .inl ⟨hlow, h.typeInto_low hlow⟩
    · exact .inr ⟨by omega, h.typeInto_high (by omega) hty⟩
  have hsizes : ∀ {ty : Int} {d : TypeDef}, t'.def? ty = some d → ty ≤ t'.defs.size := by
    intro ty d hdef
    have hhas : t'.Has ty := ⟨d, hdef⟩
    have := hhas.le_size
    omega
  have hall : ∀ (bound : Nat) (ty ty' : Int), ty.toNat < bound →
      t.typeInto t' a k n ty = t.typeInto t' a k n ty' → ty = ty' := by
    intro bound
    induction bound with
    | zero => exact fun ty ty' hbound => absurd hbound (Nat.not_lt_zero _)
    | succ bound ih =>
      intro ty ty' hbound heq
      by_cases hty : ty ≤ n
      · have hfirst := hshift ty hty
        by_cases hty' : ty' ≤ n
        · have hsecond := hshift ty' hty'
          omega
        · have hbeyond := h.lt_typeInto ty' (by omega)
          omega
      · by_cases hty' : ty' ≤ n
        · have hbeyond := h.lt_typeInto ty (by omega)
          have hsecond := hshift ty' hty'
          omega
        · rcases h.typeInto_beyond ty (by omega) with
            ⟨params, returns, hdef, hinto⟩ | hfresh
          · rcases h.typeInto_beyond ty' (by omega) with
              ⟨params', returns', hdef', hinto'⟩ | hfresh'
            · -- the same function type, so the parts are the same as well
              rw [heq, hinto'] at hinto
              obtain ⟨hparams, hreturns⟩ := TypeDef.function.inj (Option.some.inj hinto)
              obtain ⟨holder, r, rfl, -, hr⟩ := h.wellFormed.older hdef
              obtain ⟨-, r', rfl, -, -⟩ := h.wellFormed.older hdef'
              have hbelow : ∀ p : Int, p.toNat < ty.toNat → p.toNat < bound :=
                fun p hp => by omega
              have hsame : params = params' := by
                apply eq_of_map_eq_map (fun p hp p' => ?_) hparams.symm
                exact ih p p' (hbelow p (holder p hp).2)
              have hresult : r = r' := ih r r' (hbelow r hr) (Option.some.inj hreturns).symm
              subst hsame hresult
              exact h.interned hdef hdef'
            · have hbound := hsizes hinto
              omega
          · rcases h.typeInto_beyond ty' (by omega) with
              ⟨params', returns', hdef', hinto'⟩ | hfresh'
            · have hbound := hsizes hinto'
              omega
            · omega
  exact fun ty ty' heq => hall (ty.toNat + 1) ty ty' (Nat.lt_succ_self _) heq

theorem Matches.typeInto_eq {ty' : Int} (hty : t.def? ty = some (.function params returns))
    (hty' : t'.def? ty' = some (.function (params.map (t.typeInto t' a k n))
      (returns.map (t.typeInto t' a k n)))) : t.typeInto t' a k n ty = ty' := by
  rw [h.typeInto_function hty]
  obtain ⟨found, hfound⟩ := Option.ne_none_iff_exists'.mp (number?_ne_none hty')
  rw [hfound]
  exact h.interned' (def?_number? hfound) hty'

theorem Matches.def?_typeInto_none (hty : t.def? ty = none) :
    t'.def? (t.typeInto t' a k n ty) = none := by
  have hle := h.le
  have hsize := h.size
  rcases def?_eq_none_iff.mp hty with hneg | hbeyond
  · rw [h.typeInto_low (by omega)]
    exact def?_eq_none_iff.mpr (.inl hneg)
  · rcases h.typeInto_beyond ty (by omega) with ⟨params, returns, hdef, -⟩ | hfresh
    · rw [hty] at hdef
      cases hdef
    · rw [hfresh]
      exact def?_eq_none_iff.mpr (.inr (by omega))

end

end TypeTable

/-! ## The tables of programs -/

namespace Program

variable (units : List CompilationUnit)

theorem grows_declare : (Workspace.declare units).types.Grows (ofUnits units).types :=
  (Workspace.types_ofUnits units).1.same.grows.trans (typed_ofUnits units).tables.grows

theorem size_declare_lt {ty : Int}
    (hty : (ofUnits units).types.def? ty = some (.function params returns)) :
    (Workspace.declare units).types.defs.size < ty := by
  by_contra hle
  cases hdef : (Workspace.declare units).types.def? ty with
  | none =>
    have hhas : (ofUnits units).types.Has ty := ⟨_, hty⟩
    have := hhas.le_size
    rcases TypeTable.def?_eq_none_iff.mp hdef with hneg | hbeyond <;> omega
  | some d =>
    rw [grows_declare units ty d hdef] at hty
    rw [Option.some.inj hty] at hdef
    exact (Workspace.isDeclared_declare units).unlinked.no_functions ty params returns hdef

theorem interned_ofUnits : (ofUnits units).types.Interned := by
  apply (typed_ofUnits units).tables.interned
  intro ty ty' params returns hty
  have hnone := (Workspace.isDeclared_declare units).unlinked.no_functions ty params returns
  exact absurd (((Workspace.types_ofUnits units).1.same.def? ty).symm.trans hty) hnone

end Program

/-! ## A renaming between programs -/

def shiftedBy (a k : Nat) (ty : Int) : Int := if ty ≤ a then ty else ty + k

theorem shiftedBy_injective (a k : Nat) : Function.Injective (shiftedBy a k) := by
  intro ty ty' heq
  unfold shiftedBy at heq
  split at heq <;> split at heq <;> omega

section
variable (r : Renaming) (before after : List CompilationUnit) (x : Option CompilationUnit)

def Renaming.extraClasses : Nat :=
  (Workspace.declare (before.map (CompilationUnit.relabel r) ++ x.toList)).types.defs.size -
    (Workspace.declare before).types.defs.size

variable {r before after x} {hidden : String}

theorem Workspace.size_declare_relabel (hothers : ∀ u ∈ before, u.uri ≠ hidden) :
    (declare (before.map (CompilationUnit.relabel r))).types.defs.size =
      (declare before).types.defs.size := by
  let r₀ : Renaming := { r with type := fun ty => ty, type_injective := Function.injective_id }
  have hr : r₀.Inserts 4 0 4 := by
    refine ⟨?_, ?_, ?_⟩
    · intro ty k hk _ _
      exact hk.symm
    · intro ty k hk _ _
      have hsame : ty = k := hk
      omega
    · intro ty k hk hpos hle
      have hsame : ty = k := hk
      omega
  have hshift : r₀.ShiftsBetween 0 ({} : Workspace).types (before.foldl addUnit {}).types := by
    intro ty _ _
    show ty = ty + 0
    omega
  exact (DeclaresBeside.foldl (r := r₀) ⟨.nil, .nil⟩ (TypeTable.shifts_initial hr (Nat.le_refl 4))
    hothers hshift).2.size

def TypeTable.Matches.mirror {t t' : TypeTable} {a k n : Nat} (h : t.Matches t' a k n)
    (hfour : 4 ≤ a) (r : Renaming) (hidden : String) : Mirror where
  toRelabeling := r.toRelabeling
  type := t.typeInto t' a k n
  span := r.span
  node_injective := r.node_injective
  type_injective := h.typeInto_injective
  span_ofExtent := r.span_ofExtent
  span_ofFile := r.span_ofFile
  file_span := r.file_span
  hidden
  last := t
  last' := t'
  dynamic := h.typeInto_low (by simp only [TypeId.dynamic]; omega)
  void := h.typeInto_low (by simp only [TypeId.void]; omega)
  never := h.typeInto_low (by simp only [TypeId.never]; omega)
  unknown := h.typeInto_low (by simp only [TypeId.unknown]; omega)
  function := h.typeInto_eq

theorem TypeTable.Matches.inserts {t t' : TypeTable} {a k n : Nat} (h : t.Matches t' a k n)
    (hfour : 4 ≤ a) : (h.mirror hfour r hidden).Inserts a k n where
  low ty number hnumber _ hty := hnumber.symm.trans (h.typeInto_low hty)
  high ty number hnumber hlow hhigh := hnumber.symm.trans (h.typeInto_high hlow hhigh)
  beyond ty number hnumber hpos hle := by
    change t.typeInto t' a k n ty = number at hnumber
    have hbound := h.le
    by_cases hty : ty ≤ a
    · rw [h.typeInto_low hty] at hnumber
      omega
    · by_cases hhigh : ty ≤ n
      · omega
      · have hbeyond := h.lt_typeInto ty (by omega)
        omega

variable (hbeside : StandsBeside r hidden before x after)
include hbeside

theorem StandsBeside.size_with :
    (Workspace.declare (before.map (CompilationUnit.relabel r) ++ x.toList)).types.defs.size =
      (Workspace.declare before).types.defs.size + r.extraClasses before x := by
  have hsame := Workspace.size_declare_relabel (r := r) fun u hu =>
    hbeside.others u (List.mem_append_left _ hu)
  have hmore := Workspace.size_le_foldl_addUnit
    (Workspace.declare (before.map (CompilationUnit.relabel r))) x.toList
  rw [Workspace.declare, ← List.foldl_append] at hmore
  simp only [Renaming.extraClasses, Workspace.declare] at hsame hmore ⊢
  omega

theorem StandsBeside.size_declare :
    (Workspace.declare (r.unitsBeside before x after)).types.defs.size =
      (Workspace.declare (before ++ after)).types.defs.size + r.extraClasses before x := by
  let a := (Workspace.declare before).types.defs.size
  let k := r.extraClasses before x
  let r₀ : Renaming :=
    { r with type := shiftedBy a k, type_injective := shiftedBy_injective a k }
  have hle : a ≤ (Workspace.declare (before ++ after)).types.defs.size :=
    Workspace.size_declare_le before after
  have hr : r₀.Inserts a k (Workspace.declare (before ++ after)).types.defs.size := by
    refine ⟨?_, ?_, ?_⟩ <;> intro ty number hnumber <;>
      · change shiftedBy a k ty = number at hnumber
        unfold shiftedBy at hnumber
        split at hnumber <;> omega
  exact (Workspace.declaresBeside_declare (r := r₀) hbeside.uri hbeside.others hr
    hbeside.size_with).2.1.size

theorem StandsBeside.matches :
    (Program.ofUnits (before ++ after)).types.Matches
      (Program.ofUnits (r.unitsBeside before x after)).types
      (Workspace.declare before).types.defs.size (r.extraClasses before x)
      (Workspace.declare (before ++ after)).types.defs.size where
  wellFormed := (Program.typed_ofUnits _).wellFormed
  interned := Program.interned_ofUnits _
  interned' := Program.interned_ofUnits _
  le := Workspace.size_declare_le before after
  size := (Program.grows_declare _).size_le
  size' := by
    rw [← hbeside.size_declare]
    exact (Program.grows_declare _).size_le
  functions := Program.size_declare_lt _
  functions' := by
    intro ty params returns hty
    have hlt := Program.size_declare_lt _ hty
    rw [hbeside.size_declare] at hlt
    exact_mod_cast hlt

def StandsBeside.mirror : Mirror :=
  hbeside.matches.mirror (Workspace.four_le_size_declare before) r hidden

theorem StandsBeside.workspace_mirrors :
    (Workspace.ofUnits (before ++ after)).Mirrors hbeside.mirror hidden
      (Workspace.ofUnits (r.unitsBeside before x after)) :=
  Workspace.mirrors_ofUnits (r := hbeside.mirror) hbeside.uri hbeside.others hbeside.core
    hbeside.mentions (hbeside.matches.inserts _) hbeside.size_with

theorem StandsBeside.last_mirror :
    hbeside.mirror.last = (Program.ofUnits (before ++ after)).types := by
  rw [mirror, TypeTable.Matches.mirror]

theorem StandsBeside.last'_mirror :
    hbeside.mirror.last' = (Program.ofUnits (r.unitsBeside before x after)).types := by
  rw [mirror, TypeTable.Matches.mirror]

theorem StandsBeside.facts_mirror :
    (Program.ofUnits (before ++ after)).facts.Mirrors hbeside.mirror
      (Program.ofUnits (r.unitsBeside before x after)).facts :=
  Program.facts_mirrors (m := hbeside.mirror) hbeside hbeside.workspace_mirrors
    hbeside.last_mirror hbeside.last'_mirror

end

end CheckedThrows
