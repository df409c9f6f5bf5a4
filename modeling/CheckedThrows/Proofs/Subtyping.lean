import CheckedThrows.Proofs.Search
import CheckedThrows.Types.Table
import Mathlib.Data.Int.Order.Basic
import Mathlib.Data.List.Forall2
import Mathlib.Order.MinMax

/-!
# The subtype relation

Function types are related by their parts, and the parts are older than the
whole, so the size of the table is fuel enough and `isSubtype` satisfies its
own recursive description.  From that description, subtyping is transitive as
soon as nothing is above the topmost class.
-/

namespace CheckedThrows

open List

namespace TypeDef

/-- The types that a type is made of. -/
def parts : TypeDef → List TypeId
  | .function params returns => params ++ returns.toList
  | _ => []

end TypeDef

namespace TypeTable

variable {t : TypeTable} {ty : TypeId} {fuel : Nat} {a b c : TypeId}

def Has (t : TypeTable) (ty : TypeId) : Prop := ∃ d, t.def? ty = some d

def HasClass (t : TypeTable) (ty : TypeId) : Prop :=
  ∃ name library, t.def? ty = some (.class name library)

theorem HasClass.has (hclass : t.HasClass ty) : t.Has ty := by
  obtain ⟨name, library, hdef⟩ := hclass
  exact ⟨_, hdef⟩

structure WellFormed (t : TypeTable) : Prop where
  /-- A function type tells its result, and its parts are older than itself. -/
  older : ∀ {ty params returns}, t.def? ty = some (.function params returns) →
    (∀ p ∈ params, t.Has p ∧ p.toNat < ty.toNat) ∧
      ∃ r, returns = some r ∧ t.Has r ∧ r.toNat < ty.toNat
  /-- The topmost class is a class. -/
  object_class : ∀ {ty}, t.object = some ty → t.HasClass ty
  /-- No class stands for all functions. -/
  no_function_class : t.coreType "Function" = none

def ObjectOnTop (t : TypeTable) : Prop :=
  ∀ ty, t.object = some ty → t.supertypes ty = []

theorem Has.le_size (hhas : t.Has ty) : 0 < ty.toNat ∧ ty.toNat ≤ t.defs.size := by
  obtain ⟨d, hdef⟩ := hhas
  unfold def? at hdef
  split at hdef
  next hpos =>
    have hpos : (0 : Int) < ty := hpos
    obtain ⟨hlt, _⟩ := Array.getElem?_eq_some_iff.mp hdef
    omega
  next => simp at hdef

/-! ## Reachable supertypes -/

def pendingEdges (edges : List (TypeId × List TypeId)) (seen : List TypeId) : Nat :=
  total (fun e => if e.1 ∈ seen then 0 else e.2.length) edges

theorem pendingEdges_cons_le (edges : List (TypeId × List TypeId)) (seen : List TypeId)
    (a : TypeId) : pendingEdges edges (a :: seen) ≤ pendingEdges edges seen := by
  induction edges with
  | nil => exact Nat.le_refl _
  | cons e edges ih =>
    simp only [pendingEdges, total, mem_cons] at ih ⊢
    grind

theorem boundsEdges_supertypes (t : TypeTable) :
    BoundsEdges t.supertypes (pendingEdges t.edges) := by
  intro seen a hfresh
  unfold supertypes
  induction t.edges with
  | nil => exact Nat.le_refl _
  | cons e edges ih =>
    rw [lookup_cons]
    by_cases heq : a = e.1
    · subst heq
      have hle := pendingEdges_cons_le edges seen e.1
      simp only [pendingEdges, total, beq_self_eq_true, Option.getD_some, mem_cons_self,
        if_true, hfresh, if_false] at hle ⊢
      omega
    · have hne : (a == e.1) = false := by simpa using heq
      simp only [pendingEdges, total, hne, mem_cons, Ne.symm heq, false_or] at ih ⊢
      omega

theorem pendingEdges_le_edgeCount (t : TypeTable) (seen : List TypeId) :
    pendingEdges t.edges seen ≤ t.edgeCount := by
  unfold edgeCount
  induction t.edges with
  | nil => exact Nat.le_refl _
  | cons e edges ih =>
    simp only [pendingEdges, total] at ih ⊢
    split <;> omega

theorem mem_reachable_iff (t : TypeTable) (a b : TypeId) :
    b ∈ t.reachable a ↔ b ≠ a ∧ Relation.TransGen (Edge t.supertypes) a b := by
  have hle := t.pendingEdges_le_edgeCount [a]
  exact mem_breadthFirst_iff t.boundsEdges_supertypes (by omega)

theorem reachable_trans (hab : b ∈ t.reachable a) (hbc : c ∈ t.reachable b) :
    c = a ∨ c ∈ t.reachable a := by
  by_cases heq : c = a
  · exact .inl heq
  · rw [mem_reachable_iff] at hab hbc ⊢
    exact .inr ⟨heq, hab.2.trans hbc.2⟩

theorem reachable_eq_nil (hnone : t.supertypes a = []) : t.reachable a = [] := by
  rw [reachable, hnone]
  rfl

/-! ## Recursions over the parts of types -/

/-- Everything that a type is made of is older than the type. -/
def Layered (t : TypeTable) : Prop :=
  ∀ ⦃ty d⦄, t.def? ty = some d → ∀ part ∈ d.parts, t.Has part ∧ part < ty

theorem WellFormed.layered (hwf : t.WellFormed) : t.Layered := by
  intro ty d hdef part hpart
  cases d with
  | function params returns =>
    obtain ⟨hparams, r, rfl, hresult⟩ := hwf.older hdef
    have holder : t.Has part ∧ part.toNat < ty.toNat := by
      rcases mem_append.mp hpart with hparam | hlast
      · exact hparams part hparam
      · exact mem_singleton.mp hlast ▸ hresult
    exact ⟨holder.1, Int.lt_of_toNat_lt holder.2⟩
  | _ => cases hpart

/-- The number of a type that is in the table, and zero for all other numbers. -/
def rank (t : TypeTable) (ty : TypeId) : Nat :=
  if (t.def? ty).isSome then ty.toNat else 0

theorem rank_of_has (hty : t.Has ty) : t.rank ty = ty.toNat :=
  if_pos (Option.isSome_iff_exists.mpr hty)

theorem rank_lt_fuel (hfuel : t.defs.size < fuel) (ty : TypeId) : t.rank ty < fuel := by
  unfold rank
  split
  next hty => exact Nat.lt_of_le_of_lt (Has.le_size (Option.isSome_iff_exists.mp hty)).2 hfuel
  next => exact Nat.zero_lt_of_lt hfuel

theorem Layered.rank_lt (ht : t.Layered) {part : TypeId} {d : TypeDef} (hdef : t.def? ty = some d)
    (hpart : part ∈ d.parts) : t.rank part < t.rank ty := by
  obtain ⟨hhas, hlt⟩ := ht hdef part hpart
  have hpos := hhas.le_size
  rw [rank_of_has hhas, rank_of_has ⟨d, hdef⟩]
  exact (Int.toNat_lt_toNat (Int.lt_trans (by omega) hlt)).mpr hlt

/-- The pairs of parts that are compared to relate two types: results as they are,
and parameters the other way round. -/
def compared (t : TypeTable) : TypeId × TypeId → List (TypeId × TypeId)
  | (sub, sup) =>
    match t.def? sub, t.def? sup with
    | some (.function params returns), some (.function params' returns') =>
      returns.toList.zip returns'.toList ++ (params.zip params').map Prod.swap
    | _, _ => []

theorem Layered.lower_of_compared (ht : t.Layered) {pair pair' : TypeId × TypeId}
    (hpair' : pair' ∈ t.compared pair) :
    max (t.rank pair'.1) (t.rank pair'.2) < max (t.rank pair.1) (t.rank pair.2) := by
  obtain ⟨sub, sup⟩ := pair
  obtain ⟨a, b⟩ := pair'
  rw [compared] at hpair'
  split at hpair'
  next params returns params' returns' hsub hsup =>
    rcases mem_append.mp hpair' with hresults | hparams
    · obtain ⟨ha, hb⟩ := of_mem_zip hresults
      have hlower := ht.rank_lt hsub (mem_append_right params ha)
      have hlower' := ht.rank_lt hsup (mem_append_right params' hb)
      exact max_lt_max hlower hlower'
    · obtain ⟨⟨p, p'⟩, hzip, heq⟩ := mem_map.mp hparams
      obtain ⟨rfl, rfl⟩ := Prod.mk.inj heq
      obtain ⟨hp, hp'⟩ := of_mem_zip hzip
      have hlower := ht.rank_lt hsub (mem_append_left returns.toList hp)
      have hlower' := ht.rank_lt hsup (mem_append_left returns'.toList hp')
      rw [max_comm]
      exact max_lt_max hlower hlower'
  next => cases hpair'

theorem relate_congr (t : TypeTable) {pair : TypeId × TypeId} {below below' : TypeId × TypeId → Bool}
    (hparts : ∀ pair' ∈ t.compared pair, below pair' = below' pair') :
    t.relate below pair = t.relate below' pair := by
  obtain ⟨sub, sup⟩ := pair
  rw [compared] at hparts
  rw [relate, relate]
  cases hsub : t.def? sub with
  | none => rfl
  | some subDef =>
    cases hsup : t.def? sup with
    | none => cases subDef <;> rfl
    | some supDef =>
      cases subDef with
      | function params returns =>
        cases supDef with
        | function params' returns' =>
          rw [hsub, hsup] at hparts
          have hresults : ∀ pair ∈ returns.toList.zip returns'.toList, below pair = below' pair :=
            fun pair hpair => hparts pair (mem_append_left _ hpair)
          have hparams : (params.zip params').all (fun pair => below pair.swap) =
              (params.zip params').all fun pair => below' pair.swap := by
            rw [Bool.eq_iff_iff, all_eq_true, all_eq_true]
            refine forall₂_congr fun pair hzip => ?_
            have hparam := hparts pair.swap (mem_append_right _ (mem_map_of_mem hzip))
            exact Bool.eq_iff_iff.mp hparam
          cases returns with
          | none => simp only [hparams]
          | some r =>
            cases returns' with
            | none => simp only [hparams]
            | some r' => simp only [hparams, hresults (r, r') (by simp)]
        | _ => rfl
      | _ => cases supDef <;> rfl

theorem Layered.descends_relate (ht : t.Layered) :
    Descends t.relate t.compared fun pair => max (t.rank pair.1) (t.rank pair.2) where
  lower := fun _ _ hpair' => ht.lower_of_compared hpair'
  settles := fun _ _ _ hparts => t.relate_congr hparts

theorem Layered.descends_write (ht : t.Layered) :
    Descends t.write (fun ty => (t.def? ty).elim [] TypeDef.parts) t.rank where
  lower := by
    intro ty part hpart
    cases hdef : t.def? ty with
    | none =>
      rw [hdef] at hpart
      cases hpart
    | some d =>
      rw [hdef] at hpart
      exact ht.rank_lt hdef hpart
  settles := by
    intro ty written written' hparts
    unfold write
    cases hdef : t.def? ty with
    | none => rfl
    | some d =>
      cases d with
      | function params returns =>
        rw [hdef] at hparts
        have hparams : params.map written = params.map written' :=
          map_congr_left fun p hp => hparts p (mem_append_left _ hp)
        have hreturns : returns.map written = returns.map written' :=
          Option.map_congr fun r hr => hparts r (mem_append_right _ (Option.mem_toList.mpr hr))
        simp only [hparams, hreturns]
      | _ => rfl

theorem Layered.isSubtype_eq (ht : t.Layered) (hfuel : t.defs.size < fuel) (sub sup : TypeId) :
    t.isSubtype sub sup = t.isSubtypeFrom fuel (sub, sup) :=
  ht.descends_relate.congr_fuel t.isSubtypeFrom (fun _ _ => rfl)
    (max_lt (rank_lt_fuel (Nat.lt_succ_self _) sub) (rank_lt_fuel (Nat.lt_succ_self _) sup))
    (max_lt (rank_lt_fuel hfuel sub) (rank_lt_fuel hfuel sup))

theorem Layered.displayName_eq (ht : t.Layered) (hfuel : t.defs.size < fuel) (ty : TypeId) :
    t.displayName ty = t.displayNameFrom fuel ty :=
  ht.descends_write.congr_fuel t.displayNameFrom (fun _ _ => rfl)
    (rank_lt_fuel (Nat.lt_succ_self _) ty) (rank_lt_fuel hfuel ty)

/-! ## The recursive description -/

/-- How two types of a table are related, given how their parts are. -/
def Related (t : TypeTable) (below : TypeId → TypeId → Prop) (sub sup : TypeId) : Prop :=
  sub = sup ∨ ∃ subDef supDef, t.def? sub = some subDef ∧ t.def? sup = some supDef ∧
    (supDef.isTop = true ∨ t.object = some sup ∨ subDef = .never ∨
      (subDef.isClass = true ∧ supDef.isClass = true ∧ sup ∈ t.reachable sub) ∨
      ∃ params r params' r', subDef = .function params (some r) ∧
        supDef = .function params' (some r') ∧ below r r' ∧
        List.Forall₂ (fun p p' => below p' p) params params')

theorem all_zip_iff_forall₂ {below : TypeId × TypeId → Bool} (params params' : List TypeId) :
    (params.length = params'.length ∧
        ((params.zip params').all fun pair => below pair.swap) = true) ↔
      List.Forall₂ (fun p p' => below (p', p) = true) params params' := by
  rw [forall₂_iff_zip, all_eq_true]
  constructor
  · rintro ⟨hlength, hall⟩
    exact ⟨hlength, fun {p p'} hmem => hall (p, p') hmem⟩
  · rintro ⟨hlength, hall⟩
    exact ⟨hlength, fun pair hmem => hall hmem⟩

theorem relate_iff (hwf : t.WellFormed) (below : TypeId × TypeId → Bool) {sub sup : TypeId} :
    t.relate below (sub, sup) = true ↔ t.Related (fun a b => below (a, b) = true) sub sup := by
  rw [relate, Bool.or_eq_true, decide_eq_true_eq, Related]
  apply or_congr_right
  cases hsub : t.def? sub with
  | none => simp
  | some subDef =>
    cases hsup : t.def? sup with
    | none => simp
    | some supDef =>
      simp only [Option.some.injEq, exists_and_left, exists_eq_left']
      split
      next hextreme =>
        simp only [Bool.or_eq_true, decide_eq_true_eq, or_assoc] at hextreme
        tauto
      next hextreme =>
        simp only [Bool.or_eq_true, decide_eq_true_eq, or_assoc, not_or] at hextreme
        obtain ⟨htop, hobject, hnever⟩ := hextreme
        simp only [htop, hobject, hnever, false_or]
        cases subDef with
        | function params returns =>
          obtain ⟨_, r, rfl, -⟩ := hwf.older hsub
          cases supDef with
          | function params' returns' =>
            obtain ⟨_, r', rfl, -⟩ := hwf.older hsup
            rw [Bool.and_eq_true, Bool.and_eq_true, and_right_comm, decide_eq_true_eq,
              all_zip_iff_forall₂]
            simp [TypeDef.isClass, and_comm]
          | «class» name library => simp [TypeDef.isClass, hwf.no_function_class]
          | _ => simp [TypeDef.isClass]
        | «class» name library => cases supDef <;> simp [TypeDef.isClass]
        | _ => cases supDef <;> simp [TypeDef.isClass]

theorem isSubtype_iff (hwf : t.WellFormed) (sub sup : TypeId) :
    t.isSubtype sub sup = true ↔ t.Related (fun a b => t.isSubtype a b = true) sub sup := by
  rw [← relate_iff hwf (fun pair => t.isSubtype pair.1 pair.2), ← Bool.eq_iff_iff,
    hwf.layered.isSubtype_eq (Nat.lt_succ_of_lt (Nat.lt_succ_self _))]
  rfl

theorem isSubtype_refl (t : TypeTable) (ty : TypeId) : t.isSubtype ty ty = true := by
  simp [isSubtype, isSubtypeFrom, relate]

/-! ## Transitivity -/

theorem forall₂_trans_of_mem {α : Type} {R : α → α → Prop} {l₁ l₂ l₃ : List α}
    (htrans : ∀ a ∈ l₁, ∀ b ∈ l₂, ∀ c ∈ l₃, R a b → R b c → R a c)
    (h₁₂ : List.Forall₂ R l₁ l₂) (h₂₃ : List.Forall₂ R l₂ l₃) : List.Forall₂ R l₁ l₃ := by
  induction h₁₂ generalizing l₃ with
  | nil => exact h₂₃
  | @cons a b l₁ l₂ hab _ ih =>
    cases h₂₃ with
    | @cons _ c _ l₃ hbc hrest =>
      refine .cons (htrans a mem_cons_self b mem_cons_self c mem_cons_self
        hab hbc) (ih ?_ hrest)
      intro x hx y hy z hz
      exact htrans x (mem_cons_of_mem a hx) y (mem_cons_of_mem b hy) z
        (mem_cons_of_mem c hz)

/-- One step of transitivity: the parts of function types are older. -/
theorem Related.trans {below : TypeId → TypeId → Prop} {bound : Nat} (hwf : t.WellFormed)
    (htop : t.ObjectOnTop) (hbelow : ∀ x y z, x.toNat < bound → y.toNat < bound → z.toNat < bound →
      below x y → below y z → below x z) (ha : a.toNat ≤ bound) (hb : b.toNat ≤ bound)
    (hc : c.toNat ≤ bound) (hab : t.Related below a b) (hbc : t.Related below b c) :
    t.Related below a c := by
  rcases hab with rfl | ⟨aDef, bDef, haDef, hbDef, hab⟩
  · exact hbc
  rcases hbc with rfl | ⟨bDef', cDef, hbDef', hcDef, hbc⟩
  · exact .inr ⟨aDef, bDef, haDef, hbDef, hab⟩
  obtain rfl : bDef = bDef' := by simpa [hbDef] using hbDef'
  by_cases hne : a = c
  · exact .inl hne
  refine .inr ⟨aDef, cDef, haDef, hcDef, ?_⟩
  have hobject : t.object = some b → bDef.isClass = true := by
    intro hobject
    obtain ⟨name, library, hclass⟩ := hwf.object_class hobject
    obtain rfl : bDef = .class name library := by simpa [hbDef] using hclass
    rfl
  rcases hbc with hupper | hupper | rfl | ⟨hbClass, hcClass, hreach⟩ |
    ⟨params, r, params', r', rfl, rfl, hreturns, hparams⟩
  · exact .inl hupper
  · exact .inr (.inl hupper)
  · -- below `Never` there is only `Never`
    rcases hab with h | h | h | ⟨_, h, _⟩ | ⟨_, _, _, _, _, h, _⟩
    · simp [TypeDef.isTop] at h
    · simpa [TypeDef.isClass] using hobject h
    · exact .inr (.inr (.inl h))
    · simp [TypeDef.isClass] at h
    · simp at h
  · rcases hab with h | h | h | ⟨haClass, _, hreach'⟩ | ⟨_, _, _, _, _, rfl, _⟩
    · cases bDef <;> simp [TypeDef.isTop, TypeDef.isClass] at h hbClass
    · rw [reachable_eq_nil (htop b h)] at hreach
      simp at hreach
    · exact .inr (.inr (.inl h))
    · rcases reachable_trans hreach' hreach with heq | hac
      · exact absurd heq.symm hne
      · exact .inr (.inr (.inr (.inl ⟨haClass, hcClass, hac⟩)))
    · simp [TypeDef.isClass] at hbClass
  · rcases hab with h | h | h | ⟨_, h, _⟩ | ⟨params₀, r₀, _, _, rfl, h, hreturns₀, hparams₀⟩
    · simp [TypeDef.isTop] at h
    · simpa [TypeDef.isClass] using hobject h
    · exact .inr (.inr (.inl h))
    · simp [TypeDef.isClass] at h
    · cases h
      obtain ⟨hold₀, _, hr₀, _, hlt₀⟩ := hwf.older haDef
      obtain ⟨hold, _, hr, _, hlt⟩ := hwf.older hbDef
      obtain ⟨hold', _, hr', _, hlt'⟩ := hwf.older hcDef
      cases hr₀
      cases hr
      cases hr'
      refine .inr (.inr (.inr (.inr ⟨params₀, r₀, params', r', rfl, rfl, ?_, ?_⟩)))
      · exact hbelow r₀ r r' (by omega) (by omega) (by omega) hreturns₀ hreturns
      · -- parameters are related the other way round
        refine forall₂_trans_of_mem ?_ hparams₀ hparams
        intro p₀ hp₀ p hp p' hp' h₀ h
        have hp₀ := (hold₀ p₀ hp₀).2
        have hp := (hold p hp).2
        have hp' := (hold' p' hp').2
        exact hbelow p' p p₀ (by omega) (by omega) (by omega) h h₀

theorem isSubtype_trans (hwf : t.WellFormed) (htop : t.ObjectOnTop) (hab : t.isSubtype a b = true)
    (hbc : t.isSubtype b c = true) : t.isSubtype a c = true := by
  have hbounded : ∀ bound : Nat, ∀ a b c : TypeId,
      a.toNat < bound → b.toNat < bound → c.toNat < bound →
      t.isSubtype a b = true → t.isSubtype b c = true → t.isSubtype a c = true := by
    intro bound
    induction bound with
    | zero =>
      intro a b c ha
      omega
    | succ bound ih =>
      intro a b c ha hb hc hab hbc
      rw [isSubtype_iff hwf] at hab hbc ⊢
      exact Related.trans hwf htop ih (Nat.le_of_lt_succ ha) (Nat.le_of_lt_succ hb)
        (Nat.le_of_lt_succ hc) hab hbc
  exact hbounded (max a.toNat (max b.toNat c.toNat) + 1) a b c (by omega) (by omega) (by omega)
    hab hbc

end TypeTable

end CheckedThrows
