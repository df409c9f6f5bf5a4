import CheckedThrows.Proofs.SoundFacts

/-!
# Function types

However a table came about, a function type is in it once, and the parts of a
function type are older than itself.  So the recursions over the parts of types
end, although the subtype relation goes through parameters with its two sides
exchanged: the greater rank of the two sides falls all the same.
-/

namespace CheckedThrows

namespace TypeTable

variable {t : TypeTable}

theorem reachable_ends (t : TypeTable) (ty : TypeId) (found : List TypeId) :
    Ends (searchStep t.supertypes) ([ty], t.supertypes ty) found ↔ found = t.reachable ty := by
  have hle := t.pendingEdges_le_edgeCount [ty]
  have hfuel : (t.supertypes ty).length + pendingEdges t.edges [ty] <
      (t.supertypes ty).length + t.edgeCount + 1 := by omega
  exact (descends_searchStep t.boundsEdges_supertypes).ends_iff
    (fun fuel s => breadthFirst t.supertypes fuel s.1 s.2) breadthFirst_succ _ found hfuel

theorem Layered.isSubtype_ends (ht : t.Layered) (sub sup : TypeId) (b : Bool) :
    Ends t.relate (sub, sup) b ↔ b = t.isSubtype sub sup :=
  ht.descends_relate.ends_iff t.isSubtypeFrom (fun _ _ => rfl) (sub, sup) b
    (max_lt (rank_lt_fuel (Nat.lt_succ_self _) sub) (rank_lt_fuel (Nat.lt_succ_self _) sup))

theorem Layered.displayName_ends (ht : t.Layered) (ty : TypeId) (name : String) :
    Ends t.write ty name ↔ name = t.displayName ty :=
  ht.descends_write.ends_iff t.displayNameFrom (fun _ _ => rfl) ty name
    (rank_lt_fuel (Nat.lt_succ_self _) ty)

/-! ## Tables as they come about -/

inductive Special
  | dynamic
  | void
  | never
  | unknown
  deriving DecidableEq, Repr

def Special.def : Special → TypeDef
  | .dynamic => .dynamic
  | .void => .void
  | .never => .never
  | .unknown => .unknown

/-- What can be done to a table. -/
inductive Operation
  | newClass (name : String) (library : Option String)
  | newFunction (params : List TypeId) (returns : Option TypeId)
  | ensure (special : Special)
  | setSupertypes (ty : TypeId) (supertypes : List TypeId)
  | markObject (ty : TypeId)
  | registerCore (name : String) (ty : TypeId)
  deriving DecidableEq, Repr

/-- The types that are handed in. -/
def Operation.arguments : Operation → List TypeId
  | .newClass _ _ | .ensure _ => []
  | .newFunction params returns => params ++ returns.toList
  | .setSupertypes ty supertypes => ty :: supertypes
  | .markObject ty | .registerCore _ ty => [ty]

/-- An operation that fails leaves the table as it is. -/
def apply (t : TypeTable) : Operation → TypeTable
  | .newClass name library => (t.newClass name library).2
  | .newFunction params returns => (t.newFunction params returns).2
  | .ensure special => (t.intern special.def).2
  | .setSupertypes ty supertypes =>
    match t.setSupertypes ty supertypes with
    | .ok t' => t'
    | .error _ => t
  | .markObject ty => t.markObject ty
  | .registerCore name ty => t.registerCore name ty

def applyAll (t : TypeTable) (ops : List Operation) : TypeTable :=
  ops.foldl apply t

/-- Every operation is handed types that are in the table by then. -/
def Admits : TypeTable → List Operation → Prop
  | _, [] => True
  | t, op :: ops => (∀ ty ∈ op.arguments, t.Has ty) ∧ (t.apply op).Admits ops

instance (t : TypeTable) (ty : TypeId) : Decidable (t.Has ty) :=
  decidable_of_iff ((t.def? ty).isSome = true) Option.isSome_iff_exists

instance decidableAdmits : (t : TypeTable) → (ops : List Operation) → Decidable (t.Admits ops)
  | _, [] => .isTrue trivial
  | t, op :: ops =>
    have := decidableAdmits (t.apply op) ops
    inferInstanceAs (Decidable ((∀ ty ∈ op.arguments, t.Has ty) ∧ (t.apply op).Admits ops))

theorem intern_cases (t : TypeTable) (d : TypeDef) :
    (t.intern d).2 = t ∨ (t.intern d).2 = (t.add d).2 ∧ ∀ ty, t.def? ty ≠ some d := by
  unfold intern
  split
  next => exact .inl rfl
  next hnone =>
    refine .inr ⟨rfl, fun ty hdef => ?_⟩
    have hfalse := Array.findIdx?_eq_none_iff.mp hnone d (mem_defs_of_def? hdef)
    simp at hfalse

/-- An operation leaves all definitions as they are, or it adds one that is made of
its arguments and that is new unless it is a class. -/
theorem apply_cases (t : TypeTable) (op : Operation) :
    t.SameDefs (t.apply op) ∨
      ∃ d, (t.add d).2.SameDefs (t.apply op) ∧ (∀ part ∈ d.parts, part ∈ op.arguments) ∧
        (d.isClass = true ∨ ∀ ty, t.def? ty ≠ some d) := by
  have hintern : ∀ d : TypeDef, t.SameDefs (t.intern d).2 ∨
      (t.add d).2.SameDefs (t.intern d).2 ∧ ∀ ty, t.def? ty ≠ some d := by
    intro d
    rcases t.intern_cases d with hsame | ⟨hadd, hnew⟩
    · exact .inl (congrArg defs hsame)
    · exact .inr ⟨congrArg defs hadd, hnew⟩
  cases op with
  | newClass name library => exact .inr ⟨_, rfl, fun _ h => absurd h List.not_mem_nil, .inl rfl⟩
  | newFunction params returns =>
    rcases hintern (.function params returns) with hsame | ⟨hadd, hnew⟩
    · exact .inl hsame
    · exact .inr ⟨_, hadd, fun _ h => h, .inr hnew⟩
  | ensure special =>
    rcases hintern special.def with hsame | ⟨hadd, hnew⟩
    · exact .inl hsame
    · refine .inr ⟨_, hadd, fun part hpart => ?_, .inr hnew⟩
      cases special <;> cases hpart
  | setSupertypes ty supertypes =>
    left
    rw [apply]
    split
    next hset => exact (setSupertypes_same hset).1
    next => rfl
  | markObject ty => exact .inl rfl
  | registerCore name ty => exact .inl rfl

theorem grows_apply (t : TypeTable) (op : Operation) : t.Grows (t.apply op) := by
  rcases t.apply_cases op with hsame | ⟨d, hadd, -⟩
  · exact hsame.grows
  · exact (t.grows_add d).trans hadd.grows

theorem Interned.apply (ht : t.Interned) (op : Operation) : (t.apply op).Interned := by
  intro ty ty' params returns hty hty'
  rcases t.apply_cases op with hsame | ⟨d, hadd, -, hnew⟩
  · rw [hsame.def?] at hty hty'
    exact ht hty hty'
  · rw [hadd.def?, def?_add_iff] at hty hty'
    rcases hty with hold | ⟨hlast, rfl⟩
    · rcases hty' with hold' | ⟨-, rfl⟩
      · exact ht hold hold'
      · exact absurd hold (hnew.resolve_left Bool.false_ne_true ty)
    · rcases hty' with hold' | ⟨hlast', -⟩
      · exact absurd hold' (hnew.resolve_left Bool.false_ne_true ty')
      · rw [hlast, hlast']

theorem Layered.apply (ht : t.Layered) {op : Operation} (hargs : ∀ ty ∈ op.arguments, t.Has ty) :
    (t.apply op).Layered := by
  have hgrows := t.grows_apply op
  intro ty e hdef part hpart
  rcases t.apply_cases op with hsame | ⟨d, hadd, hparts, -⟩
  · rw [hsame.def?] at hdef
    exact ⟨(ht hdef part hpart).1.mono hgrows, (ht hdef part hpart).2⟩
  · rw [hadd.def?, def?_add_iff] at hdef
    rcases hdef with hold | ⟨hlast, rfl⟩
    · exact ⟨(ht hold part hpart).1.mono hgrows, (ht hold part hpart).2⟩
    · have hhas := hargs part (hparts part hpart)
      refine ⟨hhas.mono hgrows, ?_⟩
      rw [hlast]
      exact Int.lt_add_one_iff.mpr (Int.toNat_le.mp hhas.le_size.2)

theorem grows_applyAll (t : TypeTable) (ops : List Operation) : t.Grows (t.applyAll ops) :=
  List.foldlRecOn ops _ (.refl t) fun _ hgrows op _ => hgrows.trans (grows_apply _ op)

theorem Interned.applyAll (ht : t.Interned) (ops : List Operation) : (t.applyAll ops).Interned :=
  List.foldlRecOn ops _ ht fun _ hinterned op _ => hinterned.apply op

theorem Layered.applyAll (ht : t.Layered) {ops : List Operation} (hops : t.Admits ops) :
    (t.applyAll ops).Layered := by
  induction ops generalizing t with
  | nil => exact ht
  | cons op ops ih => exact ih (ht.apply hops.1) hops.2

theorem def?_empty (ty : TypeId) : ({} : TypeTable).def? ty = none := by
  unfold def?
  split <;> rfl

theorem interned_empty : ({} : TypeTable).Interned := by
  intro ty ty' params returns hty
  rw [def?_empty] at hty
  cases hty

theorem layered_empty : ({} : TypeTable).Layered := by
  intro ty d hty
  rw [def?_empty] at hty
  cases hty

theorem Interned.newFunction_eq (ht : t.Interned) {ty : TypeId} {params : List TypeId}
    {returns : Option TypeId} (hdef : t.def? ty = some (.function params returns)) :
    t.newFunction params returns = (ty, t) := by
  have hasked : (t.newFunction params returns).2.def? (t.newFunction params returns).1 =
      some (.function params returns) := t.def?_intern _
  have hsame : (t.newFunction params returns).2 = t :=
    (t.intern_cases (.function params returns)).resolve_right fun hadd => hadd.2 ty hdef
  rw [hsame] at hasked
  exact Prod.ext (ht hasked hdef) hsame

/-- Function types are shared, nothing that is in a table changes, and the parts of
a function type have smaller numbers.  So what is asked about types has an answer,
without any bound on the recursion. -/
theorem function_types_shared_and_founded (ops : List Operation)
    (hops : ({} : TypeTable).Admits ops) :
    let t := ({} : TypeTable).applyAll ops
    (∀ ty ty' params params' returns returns',
      t.def? ty = some (.function params returns) →
      t.def? ty' = some (.function params' returns') →
      (ty = ty' ↔ params = params' ∧ returns = returns')) ∧
    (∀ later ty params returns, t.def? ty = some (.function params returns) →
      (t.applyAll later).newFunction params returns = (ty, t.applyAll later)) ∧
    (∀ later ty d, t.def? ty = some d → (t.applyAll later).def? ty = some d) ∧
    (∀ ty params returns, t.def? ty = some (.function params returns) →
      ∀ part ∈ params ++ returns.toList, 0 < part ∧ part < ty) ∧
    (∀ sub sup b, Ends t.relate (sub, sup) b ↔ b = t.isSubtype sub sup) ∧
    (∀ ty found, Ends (searchStep t.supertypes) ([ty], t.supertypes ty) found ↔
      found = t.reachable ty) ∧
    ∀ ty name, Ends t.write ty name ↔ name = t.displayName ty := by
  intro t
  have hinterned : t.Interned := interned_empty.applyAll ops
  have hlayered : t.Layered := layered_empty.applyAll hops
  refine ⟨?_, ?_, t.grows_applyAll, ?_, hlayered.isSubtype_ends, t.reachable_ends,
    hlayered.displayName_ends⟩
  · intro ty ty' params params' returns returns' hty hty'
    constructor
    · rintro rfl
      exact TypeDef.function.inj (Option.some.inj (hty.symm.trans hty'))
    · rintro ⟨rfl, rfl⟩
      exact hinterned hty hty'
  · intro later ty params returns hty
    exact (hinterned.applyAll later).newFunction_eq (t.grows_applyAll later ty _ hty)
  · intro ty params returns hty part hpart
    obtain ⟨hhas, hlt⟩ := hlayered hty part hpart
    have hpos := hhas.le_size
    refine ⟨?_, hlt⟩
    show (0 : Int) < part
    omega

/-! Two classes, one of them below the other, and functions of functions: to relate
the functions of functions, the parameters of their parameters are compared. -/

def nestedOperations : List Operation :=
  [.newClass "A" none, .newClass "B" none, .setSupertypes 2 [1], .newFunction [2] (some 1),
    .newFunction [1] (some 2), .newFunction [3] (some 4), .ensure .dynamic,
    .newFunction [4] (some 3), .newFunction [2] (some 1)]

def nested : TypeTable where
  defs := #[.class "A" none, .class "B" none, .function [2] (some 1), .function [1] (some 2),
    .function [3] (some 4), .dynamic, .function [4] (some 3)]
  edges := [(2, [1])]

theorem applyAll_nestedOperations : ({} : TypeTable).applyAll nestedOperations = nested := by decide +kernel

theorem nested_functions_shared_and_founded :
    ({} : TypeTable).Admits nestedOperations ∧
      ({} : TypeTable).applyAll nestedOperations = nested ∧
      nested.newFunction [2] (some 1) = (3, nested) ∧
      Ends nested.relate (5, 7) true ∧ Ends nested.relate (7, 5) false ∧
      Ends nested.write 5 "B Function(A) Function(A Function(B))" := by
  have hops : ({} : TypeTable).Admits nestedOperations := by decide +kernel
  have hfounded := function_types_shared_and_founded nestedOperations hops
  rw [applyAll_nestedOperations] at hfounded
  obtain ⟨-, hshared, -, -, hsubtype, -, hname⟩ := hfounded
  exact ⟨hops, applyAll_nestedOperations, hshared [] 3 [2] (some 1) rfl,
    (hsubtype 5 7 true).mpr (by decide), (hsubtype 7 5 false).mpr (by decide),
    (hname 5 _).mpr (by decide)⟩

end TypeTable

end CheckedThrows
