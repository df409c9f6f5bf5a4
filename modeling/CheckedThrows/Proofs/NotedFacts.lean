import CheckedThrows.Proofs.LexicalScopes
import CheckedThrows.Proofs.Origins
import CheckedThrows.Proofs.Visits

/-!
# What may be noted where

Whatever is noted during the resolution is noted at an expression of the right
kind, a name gets the meaning that its place gives it, and a getter that is
called is noted at the call as well.  This is an invariant of the facts, and
single steps keep it.
-/

namespace CheckedThrows

variable {e : Element} {p : Place}

namespace Place

/-- The operand of an assignment or a step is no read, so an operator is not applied
there. -/
def appliesOperator (p : Place) : Bool :=
  match p.node with
  | .expr (.index ..) => p.slot ≠ .target
  | .expr (.binary ..) | .expr (.unary ..) | .expr (.step ..) => true
  | .expr (.assign _ op _ _) => !op.stores
  | _ => false

def readsFirst (p : Place) : Bool :=
  match p.node with
  | .expr (.step ..) => true
  | .expr (.assign _ op _ _) => op.reads
  | _ => false

def isWriting (p : Place) : Bool :=
  match p.node with
  | .expr (.step ..) | .expr (.assign ..) => true
  | _ => false

def hasMeaning (p : Place) : Bool :=
  match p.node with
  | .expr (.name ..) | .expr (.member ..) => p.slot ≠ .target
  | .expr (.call ..) | .metadatum _ => true
  | _ => false

def readName? (p : Place) : Option String :=
  match p.node with
  | .expr (.name _ name) => if p.slot = .target then none else some name
  | _ => none

def namedCallee? (p : Place) : Option NodeId :=
  match p.node with
  | .expr (.call _ callee _ _) => if callee.isNamed then some callee.id else none
  | _ => none

def isNamedCallee (p : Place) : Bool :=
  match p.node with
  | .expr e => p.slot = .callee && e.isNamed
  | _ => false

def isOuter : Place → Bool
  | .root _ => false
  | .child parent _ _ => !parent.node.isInner

theorem exists_callee {n : NodeId} (hcallee : p.namedCallee? = some n) :
    ∃ e : Expr, e.id = n ∧ (.callee, .expr e) ∈ p.node.children ∧
      (child p .callee (.expr e)).isNamedCallee = true := by
  unfold namedCallee? at hcallee
  split at hcallee
  next info callee args creation hnode =>
    split at hcallee
    next hnamed =>
      refine ⟨callee, Option.some.inj hcallee, ?_, ?_⟩
      · rw [hnode]
        exact List.mem_cons_self
      · simpa [isNamedCallee] using hnamed
    next => cases hcallee
  next => cases hcallee

end Place

/-- Elements are those of some parameters, in their order.  Their types are left
open. -/
structure ParameterElement.AreOf (uri : String) (params : List Param)
    (elements : List ParameterElement) : Prop where
  params : elements.map ParameterElement.param = params
  library : ∀ x ∈ elements, x.library = uri

def NotedAt (units : List CompilationUnit) (kind : Place → Bool) (n : NodeId) : Prop :=
  ∃ u ∈ units, ∃ p ∈ Place.walk (.unit u), p.node.id = n ∧ kind p = true

theorem NotedAt.kind_eq {units : List CompilationUnit} (hunits : Numbered units)
    {kind : Place → Bool} {u : CompilationUnit} (hu : u ∈ units) (hp : p ∈ Place.walk (.unit u))
    (hnoted : NotedAt units kind p.node.id) : kind p = true := by
  obtain ⟨u', hu', p', hp', hid, hkind⟩ := hnoted
  obtain ⟨-, rfl⟩ := hunits u' hu' u hu p' hp' p hp hid
  exact hkind

def Place.MayMean (units : List CompilationUnit) (u : CompilationUnit) (p : Place)
    (found : Option Element) : Prop :=
  ∀ name, p.readName? = some name → p ∈ Place.walkCode (.unit u) →
    ((Facts.initial (.ofUnits units)).contextAt (.ofUnits units) u.uri p).Finds p name found

theorem Place.mayMean_of_none {units : List CompilationUnit} {u : CompilationUnit}
    {found : Option Element} (hread : p.readName? = none) : p.MayMean units u found := by
  intro name hname
  rw [hread] at hname
  cases hname

/-- What facts note and where.  At the calls in `skip` the meaning of the callee may
be noted already and that of the call not yet; the functions `signed` have their
signatures. -/
structure Facts.Noted (units : List CompilationUnit) (skip : Place → Prop)
    (signed : NodeId → Prop) (f : Facts) : Prop where
  operators : NodeMap.All (fun n _ => NotedAt units Place.appliesOperator n) f.operators
  reads : NodeMap.All (fun n _ => NotedAt units Place.readsFirst n) f.reads
  writes : NodeMap.All (fun n _ => NotedAt units Place.isWriting n) f.writes
  meanings : NodeMap.All (fun n _ => NotedAt units Place.hasMeaning n) f.meanings
  names : ∀ u ∈ units, ∀ p ∈ Place.walk (.unit u),
    (f.meanings[p.node.id]?).isSome ∨ (f.staticTypes[p.node.id]?).isSome →
    p.MayMean units u f.meanings[p.node.id]?
  calls : ∀ u ∈ units, ∀ p ∈ Place.walk (.unit u), ¬skip p → ∀ n, p.namedCallee? = some n →
    ∀ e : ExecutableElement, e.kind = .getter → f.meanings[n]? = some (.executable e) →
    f.meanings[p.node.id]? = some (.executable e)
  outer : ∀ u ∈ units, ∀ p ∈ Place.walk (.unit u), p.isOuter = true →
    f.declared[p.node.id]? = (Facts.initial (.ofUnits units)).declared[p.node.id]?
  declared : NodeMap.All (fun n e => e.id.node = n) f.declared
  signatures : ∀ u ∈ units, ∀ p ∈ Place.walk (.unit u), ∀ d, p.node = .functionDecl d →
    ∀ s, f.signatures[d.id]? = some s → ParameterElement.AreOf u.uri d.params s.params
  signed : ∀ n, signed n → (f.signatures[n]?).isSome

namespace Facts.Noted

variable {units : List CompilationUnit} {skip skip' : Place → Prop} {signed : NodeId → Prop}
  {f : Facts}

theorem congr (hf : f.Noted units skip signed) {f' : Facts} (hoperators : f'.operators = f.operators)
    (hreads : f'.reads = f.reads) (hwrites : f'.writes = f.writes)
    (hmeanings : f'.meanings = f.meanings) (htypes : f'.staticTypes = f.staticTypes)
    (hdeclared : f'.declared = f.declared) (hsignatures : f'.signatures = f.signatures) :
    f'.Noted units skip signed where
  operators := hoperators ▸ hf.operators
  reads := hreads ▸ hf.reads
  writes := hwrites ▸ hf.writes
  meanings := hmeanings ▸ hf.meanings
  names := hmeanings ▸ htypes ▸ hf.names
  calls := hmeanings ▸ hf.calls
  outer := hdeclared ▸ hf.outer
  declared := hdeclared ▸ hf.declared
  signatures := hsignatures ▸ hf.signatures
  signed := hsignatures ▸ hf.signed

theorem mono (hf : f.Noted units skip signed) (hskip : ∀ p, skip p → skip' p) :
    f.Noted units skip' signed :=
  { hf with calls := fun u hu p hp hnot => hf.calls u hu p hp fun h => hnot (hskip p h) }

/-- A call that was left out has to be seen to. -/
theorem close (hf : f.Noted units (fun q => q = p ∨ skip q) signed)
    (hcall : ∀ n, p.namedCallee? = some n → ∀ e : ExecutableElement, e.kind = .getter →
      f.meanings[n]? = some (.executable e) → f.meanings[p.node.id]? = some (.executable e)) :
    f.Noted units skip signed := by
  refine { hf with calls := fun u hu q hq hskip => ?_ }
  by_cases hqp : q = p
  · subst hqp
    exact hcall
  · exact hf.calls u hu q hq fun hor => hor.elim hqp hskip

section
variable (hunits : Numbered units) {u : CompilationUnit} (hu : u ∈ units) {p : Place}
  (hp : p ∈ Place.walk (.unit u)) (hf : f.Noted units skip signed)
include hu hp hf

theorem setOperator (hkind : p.appliesOperator = true) (e : ExecutableElement) :
    ({ f with operators := f.operators.insert p.node.id e } : Facts).Noted units skip signed :=
  { hf with operators := hf.operators.insert ⟨u, hu, p, hp, rfl, hkind⟩ }

theorem setRead (hkind : p.readsFirst = true) (e : Element) :
    ({ f with reads := f.reads.insert p.node.id e } : Facts).Noted units skip signed :=
  { hf with reads := hf.reads.insert ⟨u, hu, p, hp, rfl, hkind⟩ }

theorem setWrite (hkind : p.isWriting = true) (e : Element) :
    ({ f with writes := f.writes.insert p.node.id e } : Facts).Noted units skip signed :=
  { hf with writes := hf.writes.insert ⟨u, hu, p, hp, rfl, hkind⟩ }

include hunits

/-- A name that is read has to have its meaning before its type. -/
theorem setType (hmean : p.MayMean units u f.meanings[p.node.id]?) (type : TypeId) :
    ({ f with staticTypes := f.staticTypes.insert p.node.id type } : Facts).Noted units skip
      signed := by
  refine { hf with names := fun u' hu' p' hp' hsome => ?_ }
  by_cases hid : p'.node.id = p.node.id
  · obtain ⟨rfl, rfl⟩ := hunits u' hu' u hu p' hp' p hp hid
    exact hmean
  · rw [Resolving.getElem?_insert_ne _ _ hid] at hsome
    exact hf.names u' hu' p' hp' hsome

theorem setMissing (hmean : p.MayMean units u none) (type : TypeId) :
    ({ f with staticTypes := f.staticTypes.insert p.node.id type } : Facts).Noted units skip
      signed := by
  refine setType hunits hu hp hf (fun name hread hcode => ?_) type
  have hfinds := hmean name hread hcode
  -- A meaning that was there before would have to be found again.
  cases hmeaning : f.meanings[p.node.id]? with
  | none => exact hfinds
  | some e =>
    have hold := hf.names u hu p hp (.inl (by rw [hmeaning]; rfl)) name hread hcode
    rw [hmeaning] at hold
    cases hfinds.isSome_eq hold

theorem setMeaning (hkind : p.hasMeaning = true) (hmean : p.MayMean units u (some e))
    (hcall : p.namedCallee? = none ∨ skip p)
    (hcallee : p.isNamedCallee = true → ∀ parent ∈ p.parent?, skip parent) :
    ({ f with meanings := f.meanings.insert p.node.id e } : Facts).Noted units skip signed := by
  refine { hf with meanings := hf.meanings.insert ⟨u, hu, p, hp, rfl, hkind⟩, names := ?_, calls := ?_ }
  · intro u' hu' p' hp' hsome
    by_cases hid : p'.node.id = p.node.id
    · obtain ⟨rfl, rfl⟩ := hunits u' hu' u hu p' hp' p hp hid
      simpa using hmean
    · rw [Resolving.getElem?_insert_ne _ _ hid] at hsome ⊢
      exact hf.names u' hu' p' hp' hsome
  · intro u' hu' p' hp' hskip n hn g hg hmeaning
    have hother : p'.node.id ≠ p.node.id := by
      intro hid
      obtain ⟨rfl, rfl⟩ := hunits u' hu' u hu p' hp' p hp hid
      rcases hcall with hnone | hskipped
      · rw [hnone] at hn
        cases hn
      · exact hskip hskipped
    obtain ⟨callee, rfl, hchild, hnamed⟩ := Place.exists_callee hn
    have hotherCallee : callee.id ≠ p.node.id := by
      intro hid
      obtain ⟨rfl, rfl⟩ := hunits u' hu' u hu _ (Place.mem_walk_child hp' hchild) p hp hid
      exact hskip (hcallee hnamed p' rfl)
    rw [Resolving.getElem?_insert_ne _ _ hotherCallee] at hmeaning
    rw [Resolving.getElem?_insert_ne _ _ hother]
    exact hf.calls u' hu' p' hp' hskip _ hn g hg hmeaning

theorem setNamed (hkind : p.hasMeaning = true) (hmean : p.MayMean units u (some e))
    (hcall : p.namedCallee? = none ∨ skip p)
    (hcallee : p.isNamedCallee = true → ∀ parent ∈ p.parent?, skip parent) (type : TypeId) :
    ({ f with
        meanings := f.meanings.insert p.node.id e
        staticTypes := f.staticTypes.insert p.node.id type } : Facts).Noted units skip signed := by
  have hmeaning := setMeaning hunits hu hp hf hkind hmean hcall hcallee
  exact setType hunits hu hp hmeaning (by simpa using hmean) type

theorem setDeclared (houter : p.isOuter = false) (hid : e.id.node = p.node.id) :
    ({ f with declared := f.declared.insert p.node.id e } : Facts).Noted units skip signed := by
  refine { hf with declared := hf.declared.insert hid, outer := fun u' hu' p' hp' houter' => ?_ }
  have hother : p'.node.id ≠ p.node.id := by
    intro hsame
    obtain ⟨rfl, rfl⟩ := hunits u' hu' u hu p' hp' p hp hsame
    rw [houter] at houter'
    cases houter'
  rw [Resolving.getElem?_insert_ne _ _ hother]
  exact hf.outer u' hu' p' hp' houter'

theorem setSignature {s : Signature}
    (hs : ∀ d, p.node = .functionDecl d → ParameterElement.AreOf u.uri d.params s.params) :
    ({ f with signatures := f.signatures.insert p.node.id s } : Facts).Noted units skip signed := by
  refine { hf with signatures := ?_, signed := ?_ }
  · intro u' hu' p' hp' d hd s' hs'
    by_cases hid : p'.node.id = p.node.id
    · obtain ⟨rfl, rfl⟩ := hunits u' hu' u hu p' hp' p hp hid
      have hsame : d.id = p'.node.id := by rw [hd]; rfl
      rw [hsame, Std.TreeMap.getElem?_insert_self] at hs'
      exact Option.some.inj hs' ▸ hs d hd
    · have hother : d.id ≠ p.node.id := by
        rw [hd] at hid
        exact hid
      rw [Resolving.getElem?_insert_ne _ _ hother] at hs'
      exact hf.signatures u' hu' p' hp' d hd s' hs'
  · exact fun n hn => Resolving.isSome_insert f.signatures p.node.id s (hf.signed n hn)

end

end Facts.Noted

/-! ## Steps -/

namespace Resolving

def Preserves {α : Type} (inv : Facts → Prop) (step : Resolving α) : Prop :=
  ∀ f, inv f → inv (step.run f).2

section
variable {α β : Type} {inv : Facts → Prop} {step : Resolving α}

theorem Preserves.pure (a : α) : Preserves inv (Pure.pure a) :=
  fun _ hf => hf

theorem preserves_get : Preserves inv get :=
  fun _ hf => hf

theorem preserves_modify {update : Facts → Facts} (hupdate : ∀ f, inv f → inv (update f)) :
    Preserves inv (modify update) :=
  hupdate

theorem Preserves.bind {next : α → Resolving β} (hstep : Preserves inv step)
    (hnext : ∀ a, Preserves inv (next a)) : Preserves inv (step >>= next) :=
  fun f hf => hnext _ _ (hstep f hf)

theorem Preserves.done (hstep : Preserves inv step) (result : α → β) :
    Preserves inv (step >>= fun a => Pure.pure (result a)) :=
  hstep.bind fun _ => .pure _

theorem preserves_read (find : Facts → β) : Preserves inv (do return find (← get)) :=
  preserves_get.done find

/-- Something may be known of every value of the first step. -/
theorem Preserves.bind_of {next : α → Resolving β} {Q : α → Prop} (hstep : Preserves inv step)
    (hvalue : ∀ f, Q (step.run f).1) (hnext : ∀ a, Q a → Preserves inv (next a)) :
    Preserves inv (step >>= next) :=
  fun f hf => hnext _ (hvalue f) _ (hstep f hf)

theorem preserves_forM {act : α → Resolving Unit} {l : List α}
    (hact : ∀ a ∈ l, Preserves inv (act a)) : Preserves inv (l.forM act) := by
  induction l with
  | nil => exact .pure ()
  | cons a l ih =>
    exact (hact a List.mem_cons_self).bind fun _ => ih fun b hb =>
      hact b (List.mem_cons_of_mem a hb)

end

section
variable {units : List CompilationUnit} {skip : Place → Prop} {signed : NodeId → Prop}
variable (node : NodeId) (type : TypeId)

abbrev Notes {α : Type} (units : List CompilationUnit) (skip : Place → Prop)
    (signed : NodeId → Prop) (step : Resolving α) : Prop :=
  Preserves (Facts.Noted units skip signed) step

theorem notes_warn (code : String) (span : Span) (message : Text) :
    Notes units skip signed (warn code span message) :=
  preserves_modify fun _ hf => hf.congr rfl rfl rfl rfl rfl rfl rfl

theorem notes_notice (n : Notice) : Notes units skip signed (notice n) :=
  preserves_modify fun _ hf => hf.congr rfl rfl rfl rfl rfl rfl rfl

theorem notes_fail (fault : UnknownType) : Notes units skip signed (fail fault) :=
  preserves_modify fun _ hf => hf.congr rfl rfl rfl rfl rfl rfl rfl

theorem notes_setVariableType : Notes units skip signed (setVariableType node type) :=
  preserves_modify fun _ hf => hf.congr rfl rfl rfl rfl rfl rfl rfl

theorem notes_setArgument (p : ParameterElement) : Notes units skip signed (setArgument node p) :=
  preserves_modify fun _ hf => hf.congr rfl rfl rfl rfl rfl rfl rfl

theorem notes_setCatchType : Notes units skip signed (setCatchType node type) :=
  preserves_modify fun _ hf => hf.congr rfl rfl rfl rfl rfl rfl rfl

theorem notes_newFunction (params : List TypeId) (returns : TypeId) :
    Notes units skip signed (newFunction params returns) :=
  fun _ hf => hf.congr rfl rfl rfl rfl rfl rfl rfl

theorem notes_undefinedName (ctx : BodyContext) (info : NodeInfo) (name : String) :
    Notes units skip signed (undefinedName ctx info name) :=
  notes_warn _ _ _

theorem notes_callResult : Notes units skip signed (callResult type) := by
  refine preserves_get.bind fun f => ?_
  split
  · exact .pure _
  · exact .pure _
  · exact (notes_fail _).done _

/-! ## Types -/

theorem notes_resolveTypeName (w : Workspace) (uri : String) (t : TypeName) :
    Notes units skip signed (resolveTypeName w uri t) := by
  unfold resolveTypeName
  split
  · exact .pure _
  · exact .pure _
  · exact .pure _
  · split
    · exact .pure _
    · exact (notes_warn _ _ _).done _

mutual

theorem notes_resolveType (w : Workspace) (uri : String) :
    (t : TypeRef) → Notes units skip signed (resolveType w uri t)
  | .named t => notes_resolveTypeName w uri t
  | .function _ returns params _ => by
    refine (notes_resolveType? w uri returns).bind fun ty => ?_
    exact (notes_resolveTypes w uri params).bind fun tys => notes_newFunction tys ty

theorem notes_resolveType? (w : Workspace) (uri : String) :
    (t : Option TypeRef) → Notes units skip signed (resolveType? w uri t)
  | none => .pure _
  | some t => notes_resolveType w uri t

theorem notes_resolveTypes (w : Workspace) (uri : String) :
    (ts : List TypeRef) → Notes units skip signed (resolveTypes w uri ts)
  | [] => .pure _
  | t :: rest => by
    refine (notes_resolveType w uri t).bind fun ty => ?_
    exact (notes_resolveTypes w uri rest).done _

end

end

end Resolving

end CheckedThrows
