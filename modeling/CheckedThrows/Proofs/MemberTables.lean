import CheckedThrows.Proofs.Coverage

/-!
# The tables of a class

A member is accepted if the key under which it is looked for is free, and then it
is entered under all its keys.  So the first accepted member of a key is the only
one, with one exception: a field that can be assigned takes the place of a setter
that is declared before it.
-/

namespace CheckedThrows

open List

variable {d : Member} {before after : List Member} {u : CompilationUnit} {c : ClassElement}
  {j : ClassInfo}
variable (kept ds : List Member) {e : Element}

inductive MemberTable
  | methods | getters | setters | constructors
  deriving DecidableEq

structure MemberKey where
  table : MemberTable
  name : String
  deriving DecidableEq

def FunctionKind.table : FunctionKind → MemberTable
  | .getter => .getters
  | .setter => .setters
  | .constructor => .constructors
  | _ => .methods

namespace Member

variable {name : String}

def isAssignable (d : VarDecl) : Bool :=
  !(d.modifiers.isFinal || d.modifiers.isConst)

def key : Member → MemberKey
  | .variable d => ⟨.getters, d.name⟩
  | .function d => ⟨d.kind.table, d.name⟩

def keys : Member → List MemberKey
  | .variable d =>
    if isAssignable d then [⟨.getters, d.name⟩, ⟨.setters, d.name⟩] else [⟨.getters, d.name⟩]
  | .function d => [⟨d.kind.table, d.name⟩]

def element (owner : ClassElement) : Member → Element
  | .variable d => .variable ⟨.declared d, owner.library, some owner⟩
  | .function d => .executable ⟨.declared d, owner.library, some owner⟩

def isTaken (earlier : List Member) (d : Member) : Bool :=
  earlier.any fun m => d.key ∈ m.keys

/-- The members that are accepted, after others that are: their keys are free when
their turn comes. -/
def acceptedAfter (kept : List Member) : List Member → List Member
  | [] => kept
  | d :: ds => acceptedAfter (if isTaken kept d then kept else kept ++ [d]) ds

def accepted (ds : List Member) : List Member :=
  acceptedAfter [] ds

theorem key_mem_keys (d : Member) : d.key ∈ d.keys := by
  cases d with
  | «variable» d =>
    rw [keys]
    split <;> exact mem_cons_self
  | function d => exact mem_cons_self

theorem eq_of_mem_keys {k : MemberKey} (hk : k ∈ d.keys) :
    k = d.key ∨ ∃ v, d = .variable v ∧ isAssignable v ∧ k = ⟨.setters, v.name⟩ := by
  cases d with
  | «variable» v =>
    rw [keys] at hk
    split at hk
    next hassignable =>
      rcases mem_pair.mp hk with rfl | rfl
      · exact .inl rfl
      · exact .inr ⟨v, rfl, hassignable, rfl⟩
    next => exact .inl (mem_singleton.mp hk)
  | function d => exact .inl (mem_singleton.mp hk)

theorem exists_function_of_key (hkey : d.key = ⟨.setters, name⟩) :
    ∃ f, d = .function f := by
  cases d with
  | «variable» v => cases hkey
  | function f => exact ⟨f, rfl⟩

theorem mem_keys_variable {d : VarDecl} {table : MemberTable} :
    ⟨table, name⟩ ∈ keys (.variable d) ↔
      name = d.name ∧ (table = .getters ∨ table = .setters ∧ isAssignable d) := by
  rw [keys]
  split
  next hassignable =>
    simp only [mem_pair, MemberKey.mk.injEq, hassignable, and_true]
    tauto
  next hfixed =>
    simp only [mem_singleton, MemberKey.mk.injEq]
    tauto

theorem mem_keys_function {d : FunctionDecl} {table : MemberTable} :
    ⟨table, name⟩ ∈ keys (.function d) ↔ table = d.kind.table ∧ name = d.name := by
  rw [keys, mem_singleton, MemberKey.mk.injEq]

theorem subset_acceptedAfter : kept ⊆ acceptedAfter kept ds := by
  induction ds generalizing kept with
  | nil => exact List.Subset.refl _
  | cons d ds ih =>
    rw [acceptedAfter]
    split
    · exact ih kept
    · exact List.Subset.trans (subset_append_left _ _) (ih _)

theorem acceptedAfter_subset : acceptedAfter kept ds ⊆ kept ++ ds := by
  induction ds generalizing kept with
  | nil => exact subset_append_left _ _
  | cons d ds ih =>
    rw [acceptedAfter]
    split
    · exact List.Subset.trans (ih kept) ((sublist_cons_self d ds).append_left kept).subset
    · rw [append_cons kept d ds]
      exact ih _

theorem acceptedAfter_append (before after : List Member) :
    acceptedAfter kept (before ++ after) = acceptedAfter (acceptedAfter kept before) after := by
  induction before generalizing kept with
  | nil => rfl
  | cons d before ih => exact ih _

/-- Where members have different numbers, one of them is accepted unless its key is
taken when its turn comes. -/
theorem mem_accepted_iff
    (hids : ((before ++ d :: after).map id).Nodup) :
    d ∈ accepted (before ++ d :: after) ↔ isTaken (accepted before) d = false := by
  unfold accepted
  rw [acceptedAfter_append, acceptedAfter]
  cases isTaken (acceptedAfter [] before) d with
  | false =>
    simp only [Bool.false_eq_true, if_false, iff_true]
    exact subset_acceptedAfter _ _ (mem_append_right _ mem_cons_self)
  | true =>
    simp only [if_true, Bool.true_eq_false, iff_false]
    rw [map_append, map_cons, nodup_middle, nodup_cons, mem_append] at hids
    intro hd
    rcases mem_append.mp (acceptedAfter_subset _ _ hd) with hbefore | hafter
    · have hmem : d ∈ before := acceptedAfter_subset [] before hbefore
      exact hids.1 (.inl (mem_map_of_mem hmem))
    · exact hids.1 (.inr (mem_map_of_mem hafter))

end Member

namespace Members

variable (owner : ClassElement) (m : Members) {d : Member}

def under? (m : Members) (k : MemberKey) : Option Element :=
  match k.table with
  | .methods => (m.methods.lookup k.name).map .executable
  | .getters => (m.getters.lookup k.name).map Property.toElement
  | .setters => (m.setters.lookup k.name).map Property.toElement
  | .constructors => (m.constructors.lookup k.name).map .executable

def add (owner : ClassElement) (m : Members) : Member → Members
  | .variable d => m.addVariable owner d
  | .function d => m.addFunction owner d

theorem isFree_eq (d : Member) : m.isFree d = (m.under? d.key).isNone := by
  cases d with
  | «variable» d => exact Option.isNone_map.symm
  | function d =>
    simp only [isFree, under?, Member.key]
    cases d.kind <;> exact Option.isNone_map.symm

theorem lookup_insert {α : Type} (table : NameTable α) (name x : String) (value : α) :
    (NameTable.insert name value table).lookup x = if x = name then some value else table.lookup x := by
  induction table with
  | nil =>
    by_cases hx : x = name
    · simp [NameTable.insert, hx]
    · simp [NameTable.insert, hx, lookup_cons, beq_false_of_ne hx]
  | cons entry table ih =>
    obtain ⟨n, old⟩ := entry
    rw [NameTable.insert]
    by_cases hn : n = name
    · subst hn
      by_cases hx : x = n
      · simp [hx]
      · simp [hx, lookup_cons, beq_false_of_ne hx]
    · rw [if_neg hn]
      by_cases hx : x = n
      · subst hx
        simp [hn]
      · rw [lookup_cons, lookup_cons, beq_false_of_ne hx]
        exact ih

theorem lookup_concat {α : Type} {table : NameTable α} {name : String}
    (hfree : table.lookup name = none) (value : α) (x : String) :
    (table ++ [(name, value)]).lookup x = if x = name then some value else table.lookup x := by
  rw [lookup_append]
  by_cases hx : x = name
  · subst hx
    simp [hfree]
  · simp [hx, lookup_cons, beq_false_of_ne hx]

theorem under?_add {owner : ClassElement} {m : Members} (hfree : m.isFree d = true)
    (k : MemberKey) :
    (m.add owner d).under? k = if k ∈ d.keys then some (d.element owner) else m.under? k := by
  obtain ⟨table, x⟩ := k
  cases d with
  | «variable» d =>
    have hnone : m.getters.lookup d.name = none := Option.isNone_iff_eq_none.mp hfree
    simp only [Member.mem_keys_variable]
    cases table with
    | methods => simp [under?, add, addVariable]
    | getters =>
      simp only [under?, add, addVariable, lookup_concat hnone]
      by_cases hx : x = d.name <;> simp [hx, Member.element, Property.toElement]
    | setters =>
      have hsame : (!(d.modifiers.isFinal || d.modifiers.isConst)) = Member.isAssignable d := rfl
      simp only [under?, add, addVariable, hsame]
      cases Member.isAssignable d with
      | true =>
        rw [if_pos rfl, lookup_insert]
        by_cases hx : x = d.name <;> simp [hx, Member.element, Property.toElement]
      | false => simp
    | constructors => simp [under?, add, addVariable]
  | function d =>
    rw [isFree_eq, Option.isNone_iff_eq_none] at hfree
    simp only [Member.mem_keys_function]
    simp only [under?, Member.key] at hfree
    simp only [under?, add, addFunction]
    cases hkind : d.kind <;> simp only [hkind, FunctionKind.table, Option.map_eq_none_iff] at hfree ⊢ <;>
      cases table <;> simp only [lookup_concat hfree] <;>
      by_cases hx : x = d.name <;> simp [hx, Member.element, Property.toElement]

theorem accepted_add (d : Member) : (m.add owner d).accepted = m.accepted ++ [d.element owner] := by
  cases d with
  | «variable» d => exact accepted_addVariable owner m d
  | function d => exact accepted_addFunction owner m d

theorem declareAll_cons (d : Member) (ds : List Member) :
    m.declareAll owner (d :: ds) =
      if m.isFree d then (m.add owner d).declareAll owner ds
      else ((m.declareAll owner ds).1,
        alreadyDefined owner.library d.name d.info.extent :: (m.declareAll owner ds).2) := by
  cases d <;> rfl

/-- The tables after some members are accepted: under each key is the last of them
that contributes it. -/
structure Holds (owner : ClassElement) (kept : List Member) (m : Members) : Prop where
  accepted : m.accepted = kept.map (Member.element owner)
  entry : ∀ k, m.under? k = (kept.reverse.find? fun d => k ∈ d.keys).map (Member.element owner)
  free : kept.Pairwise fun d d' => d'.key ∉ d.keys

theorem holds_nil : Holds owner [] {} := by
  refine ⟨rfl, fun k => ?_, .nil⟩
  obtain ⟨table, name⟩ := k
  cases table <;> rfl

namespace Holds

variable {k : MemberKey}
variable {owner : ClassElement} {kept : List Member} {m : Members} (h : Holds owner kept m)
include h

theorem isFree (d : Member) : m.isFree d = !Member.isTaken kept d := by
  rw [isFree_eq, h.entry, Option.isNone_map, Member.isTaken, Bool.eq_iff_iff]
  simp

theorem add (hfree : m.isFree d = true) : Holds owner (kept ++ [d]) (m.add owner d) := by
  refine ⟨?_, ?_, ?_⟩
  · rw [accepted_add, h.accepted, map_append]
    rfl
  · intro k
    rw [under?_add hfree, reverse_append, h.entry]
    by_cases hk : k ∈ d.keys
    · simp [hk]
    · simp [hk]
  · rw [h.isFree, Member.isTaken, Bool.not_eq_true', any_eq_false] at hfree
    rw [pairwise_append]
    refine ⟨h.free, pairwise_singleton _ _, fun d' hd' e he => ?_⟩
    obtain rfl := mem_singleton.mp he
    simpa using hfree d' hd'

omit h in
theorem setter_of_two {d' : Member} (hfree : d'.key ∉ d.keys) (hk : k ∈ d.keys)
    (hk' : k ∈ d'.keys) :
    k = ⟨.setters, d.name⟩ ∧ d.key = k ∧ ∃ v, d' = .variable v ∧ Member.isAssignable v := by
  rcases Member.eq_of_mem_keys hk' with rfl | ⟨v, rfl, hassignable, rfl⟩
  · exact absurd hk hfree
  · cases d with
    | «variable» w =>
      have hname : v.name = w.name := (Member.mem_keys_variable.mp hk).1
      exact absurd (Member.mem_keys_variable.mpr ⟨hname, .inl rfl⟩) hfree
    | function f =>
      obtain ⟨htable, hname⟩ := Member.mem_keys_function.mp hk
      exact ⟨by rw [hname]; rfl, by rw [Member.key, ← htable, hname], v, rfl, hassignable⟩

/-- An accepted member is found under each of its keys, unless it is a setter and a
field of its name that can be assigned is accepted, too. -/
theorem entry_iff (hd : d ∈ kept) (hk : k ∈ d.keys) :
    m.under? k = some (d.element owner) ↔
      ¬(d.key = ⟨.setters, d.name⟩ ∧ ∃ v, Member.variable v ∈ kept ∧ Member.isAssignable v ∧
        v.name = d.name) := by
  obtain ⟨before, after, rfl⟩ := append_of_mem hd
  obtain ⟨-, hlater, hearlier⟩ := pairwise_append.mp h.free
  have hlast : (before ++ d :: after).reverse.find? (fun d => k ∈ d.keys) =
      (after.reverse.find? fun d => k ∈ d.keys).or (some d) := by
    simp [reverse_append, find?_append, hk]
  rw [h.entry, hlast]
  cases hfind : after.reverse.find? fun d => k ∈ d.keys with
  | none =>
    refine ⟨fun _ => ?_, fun _ => rfl⟩
    -- A field after the setter would contribute its key, and one before it would have kept it out.
    rintro ⟨hsetter, v, hv, hassignable, hname⟩
    have hkey : d.key ∈ (Member.variable v).keys := by
      rw [hsetter, ← hname]
      exact Member.mem_keys_variable.mpr ⟨rfl, .inr ⟨rfl, hassignable⟩⟩
    rcases mem_append.mp hv with hbefore | hrest
    · exact hearlier _ hbefore d mem_cons_self hkey
    · obtain ⟨f, rfl⟩ := Member.exists_function_of_key hsetter
      obtain rfl : k = (Member.function f).key := mem_singleton.mp hk
      rcases mem_cons.mp hrest with heq | hafter
      · cases heq
      · exact find?_eq_none.mp hfind _ (mem_reverse.mpr hafter) (decide_eq_true hkey)
  | some d' =>
    have hmem : d' ∈ after := mem_reverse.mp (mem_of_find?_eq_some hfind)
    have hk' : k ∈ d'.keys := by simpa using find?_some hfind
    obtain ⟨rfl, hkey, v, rfl, hassignable⟩ :=
      setter_of_two (rel_of_pairwise_cons hlater hmem) hk hk'
    have hname : v.name = d.name := (Member.mem_keys_variable.mp hk').1.symm
    constructor
    · intro helement
      obtain ⟨f, rfl⟩ := Member.exists_function_of_key hkey
      cases Option.some.inj helement
    · intro hnone
      have hv : Member.variable v ∈ before ++ d :: after :=
        mem_append_right _ (mem_cons_of_mem _ hmem)
      exact absurd ⟨hkey, v, hv, hassignable, hname⟩ hnone

theorem declareAll (ds : List Member) :
    Holds owner (Member.acceptedAfter kept ds) (m.declareAll owner ds).1 ∧
      ∀ before d after, ds = before ++ d :: after →
        Member.isTaken (Member.acceptedAfter kept before) d = true →
        alreadyDefined owner.library d.name d.info.extent ∈ (m.declareAll owner ds).2 := by
  induction ds generalizing kept m with
  | nil => exact ⟨h, fun before d after heq => by simp at heq⟩
  | cons d ds ih =>
    rw [declareAll_cons, Member.acceptedAfter, h.isFree d]
    cases htaken : Member.isTaken kept d with
    | true =>
      obtain ⟨hholds, hreports⟩ := ih h
      refine ⟨hholds, fun before d' after heq htaken' => ?_⟩
      cases before with
      | nil =>
        obtain ⟨rfl, -⟩ := List.cons.inj heq
        exact mem_cons_self
      | cons first before =>
        obtain ⟨rfl, rfl⟩ := List.cons.inj heq
        rw [Member.acceptedAfter, htaken, if_pos rfl] at htaken'
        exact mem_cons_of_mem _ (hreports before d' after rfl htaken')
    | false =>
      obtain ⟨hholds, hreports⟩ := ih (h.add (d := d) (by rw [h.isFree, htaken]; rfl))
      refine ⟨hholds, fun before d' after heq htaken' => ?_⟩
      cases before with
      | nil =>
        obtain ⟨rfl, -⟩ := List.cons.inj heq
        rw [Member.acceptedAfter, htaken] at htaken'
        cases htaken'
      | cons first before =>
        obtain ⟨rfl, rfl⟩ := List.cons.inj heq
        rw [Member.acceptedAfter, htaken] at htaken'
        exact hreports before d' after rfl htaken'

theorem isEmpty_constructors :
    m.constructors.isEmpty = true ↔ ∀ d ∈ kept, d.key.table ≠ .constructors := by
  constructor
  · intro hempty d hd hkey
    have hfound := h.entry d.key
    rw [under?, hkey, isEmpty_iff.mp hempty] at hfound
    have hnone := find?_eq_none.mp (Option.map_eq_none_iff.mp hfound.symm) d
      (mem_reverse.mpr hd)
    exact hnone (decide_eq_true d.key_mem_keys)
  · intro hnone
    cases hconstructors : m.constructors with
    | nil => rfl
    | cons entry rest =>
      obtain ⟨name, e⟩ := entry
      have hfound := h.entry ⟨.constructors, name⟩
      have hfirst : List.lookup name ((name, e) :: rest) = some e := by simp
      simp only [under?, hconstructors, hfirst, Option.map_some] at hfound
      obtain ⟨d, hd, -⟩ := Option.map_eq_some_iff.mp hfound.symm
      have hk : (⟨.constructors, name⟩ : MemberKey) ∈ d.keys := by
        simpa using find?_some hd
      have hmem := mem_reverse.mp (mem_of_find?_eq_some hd)
      rcases Member.eq_of_mem_keys hk with hkey | ⟨v, -, -, hkey⟩
      · exact absurd (congrArg MemberKey.table hkey).symm (hnone d hmem)
      · cases hkey

theorem under?_eq (hk : k.table ≠ .setters) :
    m.under? k = (kept.find? fun d => k ∈ d.keys).map (Member.element owner) := by
  cases hfind : kept.find? fun d => k ∈ d.keys with
  | none =>
    rw [h.entry, find?_eq_none.mpr]
    exact fun d hd => find?_eq_none.mp hfind d (mem_reverse.mp hd)
  | some d =>
    have hkey : k ∈ d.keys := by simpa using find?_some hfind
    refine (h.entry_iff (mem_of_find?_eq_some hfind) hkey).mpr ?_
    rintro ⟨hsetter, -⟩
    obtain ⟨f, rfl⟩ := Member.exists_function_of_key hsetter
    obtain rfl : k = (Member.function f).key := mem_singleton.mp hkey
    exact hk (congrArg MemberKey.table hsetter)

/-- Under the key of a setter is a field that can be assigned, if there is one, and
else the setter. -/
theorem under?_setters (x : String) :
    m.under? ⟨.setters, x⟩ =
      ((kept.find? fun d => d.key ≠ ⟨.setters, x⟩ ∧ ⟨.setters, x⟩ ∈ d.keys).or
        (kept.find? fun d => d.key = ⟨.setters, x⟩)).map (Member.element owner) := by
  cases hfield : kept.find? fun d => d.key ≠ ⟨.setters, x⟩ ∧ ⟨.setters, x⟩ ∈ d.keys with
  | some d =>
    obtain ⟨hkey, hk⟩ : d.key ≠ ⟨.setters, x⟩ ∧ ⟨.setters, x⟩ ∈ d.keys := by
      simpa using find?_some hfield
    refine (h.entry_iff (mem_of_find?_eq_some hfield) hk).mpr ?_
    rintro ⟨hsetter, -⟩
    obtain ⟨f, rfl⟩ := Member.exists_function_of_key hsetter
    exact hkey (mem_singleton.mp hk).symm
  | none =>
    have hnone : ∀ d ∈ kept, ⟨.setters, x⟩ ∈ d.keys → d.key = ⟨.setters, x⟩ := by
      intro d hd hk
      have hother := find?_eq_none.mp hfield d hd
      simp only [ne_eq, decide_eq_true_eq, not_and] at hother
      exact Decidable.not_not.mp fun hne => hother hne hk
    cases hsetter : kept.find? fun d => d.key = ⟨.setters, x⟩ with
    | some d =>
      have hkey : d.key = ⟨.setters, x⟩ := by simpa using find?_some hsetter
      have hd := mem_of_find?_eq_some hsetter
      refine (h.entry_iff hd (hkey ▸ d.key_mem_keys)).mpr ?_
      rintro ⟨hown, v, hv, hassignable, hname⟩
      have hx : x = v.name := by
        rw [hname]
        exact congrArg MemberKey.name (hkey.symm.trans hown)
      have hvariable := hnone _ hv (Member.mem_keys_variable.mpr ⟨hx, .inr ⟨rfl, hassignable⟩⟩)
      cases hvariable
    | none =>
      rw [h.entry, find?_eq_none.mpr]
      · rfl
      · intro d hd hk
        have hd := mem_reverse.mp hd
        have hkey := hnone d hd (of_decide_eq_true hk)
        exact find?_eq_none.mp hsetter d hd (decide_eq_true hkey)

end Holds

def implicit? (owner : ClassElement) (k : MemberKey) : Option Element :=
  if k = ⟨.constructors, ""⟩ ∧
      ∀ d ∈ Member.accepted owner.decl.members, d.key.table ≠ .constructors then
    some (.executable (implicitConstructor owner))
  else none

theorem exists_holds (owner : ClassElement) :
    ∃ m, Holds owner (Member.accepted owner.decl.members) m ∧
      (ofClass owner).1.accepted = m.accepted ∧
      ∀ k, (ofClass owner).1.under? k = (m.under? k).or (implicit? owner k) := by
  have hholds := ((holds_nil owner).declareAll owner.decl.members).1
  refine ⟨_, hholds, ?_, fun k => ?_⟩
  · unfold ofClass
    dsimp only
    split <;> rfl
  · unfold ofClass implicit?
    dsimp only
    have hempty := hholds.isEmpty_constructors
    split
    next hnone =>
      have hall := hempty.mp hnone
      obtain ⟨table, x⟩ := k
      cases table with
      | constructors =>
        by_cases hx : x = ""
        · subst hx
          rw [if_pos ⟨rfl, hall⟩]
          simp [under?, isEmpty_iff.mp hnone]
        · rw [if_neg fun h => hx (congrArg MemberKey.name h.1)]
          simp [under?, isEmpty_iff.mp hnone, hx]
      | _ =>
        rw [if_neg (by simp), Option.or_none]
        rfl
    next hsome =>
      have hall := fun h => hsome (hempty.mpr h)
      rw [if_neg fun h => hall h.2, Option.or_none]

theorem reports_ofClass (owner : ClassElement)
    (hmembers : owner.decl.members = before ++ d :: after)
    (htaken : Member.isTaken (Member.accepted before) d = true) :
    alreadyDefined owner.library d.name d.info.extent ∈ (ofClass owner).2 := by
  have hreports := ((holds_nil owner).declareAll owner.decl.members).2 before d after hmembers htaken
  unfold ofClass
  dsimp only
  split <;> exact hreports

end Members

/-! ## The classes of a workspace -/

@[simp] theorem Node.id_ofMember (m : Member) : (Node.ofMember m).id = m.id := by
  cases m <;> rfl

@[simp] theorem Node.id_ofDeclaration (d : Declaration) : (Node.ofDeclaration d).id = d.id := by
  cases d <;> rfl

theorem CompilationUnit.nodup_members
    (hnodup : (Node.unit u).numbers.Nodup) {d : ClassDecl}
    (hd : Declaration.class d ∈ u.declarations) : (d.members.map Member.id).Nodup := by
  have hclass : (Slot.other, Node.class d) ∈ (Node.unit u).children :=
    mem_append_right _ (mem_map.mpr ⟨.class d, hd, rfl⟩)
  have hnumbers := hnodup.sublist (Node.numbers_sublist hclass)
  have hchildren := (nodup_cons.mp (hnumbers.sublist (Node.class d).sublist_numbers)).2
  rw [Node.children, append_assoc, append_assoc, map_append, map_map] at hchildren
  simpa [Function.comp_def] using hchildren.of_append_left

theorem Library.classes_declareAll (l : Library) (t : TypeTable) (ds : List Declaration) :
    (l.declareAll t ds).1.classes.map ClassElement.decl =
      l.classes.map ClassElement.decl ++ ds.filterMap Declaration.toClass? := by
  induction ds generalizing l t with
  | nil => exact (append_nil _).symm
  | cons d ds ih =>
    have hclass : (elementOf l.uri t d).1.toClass?.toList.map ClassElement.decl =
        d.toClass?.toList := by
      cases d <;> rfl
    rw [declareAll_cons, ih, enter, map_append, hclass, append_assoc, filterMap_cons]
    cases d.toClass? <;> rfl

theorem Element.IsTopLevel.owner {cs : List ClassElement}
    (he : e.IsTopLevel u cs) : e.owner = none := by
  cases e with
  | «class» c => rfl
  | executable e =>
    obtain ⟨d, -, rfl⟩ := he
    rfl
  | «variable» v =>
    obtain ⟨d, -, rfl⟩ := he
    rfl
  | parameter p => rfl

namespace Workspace

theorem classes_declare (units : List CompilationUnit) :
    ∀ l ∈ (declare units).libraries,
      l.classes.map ClassElement.decl = l.unit.declarations.filterMap Declaration.toClass? := by
  apply forall_mem_declare
  intro t u _
  rw [Library.ofUnit, Library.classes_declareAll, Library.unit_declareAll]
  rfl

section
variable {units : List CompilationUnit} {l : Library} (hl : l ∈ (ofUnits units).libraries)
include hl

theorem classes_ofUnits :
    l.classes.map ClassElement.decl = l.unit.declarations.filterMap Declaration.toClass? := by
  rw [libraries_ofUnits] at hl
  obtain ⟨l₀, hl₀, rfl⟩ := mem_linkDirectives.mp hl
  have hsame := Library.link_declarations ((declare units).libraries.map Library.uri) l₀
  rw [hsame.classes, hsame.unit]
  exact classes_declare units l₀ hl₀

theorem class_eq_of_id (hnodup : (Node.unit l.unit).numbers.Nodup) {c' : ClassElement}
    (hc : c ∈ l.classes) (hc' : c' ∈ l.classes) (hid : c.decl.id = c'.decl.id) : c = c' := by
  have hids : ((l.unit.declarations.filterMap Declaration.toClass?).map ClassDecl.id).Nodup := by
    have hdeclarations : (l.unit.declarations.map Declaration.id).Nodup := by
      have hchildren := (nodup_cons.mp (hnodup.sublist (Node.unit l.unit).sublist_numbers)).2
      rw [Node.children, map_append, map_map, map_map] at hchildren
      simpa [Function.comp_def] using hchildren.of_append_right
    refine hdeclarations.sublist ?_
    induction l.unit.declarations with
    | nil => exact .slnil
    | cons d ds ih =>
      cases d with
      | «class» d => exact ih.cons_cons _
      | function d => exact ih.cons _
      | «variable» d => exact ih.cons _
  rw [← classes_ofUnits hl, map_map] at hids
  exact inj_on_of_nodup_map hids hc hc' hid

theorem mem_classes_of_library (hj : j ∈ (ofUnits units).classes)
    (huri : j.element.library = l.uri) : j.element ∈ l.classes := by
  have hdeclared := (members_ofUnits hj).1
  rw [declaredClasses, ← libraries_ofUnits] at hdeclared
  obtain ⟨l', hl', hclass⟩ := mem_flatMap.mp hdeclared
  have hsame : l'.uri = l.uri := ((library_ofUnits hl').2.classes _ hclass).2.symm.trans huri
  rwa [← inj_on_of_nodup_map (counted_ofUnits units).distinct hl' hl hsame]

omit hl in
theorem exists_member_of_accepted (hj : j ∈ (ofUnits units).classes)
    (he : e ∈ j.members.accepted) :
    ∃ m ∈ Member.accepted j.element.decl.members, m.element j.element = e := by
  obtain ⟨i, hi, helement, hmembers⟩ := mem_classes_declareMembers hj
  rcases hmembers with hnone | hown
  · rw [hnone, (mem_classes_linkClasses hi).2.1] at he
    cases he
  · obtain ⟨tables, hholds, hsame, -⟩ := Members.exists_holds i.element
    rw [hown, hsame, hholds.accepted, ← helement] at he
    exact mem_map.mp he

theorem accepted_of_declared (hunits : Numbered units) (hnodup : (Node.unit l.unit).numbers.Nodup)
    (hc : c ∈ l.classes) {m : Member} (hm : m ∈ c.decl.members)
    (he : (Facts.initial (ofUnits units)).declared[m.id]? = some e) :
    m ∈ Member.accepted c.decl.members ∧ e = m.element c := by
  obtain ⟨hunit, hscope⟩ := library_ofUnits hl
  obtain ⟨hdecl, hlibrary⟩ := hscope.classes c hc
  have hplace := Place.member_mem_walk (Place.ofDeclaration_mem_walk hdecl) rfl hm
  have hstands := (Facts.ready_initial units).standsAt hunits hunit hplace (e := e) (by
    rw [Place.node_child, Node.id_ofMember]
    exact he)
  obtain ⟨-, haccepted⟩ := Facts.all_declared_initial (fun _ he => he) _ _ he
  have hrole : e.id.role ≠ .implicitConstructor := by
    rw [(plain_accepted haccepted).1]
    decide
  have howner : e.owner.map ClassElement.decl = some c.decl := by
    rw [hstands.owner, if_neg hrole]
    rfl
  rcases mem_append.mp haccepted with htop | hmember
  · obtain ⟨l', hl', hentry⟩ := mem_flatMap.mp htop
    obtain ⟨entry, hmem, rfl⟩ := mem_map.mp hentry
    rw [((library_ofUnits hl').2.scope entry hmem).owner] at howner
    cases howner
  · obtain ⟨j, hj, hmem⟩ := mem_flatMap.mp hmember
    obtain ⟨m', hm', rfl⟩ := exists_member_of_accepted hj hmem
    have hdecl' : j.element.decl = c.decl := by
      cases m' <;> exact Option.some.inj howner
    have huri : j.element.library = l.uri := by
      cases m' <;> exact hstands.library
    have hclass : j.element = c :=
      class_eq_of_id hl hnodup (mem_classes_of_library hl hj huri) hc (congrArg ClassDecl.id hdecl')
    have hnode : Node.ofMember m = Node.ofMember m' := by
      cases m' <;> exact hstands.node
    obtain rfl : m = m' := by
      cases m <;> cases m' <;> cases hnode <;> rfl
    rw [hclass] at hm' ⊢
    exact ⟨hm', rfl⟩

theorem exists_class_of_declared (hunits : Numbered units) {d : ClassDecl}
    (hd : Declaration.class d ∈ l.unit.declarations)
    (hdeclared : ((Facts.initial (ofUnits units)).declared[d.id]?).isSome) :
    ∃ i ∈ (ofUnits units).classes, i.element ∈ l.classes ∧ i.element.decl = d ∧
      i.members = (Members.ofClass i.element).1 ∧
      (Members.ofClass i.element).2 ⊆ (ofUnits units).warnings := by
  have hunit := (library_ofUnits hl).1
  obtain ⟨c, -, hclass, rfl, hlibrary⟩ := (Facts.ready_initial units).declaredClass hunits hunit
    (Place.ofDeclaration_mem_walk hd) rfl hdeclared
  obtain ⟨e, he, hto⟩ := Option.bind_eq_some_iff.mp hclass
  obtain ⟨-, haccepted⟩ := Facts.all_declared_initial (fun _ he => he) _ _ he
  obtain rfl : e = .class c := by
    cases e <;> cases hto
    rfl
  rcases mem_append.mp haccepted with htop | hmember
  · obtain ⟨l', hl', hentry⟩ := mem_flatMap.mp htop
    obtain ⟨entry, hmem, hc⟩ := mem_map.mp hentry
    have hscope := (library_ofUnits hl').2
    have hown : c ∈ l'.classes := by
      have hdeclares := hscope.scope entry hmem
      rwa [hc] at hdeclares
    have huri : l'.uri = l.uri := (hscope.classes c hown).2.symm.trans hlibrary
    obtain rfl := inj_on_of_nodup_map (counted_ofUnits units).distinct hl' hl huri
    obtain ⟨i, hi, rfl, hmembers, hwarnings⟩ :=
      exists_members_ofUnits hl hown ⟨entry, hmem, congrArg (fun e => e.id.node) hc⟩
    exact ⟨i, hi, hown, rfl, hmembers, hwarnings⟩
  · obtain ⟨j, hj, hmem⟩ := mem_flatMap.mp hmember
    obtain ⟨m, -, hm⟩ := exists_member_of_accepted hj hmem
    cases m <;> cases hm

end

end Workspace

/-- In every class that is declared, a member is rejected, and then reported, exactly
if an earlier accepted member contributes the key of it that has to be free.  Under a key of
another table than that of setters is the first accepted member that contributes
it, or the implicit constructor.  Under the key of a setter is a field that can be
assigned, if one is accepted, and else the setter.  So a member that is declared is
found under all its keys, unless it is a setter beside such a field: then the field
is found, though the setter was declared first. -/
theorem member_tables_ofUnits {next : NodeId} {sources : List Source}
    {parsed : List (Source × Except Diagnostic CompilationUnit)}
    (hparsed : Source.parseAll next sources = .ok parsed) {units : List CompilationUnit}
    (hunits : units ⊆ parsed.filterMap Loaded.unitOf?) {l : Library}
    (hl : l ∈ (Workspace.ofUnits units).libraries) {d : ClassDecl}
    (hd : Declaration.class d ∈ l.unit.declarations)
    (hdeclared : ((Facts.initial (Workspace.ofUnits units)).declared[d.id]?).isSome) :
    ∃ i ∈ (Workspace.ofUnits units).classes, i.element.decl = d ∧ i.element.library = l.uri ∧
      (∀ before m after, d.members = before ++ m :: after →
        if Member.isTaken (Member.accepted before) m then
          (Facts.initial (Workspace.ofUnits units)).declared[m.id]? = none ∧
            Members.alreadyDefined l.uri m.name m.info.extent ∈ (Workspace.ofUnits units).warnings
        else
          (Facts.initial (Workspace.ofUnits units)).declared[m.id]? = some (m.element i.element)) ∧
      (∀ k : MemberKey, k.table ≠ .setters → i.members.under? k =
        (((Member.accepted d.members).find? fun m => k ∈ m.keys).map (Member.element i.element)).or
          (Members.implicit? i.element k)) ∧
      (∀ x, i.members.under? ⟨.setters, x⟩ =
        (((Member.accepted d.members).find? fun m =>
            m.key ≠ ⟨.setters, x⟩ ∧ ⟨.setters, x⟩ ∈ m.keys).or
          ((Member.accepted d.members).find? fun m => m.key = ⟨.setters, x⟩)).map
            (Member.element i.element)) ∧
      ∀ m ∈ d.members, ∀ e,
        (Facts.initial (Workspace.ofUnits units)).declared[m.id]? = some e →
        ∀ k ∈ m.keys, (i.members.under? k = some e ↔
          ¬(m.key = ⟨.setters, m.name⟩ ∧ ∃ v, Member.variable v ∈ Member.accepted d.members ∧
            Member.isAssignable v ∧ v.name = m.name)) := by
  have hnumbered := (Source.numberedFrom_parseAll hparsed).numbered.of_subset hunits
  obtain ⟨hunit, hscope⟩ := Workspace.library_ofUnits hl
  have hnodup := Source.nodup_numbers_parseAll hparsed l.unit (hunits hunit)
  obtain ⟨i, hi, hclass, rfl, hmembers, hwarnings⟩ :=
    Workspace.exists_class_of_declared hl hnumbered hd hdeclared
  have hlibrary : i.element.library = l.uri := (hscope.classes _ hclass).2
  obtain ⟨tables, hholds, haccepted, hunder⟩ := Members.exists_holds i.element
  have hfound := fun {m : Member} (hm : m ∈ i.element.decl.members) {e : Element} =>
    Workspace.accepted_of_declared hl hnumbered hnodup hclass hm (e := e)
  refine ⟨i, hi, rfl, hlibrary, ?_, ?_, ?_, ?_⟩
  · intro before m after hsplit
    have hm : m ∈ i.element.decl.members := by simp [hsplit]
    have hids := CompilationUnit.nodup_members hnodup hd
    rw [hsplit] at hids
    have hiff := Member.mem_accepted_iff hids
    rw [← hsplit] at hiff
    cases htaken : Member.isTaken (Member.accepted before) m with
    | true =>
      rw [htaken] at hiff
      refine ⟨?_, ?_⟩
      · cases hnone : (Facts.initial (Workspace.ofUnits units)).declared[m.id]? with
        | none => rfl
        | some e => cases hiff.mp (hfound hm hnone).1
      · rw [← hlibrary]
        exact hwarnings (Members.reports_ofClass i.element hsplit htaken)
    | false =>
      have hmem : m.element i.element ∈ (Workspace.ofUnits units).accepted := by
        refine mem_append_right _ (mem_flatMap.mpr ⟨i, hi, ?_⟩)
        rw [hmembers, haccepted, hholds.accepted]
        exact mem_map_of_mem (hiff.mpr htaken)
      have hsome := Facts.isSome_declared_initial hmem
      have hid : (m.element i.element).id.node = m.id := by cases m <;> rfl
      rw [hid] at hsome
      obtain ⟨e, he⟩ := Option.isSome_iff_exists.mp hsome
      show _ = _
      rw [he, (hfound hm he).2]
  · intro k hk
    rw [hmembers, hunder, hholds.under?_eq hk]
  · intro x
    have hnone : Members.implicit? i.element ⟨.setters, x⟩ = none := if_neg (by simp)
    rw [hmembers, hunder, hholds.under?_setters, hnone, Option.or_none]
  · intro m hm e he k hk
    obtain ⟨hkept, rfl⟩ := hfound hm he
    have hentry := hholds.entry_iff hkept hk
    -- The implicit constructor is under no key that a member contributes.
    have hnone : Members.implicit? i.element k = none := by
      refine if_neg fun h => ?_
      rcases Member.eq_of_mem_keys hk with rfl | ⟨v, -, -, rfl⟩
      · exact h.2 m hkept (congrArg MemberKey.table h.1)
      · cases h.1
    rw [hmembers, hunder, hnone, Option.or_none, hentry]

namespace SetterBesideField

def text : Source := ⟨"lib/a.dart", "class A \x7bset x(v) \x7b\x7d var x; get x => 1;\x7d"⟩

def units : List CompilationUnit :=
  match Source.parseAll 1 [text] with
  | .ok parsed => parsed.filterMap Loaded.unitOf?
  | .error _ => []

/-- The setter comes first and is declared.  The field contributes its key, too, and
is not rejected, but takes its place. -/
theorem field_displaces_setter :
    (∃ i ∈ (Workspace.ofUnits units).classes, ∃ setter ∈ i.element.decl.members,
      ∃ field ∈ i.element.decl.members, setter.id < field.id ∧
        ⟨.setters, "x"⟩ ∈ setter.keys ∧ ⟨.setters, "x"⟩ ∈ field.keys ∧
        ((Facts.initial (Workspace.ofUnits units)).declared[setter.id]?).isSome ∧
        ((Facts.initial (Workspace.ofUnits units)).declared[field.id]?).isSome ∧
        (i.members.under? ⟨.setters, "x"⟩).map Element.id = some (field.element i.element).id) ∧
      ∀ report ∈ (Workspace.ofUnits units).warnings, report.span.offset = some 28 := by
  decide +kernel

theorem setter_not_entered :
    ∃ parsed, Source.parseAll 1 [text] = .ok parsed ∧ parsed.filterMap Loaded.unitOf? = units ∧
      ∃ i ∈ (Workspace.ofUnits units).classes, ∃ setter field getter,
        i.element.decl.members = [setter, field, getter] ∧
        (Facts.initial (Workspace.ofUnits units)).declared[setter.id]? =
          some (setter.element i.element) ∧
        (Facts.initial (Workspace.ofUnits units)).declared[field.id]? =
          some (field.element i.element) ∧
        (Facts.initial (Workspace.ofUnits units)).declared[getter.id]? = none ∧
        i.members.under? ⟨.getters, "x"⟩ = some (field.element i.element) ∧
        i.members.under? ⟨.setters, "x"⟩ = some (field.element i.element) := by
  have hshape : ∀ l ∈ (Workspace.ofUnits units).libraries, l.unit.declarations.map
      (fun d => d.toClass?.map fun d => d.members.map fun m => (m.key, m.keys)) =
      [some [(⟨.setters, "x"⟩, [⟨.setters, "x"⟩]),
        (⟨.getters, "x"⟩, [⟨.getters, "x"⟩, ⟨.setters, "x"⟩]),
        (⟨.getters, "x"⟩, [⟨.getters, "x"⟩])]] := by
    decide +kernel
  have hdeclared : ∀ l ∈ (Workspace.ofUnits units).libraries, ∀ d ∈ l.unit.declarations,
      ((Facts.initial (Workspace.ofUnits units)).declared[d.id]?).isSome := by
    decide +kernel
  have hlibraries : (Workspace.ofUnits units).libraries.length = 1 := by decide +kernel
  obtain ⟨l, hl⟩ := length_eq_one_iff.mp hlibraries
  have hmem : l ∈ (Workspace.ofUnits units).libraries := by simp [hl]
  obtain ⟨declaration, rest, hdeclarations, hclass, -⟩ := map_eq_cons_iff.mp (hshape l hmem)
  obtain ⟨d, hd, hkeys⟩ := Option.map_eq_some_iff.mp hclass
  obtain rfl : declaration = .class d := by
    cases declaration <;> cases hd
    rfl
  have hfirst : Declaration.class d ∈ l.unit.declarations := by simp [hdeclarations]
  obtain ⟨setter, _, hmembers, hsetter, hkeys⟩ := map_eq_cons_iff.mp hkeys
  obtain ⟨field, _, rfl, hfield, hkeys⟩ := map_eq_cons_iff.mp hkeys
  obtain ⟨getter, _, rfl, hgetter, hkeys⟩ := map_eq_cons_iff.mp hkeys
  obtain rfl := map_eq_nil_iff.mp hkeys
  cases hparsed : Source.parseAll 1 [text] with
  | error fault =>
    have hnone : units = [] := by rw [units, hparsed]
    rw [hnone] at hlibraries
    cases hlibraries
  | ok parsed =>
    have hunits : parsed.filterMap Loaded.unitOf? = units := by rw [units, hparsed]
    obtain ⟨i, hi, rfl, -, hrejected, hgetters, hsetters, -⟩ :=
      member_tables_ofUnits hparsed (by rw [hunits]; exact List.Subset.refl _) hmem hfirst
        (hdeclared l hmem _ hfirst)
    obtain ⟨hsetterKey, hsetterKeys⟩ := Prod.mk.inj hsetter
    obtain ⟨hfieldKey, hfieldKeys⟩ := Prod.mk.inj hfield
    obtain ⟨hgetterKey, hgetterKeys⟩ := Prod.mk.inj hgetter
    have hboth : Member.accepted [setter, field] = [setter, field] := by
      simp [Member.accepted, Member.acceptedAfter, Member.isTaken, hsetterKeys, hfieldKey]
    have hall : Member.accepted i.element.decl.members = [setter, field] := by
      simp [hmembers, Member.accepted, Member.acceptedAfter, Member.isTaken, hsetterKeys,
        hfieldKey, hfieldKeys, hgetterKey]
    have hsetterDeclared := hrejected [] setter [field, getter] hmembers
    have hfieldDeclared := hrejected [setter] field [getter] hmembers
    have hgetterDeclared := hrejected [setter, field] getter [] hmembers
    rw [if_neg (by simp [Member.accepted, Member.acceptedAfter, Member.isTaken])] at hsetterDeclared
    rw [if_neg (by simp [Member.accepted, Member.acceptedAfter, Member.isTaken, hsetterKeys,
      hfieldKey])] at hfieldDeclared
    rw [if_pos (by simp [hboth, Member.isTaken, hfieldKeys, hgetterKey])] at hgetterDeclared
    refine ⟨parsed, rfl, hunits, i, hi, setter, field, getter, hmembers, hsetterDeclared,
      hfieldDeclared, hgetterDeclared.1, ?_, ?_⟩
    · rw [hgetters _ (by decide), hall]
      simp [hsetterKeys, hfieldKeys]
    · rw [hsetters, hall]
      simp [hsetterKey, hfieldKey, hfieldKeys]

end SetterBesideField

end CheckedThrows
