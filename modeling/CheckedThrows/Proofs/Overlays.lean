import CheckedThrows.Intrinsics.Table
import CheckedThrows.Proofs.WorkspaceTypes
import Mathlib.Data.List.Perm.Subperm

/-!
# Overlaying tables

Entries are told by what is found under each key, whatever their order.
Overlaying takes the libraries of both tables, and of the entries the new one
where there is one, so it is associative and idempotent.  A table may also have
its entries in cells that are written in place: merging makes new cells for all
that it writes.
-/

namespace CheckedThrows

open List

namespace Entries

section
variable {α β : Type}

theorem lookup_alterList (key : Text) (f : Option α → α) (l : List (Text × α)) (k : Text) :
    (alterList key f l).lookup k = if k = key then some (f (l.lookup key)) else l.lookup k := by
  induction l with
  | nil =>
    by_cases hk : k = key
    · simp [alterList, hk]
    · simp [alterList, hk, lookup_cons, beq_false_of_ne hk]
  | cons entry rest ih =>
    obtain ⟨key', v⟩ := entry
    rw [alterList]
    by_cases hkey : key' = key
    · subst hkey
      by_cases hk : k = key'
      · simp [hk]
      · simp [hk, lookup_cons, beq_false_of_ne hk]
    · rw [if_neg hkey, lookup_cons, ih, lookup_cons, lookup_cons,
        beq_false_of_ne (Ne.symm hkey)]
      by_cases hk : k = key'
      · subst hk
        simp [hkey]
      · simp [beq_false_of_ne hk]

@[simp]
theorem get?_empty (k : Text) : ({} : Entries α).get? k = none := rfl

theorem get?_alter (entries : Entries α) (key : Text) (f : Option α → α) (k : Text) :
    (entries.alter key f).get? k =
      if k = key then some (f (entries.get? key)) else entries.get? k :=
  lookup_alterList key f entries.toList k

theorem get?_foldl_alter (put : β → Option α → α) {new : List (Text × β)}
    (hnew : (new.map Prod.fst).Nodup) (entries : Entries α) (k : Text) :
    (new.foldl (fun entries entry => entries.alter entry.1 (put entry.2)) entries).get? k =
      ((new.lookup k).map fun value => put value (entries.get? k)).or (entries.get? k) := by
  induction new generalizing entries with
  | nil => rfl
  | cons entry new ih =>
    obtain ⟨key, value⟩ := entry
    obtain ⟨hfirst, hrest⟩ := nodup_cons.mp hnew
    rw [foldl_cons, ih hrest, get?_alter, lookup_cons]
    by_cases hk : k = key
    · subst hk
      have hnone : new.lookup k = none := by
        rw [lookup_eq_none_iff]
        intro entry hentry
        have hne : k ≠ entry.1 := fun heq => hfirst (mem_map.mpr ⟨entry, hentry, heq.symm⟩)
        simpa using hne
      simp [hnone]
    · simp [hk, beq_false_of_ne hk]

theorem get?_overlay (old new : Entries α) (k : Text) :
    (old.overlay new).get? k = (new.get? k).or (old.get? k) := by
  have hfold := get?_foldl_alter (fun value (_ : Option α) => value) new.nodup old k
  simpa [overlay, insert, get?] using hfold

theorem mem_toList_iff {entries : Entries α} {key : Text} {v : α} :
    (key, v) ∈ entries.toList ↔ entries.get? key = some v := by
  constructor
  · intro hmem
    obtain ⟨l, hnodup⟩ := entries
    induction l with
    | nil => cases hmem
    | cons entry rest ih =>
      obtain ⟨key', v'⟩ := entry
      obtain ⟨hfirst, hrest⟩ := nodup_cons.mp hnodup
      rcases mem_cons.mp hmem with heq | hmem
      · cases heq
        simp [get?]
      · have hne : key ≠ key' := fun heq => hfirst (mem_map.mpr ⟨_, hmem, heq⟩)
        have hfound := ih hrest hmem
        simpa [get?, lookup_cons, beq_false_of_ne hne] using hfound
  · exact mem_of_lookup

theorem mem_keys_iff {entries : Entries α} {key : Text} :
    key ∈ entries.toList.map Prod.fst ↔ (entries.get? key).isSome = true := by
  simp [Option.isSome_iff_exists, ← mem_toList_iff]

theorem isSome_eq_of_rel {r : α → β → Prop} {x : Option α} {y : Option β}
    (hrel : Option.Rel r x y) : x.isSome = y.isSome := by
  cases hrel <;> rfl

theorem agree_iff {same : α → α → Bool} {a b : Entries α} :
    agree same a b = true ↔
      ∀ key, Option.Rel (fun v w => same v w = true) (a.get? key) (b.get? key) := by
  have hagree : agree same a b = true ↔ a.toList.length = b.toList.length ∧
      ∀ key v, a.get? key = some v → ∃ w, b.get? key = some w ∧ same v w = true := by
    simp [agree, all_eq_true, mem_toList_iff, Option.any_eq_true]
  rw [hagree]
  constructor
  · rintro ⟨hlength, hfound⟩ key
    cases ha : a.get? key with
    | some v =>
      obtain ⟨w, hw, hsame⟩ := hfound key v ha
      rw [hw]
      exact .some hsame
    | none =>
      -- Of as many keys, all those of `a` are in `b`, so `b` has no others.
      have hsub : a.toList.map Prod.fst ⊆ b.toList.map Prod.fst := by
        intro key hkey
        obtain ⟨v, hv⟩ := Option.isSome_iff_exists.mp (mem_keys_iff.mp hkey)
        obtain ⟨w, hw, -⟩ := hfound key v hv
        exact mem_keys_iff.mpr (hw ▸ rfl)
      have hperm := (subperm_of_subset a.nodup hsub).perm_of_length_le
        (by simp [hlength])
      have hnone : b.get? key = none := by
        rw [← Option.not_isSome_iff_eq_none, ← mem_keys_iff, ← hperm.mem_iff, mem_keys_iff, ha]
        simp
      rw [hnone]
      exact .none
  · intro hrel
    constructor
    · have hperm : (a.toList.map Prod.fst).Perm (b.toList.map Prod.fst) := by
        rw [perm_ext_iff_of_nodup a.nodup b.nodup]
        intro key
        rw [mem_keys_iff, mem_keys_iff, isSome_eq_of_rel (hrel key)]
      simpa using hperm.length_eq
    · intro key v hv
      have hkey := hrel key
      rw [hv] at hkey
      generalize b.get? key = found at hkey
      cases hkey with
      | some hsame => exact ⟨_, rfl, hsame⟩

end

end Entries

/-! ## Tables by what they say -/

namespace IntrinsicTable

variable (a b : IntrinsicTable) (library : Text)

/-- What is said about the members of a library, if it is in a table at all. -/
abbrev Said := Option (Text → Option (List Text))

def overlaid (new old : Said) : Said :=
  new.elim old fun told => some fun member => (told member).or (old.bind fun told => told member)

theorem overlaid_none (new : Said) : overlaid new none = new := by
  cases new <;> simp [overlaid]

theorem overlaid_assoc (c b a : Said) : overlaid c (overlaid b a) = overlaid (overlaid c b) a := by
  cases c <;> cases b <;> simp [overlaid, Option.or_assoc]

theorem overlaid_self (a : Said) : overlaid a a = a := by
  cases a <;> simp [overlaid]

def said (t : IntrinsicTable) (library : Text) : Said :=
  (t.libraries.get? library).map Entries.get?

/-- What a table says about a member, if it says anything. -/
def thrown? (t : IntrinsicTable) (library member : Text) : Option (List Text) :=
  (t.libraries.get? library).bind fun members => members.get? member

theorem thrown?_eq (t : IntrinsicTable) (library member : Text) :
    t.thrown? library member = (t.said library).bind fun told => told member := by
  rw [thrown?, said, Option.bind_map]
  rfl

theorem lookup_eq (t : IntrinsicTable) (library member : Text) :
    t.lookup library member = (t.thrown? library member).getD [] := rfl

theorem agree_members_iff {a b : MemberEntries} :
    Entries.agree (fun x y => x = y) a b = true ↔ a.get? = b.get? := by
  rw [Entries.agree_iff, funext_iff]
  refine forall_congr' fun member => ?_
  cases a.get? member <;> cases b.get? member <;> simp

theorem same_iff {a b : IntrinsicTable} :
    a.same b = true ↔ a.version = b.version ∧ ∀ library, a.said library = b.said library := by
  rw [same, Bool.and_eq_true, decide_eq_true_eq, Entries.agree_iff]
  refine and_congr_right fun _ => forall_congr' fun library => ?_
  unfold said
  cases a.libraries.get? library <;> cases b.libraries.get? library <;>
    simp [agree_members_iff]

theorem lookup_eq_of_same {a b : IntrinsicTable} (hsame : a.same b = true) (library member : Text) :
    a.lookup library member = b.lookup library member := by
  rw [lookup_eq, lookup_eq, thrown?_eq, thrown?_eq, (same_iff.mp hsame).2 library]

theorem get?_overlay_eq (old new : MemberEntries) :
    (old.overlay new).get? = fun member => (new.get? member).or (old.get? member) :=
  funext (Entries.get?_overlay old new)

theorem get?_merged :
    (a.merged b).libraries.get? library =
      ((b.libraries.get? library).map fun members =>
        ((a.libraries.get? library).getD {}).overlay members).or (a.libraries.get? library) :=
  Entries.get?_foldl_alter (fun (members : MemberEntries) (old : Option MemberEntries) =>
    (old.getD {}).overlay members) b.libraries.nodup a.libraries library

theorem said_merged : (a.merged b).said library = overlaid (b.said library) (a.said library) := by
  rw [said, said, said, get?_merged]
  cases b.libraries.get? library with
  | none => rfl
  | some members => cases a.libraries.get? library <;> simp [overlaid, get?_overlay_eq]

theorem thrown?_merged (member : Text) :
    (a.merged b).thrown? library member =
      (b.thrown? library member).or (a.thrown? library member) := by
  rw [thrown?_eq, thrown?_eq, thrown?_eq, said_merged]
  cases b.said library <;> simp [overlaid]

theorem merged_assoc (c : IntrinsicTable) :
    ((a.merged b).merged c).same (a.merged (b.merged c)) = true := by
  refine same_iff.mpr ⟨rfl, fun library => ?_⟩
  simp only [said_merged, overlaid_assoc]

theorem merged_self : (a.merged a).same a = true := by
  refine same_iff.mpr ⟨rfl, fun library => ?_⟩
  rw [said_merged, overlaid_self]

end IntrinsicTable

/-! ## Tables in cells -/

namespace Entries

variable {α β : Type}

def map (f : α → β) (entries : Entries α) : Entries β where
  toList := entries.toList.map fun entry => (entry.1, f entry.2)
  nodup := by
    rw [map_map]
    exact entries.nodup

theorem get?_map (f : α → β) (entries : Entries α) (k : Text) :
    (entries.map f).get? k = (entries.get? k).map f := by
  obtain ⟨l, hnodup⟩ := entries
  show (l.map fun entry => (entry.1, f entry.2)).lookup k = (l.lookup k).map f
  clear hnodup
  induction l with
  | nil => rfl
  | cons entry rest ih =>
    rw [map_cons, lookup_cons, lookup_cons]
    cases k == entry.1 with
    | true => rfl
    | false => exact ih

end Entries

abbrev Cells := Array MemberEntries

variable {cells : Cells}

namespace Cells

def members (cells : Cells) (cell : Nat) : MemberEntries := cells.getD cell ⟨[], nodup_nil⟩

theorem members_modify {cell : Nat} (hcell : cell < cells.size)
    (f : MemberEntries → MemberEntries) (c : Nat) :
    members (cells.modify cell f) c =
      if c = cell then f (cells.members c) else cells.members c := by
  simp only [members, Array.getD_eq_getD_getElem?, Array.getElem?_modify]
  by_cases hc : c = cell
  · subst hc
    simp [hcell]
  · simp [hc, Ne.symm hc]

theorem members_push (cells : Cells) (m : MemberEntries) (c : Nat) :
    members (cells.push m) c = if c = cells.size then m else cells.members c := by
  simp only [members, Array.getD_eq_getD_getElem?, Array.getElem?_push]
  by_cases hc : c = cells.size <;> simp [hc]

end Cells

/-- A table whose libraries have their members in cells. -/
structure CellTable where
  version : Text
  libraries : Entries Nat

namespace CellTable

variable {t : CellTable}

def read (cells : Cells) (t : CellTable) : IntrinsicTable where
  version := t.version
  libraries := t.libraries.map cells.members

def IsIn (cells : Cells) (t : CellTable) : Prop :=
  ∀ library, ∀ cell ∈ t.libraries.get? library, cell < cells.size

def enter (libraries : Entries Nat) (library : Text) (members : MemberEntries) :
    StateM Cells (Entries Nat) := fun cells =>
  match libraries.get? library with
  | some cell => (libraries, cells.modify cell fun old => old.overlay members)
  | none => (libraries.insert library cells.size,
    cells.push (Entries.overlay ⟨[], nodup_nil⟩ members))

def enterAll (libraries : Entries Nat) : List (Text × Nat) → StateM Cells (Entries Nat)
  | [] => return libraries
  | (library, cell) :: rest => do
    let cells ← get
    enterAll (← enter libraries library (cells.members cell)) rest

/-- Merges two tables into new cells: those of the first, and over them those of the
second. -/
def merged (t other : CellTable) : StateM Cells CellTable := do
  let copied ← enterAll {} t.libraries.toList
  let libraries ← enterAll copied other.libraries.toList
  return ⟨other.version, libraries⟩

def said (cells : Cells) (libraries : Entries Nat) (library : Text) : IntrinsicTable.Said :=
  (libraries.get? library).map fun cell => (cells.members cell).get?

theorem said_read (cells : Cells) (t : CellTable) (library : Text) :
    (t.read cells).said library = said cells t.libraries library := by
  simp [IntrinsicTable.said, said, read, Entries.get?_map, Function.comp_def]

/-- The cells of libraries are new since there were `old` ones, and each library has
its own. -/
structure Fresh (old : Nat) (libraries : Entries Nat) (cells : Cells) : Prop where
  size_le : old ≤ cells.size
  new : ∀ {library cell}, libraries.get? library = some cell → old ≤ cell ∧ cell < cells.size
  distinct : ∀ {library library' cell}, libraries.get? library = some cell →
    libraries.get? library' = some cell → library = library'

/-- After members were written: only new cells have changed, and about each library is
said what should be said. -/
structure Entered (old : Nat) (cells : Cells) (told : Text → IntrinsicTable.Said)
    (result : Entries Nat × Cells) : Prop where
  fresh : Fresh old result.1 result.2
  kept : ∀ cell < old, result.2.members cell = cells.members cell
  said_eq : ∀ library, said result.2 result.1 library = told library

section
variable {old : Nat} {libraries : Entries Nat}

open IntrinsicTable

theorem entered_enter (hfresh : Fresh old libraries cells) (library : Text)
    (members : MemberEntries) :
    Entered old cells (fun l =>
        if l = library then overlaid (some members.get?) (said cells libraries l)
        else said cells libraries l)
      ((enter libraries library members).run cells) := by
  obtain ⟨hsize, hnew, hdistinct⟩ := hfresh
  simp only [StateT.run, enter]
  cases hget : libraries.get? library with
  | some cell =>
    obtain ⟨hold, hcell⟩ := hnew hget
    refine ⟨⟨by simpa using hsize, fun hc => by simpa using hnew hc, hdistinct⟩, ?_, ?_⟩
    · intro c hc
      rw [Cells.members_modify hcell, if_neg (by omega)]
    · intro l
      by_cases hl : l = library
      · subst hl
        simp [said, hget, Cells.members_modify hcell, overlaid, get?_overlay_eq]
      · rw [if_neg hl, said, said]
        refine Option.map_congr fun c hc => ?_
        rw [Cells.members_modify hcell, if_neg]
        exact fun heq => hl (hdistinct hc (heq ▸ hget))
  | none =>
    have hinsert : ∀ l, (libraries.insert library cells.size).get? l =
        if l = library then some cells.size else libraries.get? l :=
      Entries.get?_alter libraries library _
    refine ⟨⟨?_, ?_, ?_⟩, ?_, ?_⟩
    · rw [Array.size_push]
      omega
    · intro l c hc
      rw [hinsert] at hc
      rw [Array.size_push]
      split at hc
      · cases hc
        omega
      · have hbounds := hnew hc
        omega
    · intro l l' c hc hc'
      rw [hinsert] at hc hc'
      split at hc <;> split at hc'
      next hl hl' => rw [hl, hl']
      next => exact absurd (hnew hc').2 (by simp_all)
      next => exact absurd (hnew hc).2 (by simp_all)
      next => exact hdistinct hc hc'
    · intro c hc
      rw [Cells.members_push, if_neg (by omega)]
    · intro l
      rw [said, hinsert]
      by_cases hl : l = library
      · subst hl
        simp [said, hget, Cells.members_push, overlaid, get?_overlay_eq]
      · rw [if_neg hl, if_neg hl, said]
        refine Option.map_congr fun c hc => ?_
        rw [Cells.members_push, if_neg (Nat.ne_of_lt (hnew hc).2)]

theorem entered_enterAll (hfresh : Fresh old libraries cells) {new : List (Text × Nat)}
    (hkeys : (new.map Prod.fst).Nodup) (hnew : ∀ entry ∈ new, entry.2 < old) :
    Entered old cells (fun l =>
        overlaid ((new.lookup l).map fun cell => (cells.members cell).get?) (said cells libraries l))
      ((enterAll libraries new).run cells) := by
  induction new generalizing libraries cells with
  | nil => exact ⟨hfresh, fun _ _ => rfl, fun _ => rfl⟩
  | cons entry new ih =>
    obtain ⟨library, cell⟩ := entry
    obtain ⟨hlibrary, hkeys⟩ := nodup_cons.mp hkeys
    obtain ⟨-, hnew⟩ := forall_mem_cons.mp hnew
    have hfirst := entered_enter hfresh library (cells.members cell)
    have hrest := ih hfirst.fresh hkeys hnew
    refine ⟨hrest.fresh, fun c hc => (hrest.kept c hc).trans (hfirst.kept c hc), fun l => ?_⟩
    -- What is still to be entered is read from old cells.
    have hread : ((new.lookup l).map fun cell' => (((enter libraries library
        (cells.members cell)).run cells).2.members cell').get?) =
        (new.lookup l).map fun cell' => (cells.members cell').get? :=
      Option.map_congr fun c hc => by rw [hfirst.kept c (hnew _ (mem_of_lookup hc))]
    refine (hrest.said_eq l).trans ?_
    rw [hread, hfirst.said_eq l, lookup_cons]
    by_cases hl : l = library
    · subst hl
      have hnone : new.lookup l = none := by
        by_contra hsome
        obtain ⟨c, hc⟩ := Option.ne_none_iff_exists'.mp hsome
        exact hlibrary (mem_map.mpr ⟨_, mem_of_lookup hc, rfl⟩)
      simp [hnone, overlaid]
    · simp [hl, beq_false_of_ne hl]

end

theorem IsIn.old (ht : t.IsIn cells) : ∀ entry ∈ t.libraries.toList, entry.2 < cells.size :=
  fun entry hentry => ht entry.1 entry.2 (Entries.mem_toList_iff.mp hentry)

theorem said_of_kept {cells' : Cells} (ht : t.IsIn cells)
    (hkept : ∀ cell < cells.size, cells'.members cell = cells.members cell) (library : Text) :
    said cells' t.libraries library = said cells t.libraries library :=
  Option.map_congr fun cell hcell => by rw [hkept cell (ht library cell hcell)]

theorem read_merged {other : CellTable} (ht : t.IsIn cells) (hother : other.IsIn cells) :
    let result := (t.merged other).run cells
    (result.1.read result.2).same ((t.read cells).merged (other.read cells)) = true ∧
      (t.read result.2).same (t.read cells) = true ∧
      (other.read result.2).same (other.read cells) = true := by
  intro result
  have hempty : Fresh cells.size {} cells := ⟨Nat.le_refl _, by simp, by simp⟩
  have hcopied := entered_enterAll hempty t.libraries.nodup ht.old
  have hmerged := entered_enterAll hcopied.fresh other.libraries.nodup hother.old
  have hkept : ∀ cell < cells.size, result.2.members cell = cells.members cell :=
    fun c hc => (hmerged.kept c hc).trans (hcopied.kept c hc)
  simp only [IntrinsicTable.same_iff, said_read, IntrinsicTable.said_merged]
  refine ⟨⟨rfl, fun library => ?_⟩, ⟨rfl, said_of_kept ht hkept⟩, ⟨rfl, said_of_kept hother hkept⟩⟩
  refine (hmerged.said_eq library).trans ?_
  have hfirst := (hcopied.said_eq library).trans (IntrinsicTable.overlaid_none _)
  have hsecond := said_of_kept hother hcopied.kept library
  exact congrArg₂ IntrinsicTable.overlaid hsecond hfirst

end CellTable

/-- An overlaid table says what the new one says, if only that a member throws nothing,
and otherwise what the old one says.  Overlaying is associative and idempotent, and
leaves the tables it is made from as they are. -/
theorem IntrinsicTable.merged_lawful (a b c : IntrinsicTable) :
    (∀ library member,
      (∀ names, b.thrown? library member = some names →
        (a.merged b).lookup library member = names) ∧
      (b.thrown? library member = none →
        (a.merged b).lookup library member = a.lookup library member)) ∧
    ((a.merged b).merged c).same (a.merged (b.merged c)) = true ∧
    (a.merged a).same a = true ∧
    ∀ (cells : Cells) (x y : CellTable), x.IsIn cells → y.IsIn cells →
      x.read cells = a → y.read cells = b →
      let result := (x.merged y).run cells
      (result.1.read result.2).same (a.merged b) = true ∧
        ∀ library member, (x.read result.2).lookup library member = a.lookup library member ∧
          (y.read result.2).lookup library member = b.lookup library member := by
  refine ⟨fun library member => ⟨?_, ?_⟩, merged_assoc a b c, merged_self a, ?_⟩
  · intro names hentry
    rw [lookup_eq, thrown?_merged, hentry]
    rfl
  · intro hnone
    rw [lookup_eq, thrown?_merged, hnone]
    rfl
  · rintro cells x y hx hy rfl rfl result
    obtain ⟨hmerged, hleft, hright⟩ := CellTable.read_merged hx hy
    refine ⟨hmerged, fun library member => ⟨?_, ?_⟩⟩
    · exact lookup_eq_of_same hleft library member
    · exact lookup_eq_of_same hright library member

end CheckedThrows
