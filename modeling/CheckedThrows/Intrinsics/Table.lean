import CheckedThrows.Text.Quoted
import CheckedThrows.Total

/-!
# Intrinsic tables

Some members of the bundled libraries throw without saying so.  A table maps a
library and a member's qualified name to the names of the types it throws.
Libraries and members are in the order in which they were entered, and each
occurs once.  Overlaying a table on another replaces entries member by member.
-/

namespace CheckedThrows

/-- Values under different keys, in the order in which the keys came. -/
structure Entries (α : Type) where
  toList : List (Text × α) := []
  nodup : (toList.map Prod.fst).Nodup := by simp

namespace Entries

variable {α : Type}

/-- Changes the value of a key, or adds one made from nothing at the end. -/
def alterList (key : Text) (f : Option α → α) : List (Text × α) → List (Text × α)
  | [] => [(key, f none)]
  | (k, v) :: rest =>
    if k = key then (k, f (some v)) :: rest else (k, v) :: alterList key f rest

theorem keys_alterList_of_mem {key : Text} (f : Option α → α) {l : List (Text × α)}
    (h : key ∈ l.map Prod.fst) : (alterList key f l).map Prod.fst = l.map Prod.fst := by
  induction l with
  | nil => exact absurd h List.not_mem_nil
  | cons entry rest ih =>
    obtain ⟨k, v⟩ := entry
    rw [alterList]
    split
    · rfl
    · rename_i other
      have inRest : key ∈ rest.map Prod.fst :=
        (List.mem_cons.1 h).resolve_left fun e => other e.symm
      rw [List.map_cons, ih inRest, List.map_cons]

theorem keys_alterList_of_not_mem {key : Text} (f : Option α → α) {l : List (Text × α)}
    (h : key ∉ l.map Prod.fst) :
    (alterList key f l).map Prod.fst = l.map Prod.fst ++ [key] := by
  induction l with
  | nil => rfl
  | cons entry rest ih =>
    obtain ⟨k, v⟩ := entry
    rw [alterList]
    split
    · rename_i same
      exact absurd (List.mem_cons.2 (.inl same.symm)) h
    · have notInRest : key ∉ rest.map Prod.fst :=
        fun inRest => h (List.mem_cons.2 (.inr inRest))
      rw [List.map_cons, ih notInRest, List.map_cons, List.cons_append]

def alter (entries : Entries α) (key : Text) (f : Option α → α) : Entries α where
  toList := alterList key f entries.toList
  nodup := by
    by_cases h : key ∈ entries.toList.map Prod.fst
    · rw [keys_alterList_of_mem f h]
      exact entries.nodup
    · rw [keys_alterList_of_not_mem f h]
      exact List.nodup_append.2 ⟨entries.nodup, by simp, by
        intro a ha b hb e
        simp only [List.mem_singleton] at hb
        exact h (hb ▸ e ▸ ha)⟩

def get? (entries : Entries α) (key : Text) : Option α :=
  entries.toList.lookup key

def insert (entries : Entries α) (key : Text) (value : α) : Entries α :=
  entries.alter key fun _ => value

def ofList (l : List (Text × α)) : Entries α :=
  l.foldl (fun entries (key, value) => entries.insert key value) {}

def overlay (old new : Entries α) : Entries α :=
  new.toList.foldl (fun entries (key, value) => entries.insert key value) old

/-- Equality of entries whatever their order. -/
def agree (same : α → α → Bool) (a b : Entries α) : Bool :=
  a.toList.length = b.toList.length &&
    a.toList.all fun (key, v) => (b.get? key).any (same v)

end Entries

abbrev MemberEntries := Entries (List Text)

structure IntrinsicTable where
  version : Text := "1"
  libraries : Entries MemberEntries := {}

namespace IntrinsicTable

def empty : IntrinsicTable := {}

def lookup (t : IntrinsicTable) (library member : Text) : List Text :=
  ((t.libraries.get? library).bind fun members => members.get? member).getD []

/-- The table with the entries and the version of another put over it. -/
def merged (t other : IntrinsicTable) : IntrinsicTable where
  version := other.version
  libraries :=
    other.libraries.toList.foldl (fun libraries (library, members) =>
      libraries.alter library fun old => (old.getD {}).overlay members)
      t.libraries

/-- Equality of tables whatever the order of their entries. -/
def same (a b : IntrinsicTable) : Bool :=
  a.version = b.version &&
    Entries.agree (Entries.agree fun x y => x = y) a.libraries b.libraries

/-- Equality of what a table is filed under: the version and the libraries. -/
def sameHeading (a b : IntrinsicTable) : Bool :=
  a.version = b.version && Entries.agree (fun _ _ => true) a.libraries b.libraries

def memberCount (t : IntrinsicTable) : Nat :=
  total (fun (_, members) => members.toList.length) t.libraries.toList

def render (t : IntrinsicTable) : Text :=
  ("IntrinsicTable(version=" : Text) ++ t.version.quoted ++ (", members=" : Text) ++
    Text.ofNat t.memberCount ++ (")" : Text)

def bundled : IntrinsicTable where
  libraries := .ofList [
    ("dart:core", .ofList [
      ("Iterable.first", ["StateError"]), ("Iterable.last", ["StateError"]),
      ("Iterable.single", ["StateError"]), ("Iterable.reduce", ["StateError"]),
      ("int.parse", ["FormatException"]), ("double.parse", ["FormatException"]),
      ("Uri.parse", ["FormatException"])]),
    ("dart:convert", .ofList [
      ("jsonDecode", ["FormatException"]), ("JsonCodec.decode", ["FormatException"])])]

end IntrinsicTable

end CheckedThrows
