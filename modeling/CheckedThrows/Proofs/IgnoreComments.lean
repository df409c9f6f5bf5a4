import CheckedThrows.Ignore
import Mathlib.Data.List.Induction

/-!
# What comments suppress

Comments are collected one after the other into the codes of a file and of its
lines.  A code is suppressed on a line exactly if one of the comments suppresses
it there, whatever their order.
-/

namespace CheckedThrows

open List

namespace IgnoreInfo

def names (codes : List String) (code : String) (isLint : Bool) : Bool :=
  codes.contains (lowerCase code) || (isLint && codes.contains allLints)

theorem contains_addCodes (old new : List String) (code : String) :
    (addCodes old new).contains code = (old.contains code || new.contains code) := by
  unfold addCodes
  induction new generalizing old with
  | nil => simp
  | cons c new ih =>
    rw [foldl_cons, ih, contains_cons, ← Bool.or_assoc]
    congr 1
    split
    next hmem =>
      by_cases hc : code = c
      · simp [hc, hmem]
      · simp [hc]
    next => rw [contains_append, contains_cons, contains_nil, Bool.or_false]

theorem names_addCodes (old new : List String) (code : String) (isLint : Bool) :
    names (addCodes old new) code isLint = (names old code isLint || names new code isLint) := by
  simp only [names, contains_addCodes]
  cases isLint <;> simp [Bool.or_assoc, Bool.or_left_comm, Bool.or_comm]

theorem lookup_addLine (line l : Int) (codes : List String) (entries : List (Int × List String)) :
    ((addLine line codes entries).lookup l).getD [] =
      if l = line then addCodes ((entries.lookup l).getD []) codes
      else (entries.lookup l).getD [] := by
  induction entries with
  | nil =>
    by_cases hl : l = line
    · simp [addLine, hl]
    · have hne : (l == line) = false := by simpa using hl
      simp [addLine, lookup_cons, hl, hne]
  | cons entry entries ih =>
    obtain ⟨first, old⟩ := entry
    by_cases hl : l = first
    · subst hl
      by_cases hfirst : l = line <;> simp [addLine, hfirst]
    · have hne : (l == first) = false := by simpa using hl
      by_cases hfirst : first = line
      · subst hfirst
        simp [addLine, lookup_cons, hl, hne]
      · rw [addLine, if_neg hfirst, lookup_cons, lookup_cons, hne]
        exact ih

theorem names_codesOn_addLine (info : IgnoreInfo) (l : Int) (codes : List String)
    (line : Option Int) (code : String) (isLint : Bool) :
    names (codesOn { info with lineCodes := addLine l codes info.lineCodes } line) code isLint =
      (names (info.codesOn line) code isLint || (line = some l && names codes code isLint)) := by
  cases line with
  | none => simp [codesOn, names]
  | some line =>
    simp only [codesOn, Option.bind_some, lookup_addLine]
    by_cases hl : line = l
    · simp [hl, names_addCodes]
    · simp [hl]

end IgnoreInfo

def Remark.suppresses (r : Remark) (code : String) (line : Option Int) (isLint : Bool) : Bool :=
  match r.fileCodes? with
  | some codes => IgnoreInfo.names codes code isLint
  | none =>
    match r.lineCodes? with
    | some (l, codes) => line = some l && IgnoreInfo.names codes code isLint
    | none => false

namespace IgnoreInfo

theorem isIgnored_eq (info : IgnoreInfo) (code : String) (line : Option Int) (isLint : Bool) :
    info.isIgnored code line isLint =
      (names info.fileCodes code isLint || names (info.codesOn line) code isLint) := rfl

theorem isIgnored_add (info : IgnoreInfo) (r : Remark) (code : String) (line : Option Int)
    (isLint : Bool) :
    (info.add r).isIgnored code line isLint =
      (info.isIgnored code line isLint || r.suppresses code line isLint) := by
  unfold add Remark.suppresses
  cases r.fileCodes? with
  | some codes =>
    simp only [isIgnored_eq, names_addCodes]
    rw [Bool.or_right_comm]
    rfl
  | none =>
    cases r.lineCodes? with
    | some entry =>
      obtain ⟨l, codes⟩ := entry
      rw [isIgnored_eq, isIgnored_eq, names_codesOn_addLine, Bool.or_assoc]
    | none => simp

theorem isIgnored_ofRemarks (remarks : List Remark) (code : String) (line : Option Int)
    (isLint : Bool) :
    (ofRemarks remarks).isIgnored code line isLint =
      remarks.any fun r => r.suppresses code line isLint := by
  induction remarks using List.reverseRecOn with
  | nil => cases line <;> simp [ofRemarks, isIgnored_eq, names, codesOn]
  | append_singleton remarks r ih =>
    rw [ofRemarks, foldl_append, foldl_cons, foldl_nil, isIgnored_add,
      any_append, any_cons, any_nil, Bool.or_false, ← ih]
    rfl

end IgnoreInfo

end CheckedThrows
