import CheckedThrows.Proofs.IgnoreComments
import Mathlib.Data.List.TakeWhile

/-!
# What ignore comments say

A comment is a directive if after its slashes there is one of two words and an
argument, and the argument lists codes.  A code is suppressed exactly if one of
the comments says so: neither the order of the comments nor how often something
is said matters, and nothing that a comment says takes anything back.
-/

namespace CheckedThrows

open List

variable {r : Remark} {gap feed text : List Char}
variable {c : Char} {word : String} {argument line : List Char} {code : String} {isLint : Bool}

/-! ## Blanks -/

theorem CodeRanges.not_contains_of_apart {r s : CodeRanges}
    (hapart : ∀ a ∈ r, ∀ b ∈ s, a.2 < b.1 ∨ b.2 < a.1) {n : Nat} (hn : r.contains n = true) :
    s.contains n = false := by
  obtain ⟨a, ha, hna⟩ := any_eq_true.mp hn
  simp only [Bool.and_eq_true, decide_eq_true_eq] at hna
  refine any_eq_false.mpr fun b hb => ?_
  simp only [Bool.and_eq_true, decide_eq_true_eq]
  have := hapart a ha b hb
  omega

theorem isWord_of_isBlank (hc : isBlank c = true) : isWord c = false :=
  CodeRanges.not_contains_of_apart (by decide +kernel) hc

theorem ne_of_isBlank {d : Char} (hc : isBlank c = true) (hd : isBlank d = false) : c ≠ d := by
  rintro rfl
  rw [hc] at hd
  cases hd

theorem exists_dropBlanks (cs : List Char) :
    ∃ gap, cs = gap ++ dropBlanks cs ∧ ∀ c ∈ gap, isBlank c = true :=
  ⟨cs.takeWhile isBlank, takeWhile_append_dropWhile.symm, fun _ hc => mem_takeWhile_imp hc⟩

theorem dropBlanks_append (hgap : ∀ c ∈ gap, isBlank c = true)
    (cs : List Char) : dropBlanks (gap ++ cs) = dropBlanks cs :=
  dropWhile_append_of_pos hgap

theorem dropBlanks_cons (hc : isBlank c = false) (cs : List Char) :
    dropBlanks (c :: cs) = c :: cs :=
  dropWhile_cons_of_neg (by simp [hc])

theorem exists_trimBlanks (cs : List Char) :
    ∃ gap, dropBlanks cs = trimBlanks cs ++ gap ∧ ∀ c ∈ gap, isBlank c = true := by
  obtain ⟨gap, hgap, hblank⟩ := exists_dropBlanks (dropBlanks cs).reverse
  refine ⟨gap.reverse, ?_, fun c hc => hblank c (mem_reverse.mp hc)⟩
  rw [trimBlanks, ← reverse_append, ← hgap, reverse_reverse]

namespace Remark

/-! ## Directives -/

/-- Slashes, a word and an argument, with blanks between them; the argument is on
one line, which may be ended. -/
def Directs (r : Remark) (word : String) (argument : List Char) : Prop :=
  ∃ gap gap' feed : List Char,
    r.text.toList = '/' :: '/' :: (gap ++ (word.toList ++ (gap' ++ (argument ++ feed)))) ∧
      (∀ c ∈ gap, isBlank c = true) ∧ (∀ c ∈ gap', isBlank c = true) ∧ '\n' ∉ argument ∧
      (feed = [] ∨ feed = ['\n'])

theorem takeWhile_line_append (hline : '\n' ∉ line)
    (hfeed : feed = [] ∨ feed = ['\n']) : (line ++ feed).takeWhile (· ≠ '\n') = line := by
  have hall : ∀ c ∈ line, decide (c ≠ '\n') = true :=
    fun c hc => decide_eq_true fun heq => hline (heq ▸ hc)
  rw [takeWhile_append_of_pos hall]
  rcases hfeed with rfl | rfl <;> simp

theorem argument?_eq_some_iff :
    argument? word text = some line ↔ ∃ rest after feed, text = '/' :: '/' :: rest ∧
      dropBlanks rest = word.toList ++ after ∧ dropBlanks after = line ++ feed ∧
      '\n' ∉ line ∧ (feed = [] ∨ feed = ['\n']) := by
  constructor
  · intro hline
    unfold argument? at hline
    split at hline
    next rest =>
      dsimp only at hline
      split at hline
      next hprefix =>
        obtain ⟨after, hafter⟩ := List.isPrefixOf_iff_prefix.mp hprefix
        rw [← hafter, ← String.length_toList, drop_left] at hline
        split at hline
        next hfeed =>
          obtain rfl := Option.some.inj hline
          refine ⟨rest, after, _, rfl, hafter.symm, ?_, fun hmem => ?_, hfeed⟩
          · exact (prefix_iff_eq_append.mp (List.takeWhile_prefix _)).symm
          · simpa using mem_takeWhile_imp hmem
        next => cases hline
      next => cases hline
    next => cases hline
  · rintro ⟨rest, after, feed, rfl, hrest, hafter, hline, hfeed⟩
    have hprefix : word.toList.isPrefixOf (dropBlanks rest) = true :=
      List.isPrefixOf_iff_prefix.mpr ⟨after, hrest.symm⟩
    rw [argument?]
    dsimp only
    rw [if_pos hprefix, hrest, ← String.length_toList, drop_left, hafter,
      takeWhile_line_append hline hfeed, drop_left, if_pos hfeed]

theorem directs_of_argument? (hline : argument? word r.text.toList = some line) :
    r.Directs word line := by
  obtain ⟨rest, after, feed, htext, hrest, hafter, hfeed⟩ := argument?_eq_some_iff.mp hline
  obtain ⟨gap, hgap, hblank⟩ := exists_dropBlanks rest
  obtain ⟨gap', hgap', hblank'⟩ := exists_dropBlanks after
  refine ⟨gap, gap', feed, ?_, hblank, hblank', hfeed⟩
  rw [htext, ← hafter, ← hgap', ← hrest, ← hgap]

/-- A line end that follows nothing but blanks counts as one of them. -/
theorem exists_dropBlanks_feed (argument : List Char)
    (hfeed : feed = [] ∨ feed = ['\n']) :
    ∃ feed', dropBlanks (argument ++ feed) = dropBlanks argument ++ feed' ∧
      (feed' = [] ∨ feed' = ['\n']) := by
  rw [dropBlanks, dropWhile_append]
  split
  next hempty =>
    refine ⟨[], ?_, .inl rfl⟩
    rw [dropBlanks, isEmpty_iff.mp hempty]
    rcases hfeed with rfl | rfl <;> rfl
  next => exact ⟨feed, rfl, hfeed⟩

section
variable {word : String} (hword : ∃ c cs, word.toList = c :: cs ∧ isBlank c = false)
include hword

/-- Blanks may be left to the gap or to the argument. -/
theorem argument?_of_directs (hr : r.Directs word argument) :
    argument? word r.text.toList = some (dropBlanks argument) := by
  obtain ⟨gap, gap', feed, htext, hblank, hblank', hline, hfeed⟩ := hr
  obtain ⟨first, others, hfirst, hnone⟩ := hword
  have hrest : dropBlanks (gap ++ (word.toList ++ (gap' ++ (argument ++ feed)))) =
      word.toList ++ (gap' ++ (argument ++ feed)) := by
    rw [dropBlanks_append hblank, hfirst]
    exact dropBlanks_cons hnone _
  obtain ⟨gap₀, hgap₀, -⟩ := exists_dropBlanks argument
  have hline' : '\n' ∉ dropBlanks argument := by
    intro hmem
    rw [hgap₀] at hline
    exact hline (mem_append_right gap₀ hmem)
  obtain ⟨feed', hafter, hfeed'⟩ := exists_dropBlanks_feed argument hfeed
  rw [← dropBlanks_append hblank'] at hafter
  exact argument?_eq_some_iff.mpr ⟨_, _, feed', htext, hrest, hafter, hline', hfeed'⟩

end

/-- No text is a directive for a line and for a file. -/
theorem argument?_line_of_file
    (hfile : argument? "ignore_for_file:" text = some argument) :
    argument? "ignore:" text = none := by
  by_contra hline
  obtain ⟨argument', hline⟩ := Option.ne_none_iff_exists'.mp hline
  obtain ⟨rest, after, -, rfl, hrest, -⟩ := argument?_eq_some_iff.mp hfile
  obtain ⟨rest', after', -, htext, hrest', -⟩ := argument?_eq_some_iff.mp hline
  obtain rfl : rest = rest' := by simpa using htext
  have hprefix : "ignore:".toList <+: "ignore_for_file:".toList :=
    prefix_of_prefix_length_le ⟨after', hrest'.symm⟩ ⟨after, hrest.symm⟩ (by decide)
  exact absurd hprefix (by decide)

/-! ## Codes -/

def continuesCode (c : Char) : Bool :=
  isWord c || c = '='

/-- An argument has this code among its parts, which are separated by commas: the
code is the name at the beginning of a part, in lower case. -/
def Lists (argument : List Char) (code : String) : Prop :=
  ∃ part ∈ argument.splitOn ',', ∃ gap first rest others,
    part = gap ++ first :: (rest ++ others) ∧ (∀ c ∈ gap, isBlank c = true) ∧
      startsCode first = true ∧ (∀ c ∈ rest, continuesCode c = true) ∧
      (∀ c ∈ others.head?, continuesCode c = false) ∧
      code = lowerCase (String.ofList (first :: rest))

theorem continuesCode_of_isBlank (hc : isBlank c = true) : continuesCode c = false := by
  have hequals : c ≠ '=' := ne_of_isBlank hc (by decide)
  rw [continuesCode, isWord_of_isBlank hc, decide_eq_false hequals]
  rfl

theorem isBlank_of_startsCode (hc : startsCode c = true) : isBlank c = false := by
  have hrange : (65 ≤ c.toNat ∧ c.toNat ≤ 90) ∨ (97 ≤ c.toNat ∧ c.toNat ≤ 122) ∨ c.toNat = 95 := by
    simp only [startsCode, Bool.or_eq_true, Bool.and_eq_true, decide_eq_true_eq, Char.le_def,
      UInt32.le_iff_toNat_le] at hc
    rcases hc with (hupper | hlower) | rfl
    · exact .inl hupper
    · exact .inr (.inl hlower)
    · exact .inr (.inr rfl)
  simp only [isBlank, blankRanges, CodeRanges.contains, any_cons, any_nil,
    Bool.or_false, Bool.or_eq_false_iff, Bool.and_eq_false_iff, decide_eq_false_iff_not]
  omega

theorem takeWhile_continuesCode_append (hgap : ∀ c ∈ gap.head?, continuesCode c = false)
    {cs : List Char} :
    (cs ++ gap).takeWhile continuesCode = cs.takeWhile continuesCode := by
  induction cs with
  | nil =>
    cases gap with
    | nil => rfl
    | cons c gap => exact takeWhile_cons_of_neg (by simp [hgap c rfl])
  | cons c cs ih => rw [cons_append, takeWhile_cons, takeWhile_cons, ih]

theorem code?_eq_some_iff {part : List Char} :
    code? part = some code ↔ ∃ first rest, dropBlanks part = first :: rest ∧
      startsCode first = true ∧
      code = lowerCase (String.ofList (first :: rest.takeWhile continuesCode)) := by
  obtain ⟨gap, hgap, hblank⟩ := exists_trimBlanks part
  have hhead : ∀ c ∈ gap.head?, continuesCode c = false :=
    fun c hc => continuesCode_of_isBlank (hblank c (mem_of_mem_head? hc))
  rw [hgap, code?]
  cases trimBlanks part with
  | nil =>
    constructor
    · intro hcode
      cases hcode
    · rintro ⟨first, rest, rfl, hfirst, -⟩
      have hnone := isBlank_of_startsCode hfirst
      rw [hblank first mem_cons_self] at hnone
      cases hnone
  | cons c cs =>
    constructor
    · intro hcode
      dsimp only at hcode
      split at hcode
      next hstarts =>
        refine ⟨c, cs ++ gap, rfl, hstarts, ?_⟩
        rw [takeWhile_continuesCode_append hhead]
        exact (Option.some.inj hcode).symm
      next => cases hcode
    · rintro ⟨first, rest, heq, hfirst, rfl⟩
      rw [cons_append, List.cons.injEq] at heq
      obtain ⟨rfl, rfl⟩ := heq
      rw [takeWhile_continuesCode_append hhead]
      exact if_pos hfirst

theorem mem_codes_iff : code ∈ codes argument ↔ Lists argument code := by
  rw [codes, mem_filterMap]
  refine exists_congr fun part => and_congr_right fun _ => ?_
  rw [code?_eq_some_iff]
  constructor
  · rintro ⟨first, rest, hpart, hfirst, rfl⟩
    obtain ⟨gap, hgap, hblank⟩ := exists_dropBlanks part
    refine ⟨gap, first, rest.takeWhile continuesCode, rest.dropWhile continuesCode, ?_, hblank,
      hfirst, fun _ hc => mem_takeWhile_imp hc, ?_, rfl⟩
    · rw [takeWhile_append_dropWhile, ← hpart, ← hgap]
    · intro c hc
      have hnot := head?_dropWhile_not continuesCode rest
      rwa [hc] at hnot
  · rintro ⟨gap, first, rest, others, rfl, hblank, hfirst, hrest, hothers, rfl⟩
    refine ⟨first, rest ++ others, ?_, hfirst, ?_⟩
    · rw [dropBlanks_append hblank, dropBlanks_cons (isBlank_of_startsCode hfirst)]
    · rw [takeWhile_continuesCode_append hothers, takeWhile_eq_self_iff.mpr hrest]

theorem codes_cons_of_isBlank (hc : isBlank c = true) (argument : List Char) :
    codes (c :: argument) = codes argument := by
  have hcomma : c ≠ ',' := ne_of_isBlank hc (by decide)
  have hcode : ∀ part, code? (c :: part) = code? part := by
    intro part
    have hdrop : dropBlanks (c :: part) = dropBlanks part := dropWhile_cons_of_pos hc
    rw [code?, code?, trimBlanks, trimBlanks, hdrop]
  rw [codes, codes, splitOn_cons_eq_if_modifyHead, if_neg (by simpa using hcomma)]
  cases argument.splitOn ',' with
  | nil => rfl
  | cons part parts => rw [modifyHead_cons, filterMap_cons, filterMap_cons, hcode]

theorem codes_dropBlanks (argument : List Char) : codes (dropBlanks argument) = codes argument := by
  obtain ⟨gap, hgap, hblank⟩ := exists_dropBlanks argument
  have happend : ∀ cs : List Char, codes (gap ++ cs) = codes cs := by
    intro cs
    clear hgap
    induction gap with
    | nil => rfl
    | cons c gap ih =>
      rw [cons_append, codes_cons_of_isBlank (hblank c mem_cons_self)]
      exact ih fun d hd => hblank d (mem_cons_of_mem c hd)
  conv_rhs => rw [hgap]
  exact (happend _).symm

/-! ## What is suppressed -/

/-- The line that a directive for a line is about. -/
def target? (r : Remark) : Option Int :=
  r.line.map fun line => if r.ownLine then line + 1 else line

theorem lineCodes?_eq (r : Remark) :
    r.lineCodes? = (argument? "ignore:" r.text.toList).bind fun argument =>
      r.target?.map fun line => (line, codes argument) := by
  unfold lineCodes? target?
  cases argument? "ignore:" r.text.toList with
  | none => rfl
  | some argument => cases r.line <;> rfl

end Remark

theorem IgnoreInfo.names_eq_true_iff {codes : List String} :
    names codes code isLint = true ↔
      ∃ c ∈ codes, c = lowerCase code ∨ isLint = true ∧ c = "type=lint" := by
  simp only [names, allLints, Bool.or_eq_true, Bool.and_eq_true, contains_iff_mem]
  constructor
  · rintro (hmem | ⟨hlint, hmem⟩)
    · exact ⟨_, hmem, .inl rfl⟩
    · exact ⟨_, hmem, .inr ⟨hlint, rfl⟩⟩
  · rintro ⟨c, hmem, rfl | ⟨hlint, rfl⟩⟩
    · exact .inl hmem
    · exact .inr ⟨hlint, hmem⟩

namespace Remark

/-- An argument lists this code, or the code for all lints where it is one. -/
def Covers (argument : List Char) (code : String) (isLint : Bool) : Prop :=
  ∃ c, Lists argument c ∧ (c = lowerCase code ∨ isLint = true ∧ c = "type=lint")

/-- A comment suppresses a code for the whole file, or on the line it is about. -/
def Suppresses (r : Remark) (code : String) (line : Option Int) (isLint : Bool) : Prop :=
  ∃ argument, Covers argument code isLint ∧
    (r.Directs "ignore_for_file:" argument ∨
      r.Directs "ignore:" argument ∧ ∃ target, r.target? = some target ∧ line = some target)

theorem covers_iff :
    Covers argument code isLint ↔ IgnoreInfo.names (codes argument) code isLint = true := by
  simp only [IgnoreInfo.names_eq_true_iff, mem_codes_iff, Covers]

theorem exists_directs_iff (hword : ∃ c cs, word.toList = c :: cs ∧ isBlank c = false)
    (r : Remark) (code : String) (isLint : Bool) :
    (∃ argument, Covers argument code isLint ∧ r.Directs word argument) ↔
      ∃ argument, argument? word r.text.toList = some argument ∧
        IgnoreInfo.names (codes argument) code isLint = true := by
  constructor
  · rintro ⟨argument, hcode, hdirects⟩
    refine ⟨_, argument?_of_directs hword hdirects, ?_⟩
    rwa [codes_dropBlanks, ← covers_iff]
  · rintro ⟨argument, hargument, hcode⟩
    exact ⟨argument, covers_iff.mpr hcode, directs_of_argument? hargument⟩

theorem suppresses_iff (r : Remark) (code : String) (line : Option Int) (isLint : Bool) :
    r.suppresses code line isLint = true ↔ r.Suppresses code line isLint := by
  have hfileWord : ∃ c cs, "ignore_for_file:".toList = c :: cs ∧ isBlank c = false :=
    ⟨'i', "gnore_for_file:".toList, rfl, by decide⟩
  have hlineWord : ∃ c cs, "ignore:".toList = c :: cs ∧ isBlank c = false :=
    ⟨'i', "gnore:".toList, rfl, by decide⟩
  simp only [Suppresses, and_or_left, exists_or, ← and_assoc, exists_and_right,
    exists_directs_iff hfileWord, exists_directs_iff hlineWord]
  unfold suppresses fileCodes?
  rw [lineCodes?_eq]
  cases hfile : argument? "ignore_for_file:" r.text.toList with
  | some argument => simp [argument?_line_of_file hfile]
  | none =>
    cases argument? "ignore:" r.text.toList with
    | none => simp
    | some argument => cases r.target? <;> simp [and_comm]

end Remark

namespace IgnoreInfo

theorem isIgnored_iff_exists (remarks : List Remark) (code : String) (line : Option Int)
    (isLint : Bool) :
    (ofRemarks remarks).isIgnored code line isLint = true ↔
      ∃ r ∈ remarks, r.Suppresses code line isLint := by
  simp only [isIgnored_ofRemarks, any_eq_true, Remark.suppresses_iff]

theorem isIgnored_of_subset {remarks remarks' : List Remark} (hsub : remarks ⊆ remarks')
    {line : Option Int} (hignored : (ofRemarks remarks).isIgnored code line isLint = true) :
    (ofRemarks remarks').isIgnored code line isLint = true := by
  rw [isIgnored_iff_exists] at hignored ⊢
  obtain ⟨r, hr, hsuppresses⟩ := hignored
  exact ⟨r, hsub hr, hsuppresses⟩

/-- A code is suppressed exactly if a comment says so, in whatever order the comments
come; and whatever other comments there are, it stays suppressed. -/
theorem isIgnored_exactly_as_said (remarks : List Remark) (code : String) (line : Option Int)
    (isLint : Bool) :
    ((ofRemarks remarks).isIgnored code line isLint = true ↔
      ∃ r ∈ remarks, ∃ argument,
        (∃ c, Remark.Lists argument c ∧ (c = lowerCase code ∨ isLint = true ∧ c = "type=lint")) ∧
        (r.Directs "ignore_for_file:" argument ∨
          r.Directs "ignore:" argument ∧
            ∃ target, r.target? = some target ∧ line = some target)) ∧
    (∀ remarks' : List Remark, remarks.Perm remarks' →
      (ofRemarks remarks').isIgnored code line isLint =
        (ofRemarks remarks).isIgnored code line isLint) ∧
    ∀ remarks' : List Remark, remarks ⊆ remarks' →
      (ofRemarks remarks).isIgnored code line isLint = true →
      (ofRemarks remarks').isIgnored code line isLint = true := by
  refine ⟨isIgnored_iff_exists remarks code line isLint, ?_, ?_⟩
  · intro remarks' hperm
    rw [Bool.eq_iff_iff]
    exact ⟨isIgnored_of_subset hperm.symm.subset, isIgnored_of_subset hperm.subset⟩
  · intro remarks' hsub
    exact isIgnored_of_subset hsub

end IgnoreInfo

end CheckedThrows
