import CheckedThrows.Proofs.Rearrangement
import CheckedThrows.Proofs.UnmentionedSource

/-!
# Sources in another order

Sources on which no other depends can be pruned, one after the other, and what is
reported about those that are left stays the same.  So no order matters but that of
the sources that are left.
-/

namespace CheckedThrows

open List

variable {c : LintConfig} {given given' kept others others' : List Source} {s : Source}

/-- What a finding tells, with a site that has no numbers. -/
def Finding.unnumbered (f : Finding) : LintCode × String × String × Node :=
  { f with site := f.site.relabel (.numbers fun _ => 0) }.told

theorem Finding.Alike.unnumbered_eq {f f' : Finding} (h : f.Alike f') :
    f.unnumbered = f'.unnumbered := by
  obtain ⟨ρ, hsite⟩ := h.site
  simp only [unnumbered, told, h.code, h.typeName, h.message, hsite, Node.relabel_relabel]
  rfl

/-- The findings and the diagnostics about a source. -/
def LintResult.about (uri : String) (r : LintResult) :
    Option (List (LintCode × String × String × Node)) × List Diagnostic :=
  ((r.findings.lookup uri).map (map Finding.unnumbered),
    r.diagnostics.filter fun d => d.span.file = some uri)

theorem LintResult.AgreeOn.about_eq {uri : String} {r r' : LintResult} (h : r.AgreeOn uri r') :
    r.about uri = r'.about uri := by
  refine Prod.ext ?_ h.diagnostics.symm
  have hfindings := h.findings
  show (r.findings.lookup uri).map _ = (r'.findings.lookup uri).map _
  generalize r.findings.lookup uri = fs, r'.findings.lookup uri = fs' at hfindings
  cases hfindings with
  | none => rfl
  | some hfs =>
    refine congrArg some ?_
    rw [← forall₂_eq_eq_eq, forall₂_map_left_iff, forall₂_map_right_iff]
    exact hfs.imp fun _ _ => Finding.Alike.unnumbered_eq

theorem Source.IsUnused.perm (h : s.IsUnused others) (hperm : others.Perm others') :
    s.IsUnused others' := by
  have hbesides : Bundled.besides others' = Bundled.besides others := by
    simp only [Bundled.besides, hperm.any_eq]
  obtain ⟨hbundled, outcome, hparse, hunrelated⟩ := h
  refine ⟨hbundled, outcome, hparse, hunrelated.imp_right fun hunmentioned s' hs' => ?_⟩
  rw [hbesides, ((hperm.append_left _).mem_iff).symm] at hs'
  exact hunmentioned s' hs'

/-- `kept` is left of the given sources when some are taken away, one after the
other, each of them unused by those that are still there. -/
inductive Source.Prunes : List Source → List Source → Prop
  | refl (given : List Source) : Prunes given given
  | drop {before after kept : List Source} {s : Source} (hunused : s.IsUnused (before ++ after))
      (hrest : Prunes (before ++ after) kept) : Prunes (before ++ s :: after) kept

namespace Source.Prunes

theorem subset (h : Prunes given kept) : kept ⊆ given := by
  induction h with
  | refl => exact Subset.refl _
  | drop _ _ ih => exact fun s hs => mem_append.mpr ((mem_append.mp (ih hs)).imp_right (.tail _))

theorem reorder (h : Prunes given kept) (hdistinct : given.Nodup) (hperm : given.Perm given')
    (horder : kept <+ given') : Prunes given' kept := by
  induction h generalizing given' with
  | refl =>
    rw [horder.eq_of_length hperm.length_eq]
    exact .refl _
  | @drop before after kept s hunused hrest ih =>
    rw [nodup_middle, nodup_cons] at hdistinct
    obtain ⟨before', after', rfl⟩ := append_of_mem (hperm.subset (mem_append_right _ (.head _)))
    have hothers := (perm_middle.symm.trans (hperm.trans perm_middle)).cons_inv
    refine .drop (hunused.perm hothers) (ih hdistinct.2 hothers ?_)
    obtain ⟨first, rest, rfl, hfirst, hrest'⟩ := sublist_append_iff.mp horder
    cases hrest' with
    | cons _ hrest' => exact hfirst.append hrest'
    | cons_cons => exact absurd (hrest.subset (mem_append_right _ (.head _))) hdistinct.1

theorem about_eq (h : Prunes given kept) (hdistinct : (given.map Source.uri).Nodup)
    (hs : s ∈ kept) : (lint given c).map (·.about s.uri) = (lint kept c).map (·.about s.uri) := by
  induction h with
  | refl => rfl
  | @drop before after kept v hunused hrest ih =>
    have hdistinct' : ((before ++ after).map Source.uri).Nodup := by
      rw [map_append, map_cons, nodup_middle, ← map_append] at hdistinct
      exact (nodup_cons.mp hdistinct).2
    rw [← ih hdistinct' hs]
    rcases lint_insert hdistinct hunused c with
      ⟨fault, hlint, hlint'⟩ | ⟨r, r', hlint, hlint', hagree⟩
    · rw [hlint, hlint']
    · rw [hlint, hlint']
      exact congrArg Except.ok (hagree s (hrest.subset hs)).about_eq.symm

end Source.Prunes

end CheckedThrows
