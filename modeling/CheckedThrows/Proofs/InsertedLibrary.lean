import CheckedThrows.Proofs.Allocation
import CheckedThrows.Proofs.Renaming
import CheckedThrows.Proofs.WorkspaceReports
import Mathlib.Data.List.Find

/-!
# A library that nobody imports

A workspace with one unit more than another has the same libraries and classes
besides those of that unit, under other numbers.  As long as no directive of
another unit names the uri of the additional one, which is called `hidden`, no
name of another library means anything in it.
-/

namespace CheckedThrows

open List

/-! ## Lists with other items in between -/

/-- The items of `l'` that are kept are those of `l` after renaming. -/
def Interleaves {α β : Type} (keep : β → Bool) (rename : α → β) (l : List α) (l' : List β) : Prop :=
  l'.filter keep = l.map rename

namespace Interleaves

variable {α β γ δ : Type} {keep : β → Bool} {rename : α → β} {l : List α} {l' : List β}

theorem nil : Interleaves keep rename [] [] := rfl

theorem append {k : List α} {k' : List β} (hl : Interleaves keep rename l l')
    (hk : Interleaves keep rename k k') : Interleaves keep rename (l ++ k) (l' ++ k') := by
  rw [Interleaves, filter_append, hl, hk, map_append]

theorem of_kept (hkept : ∀ a ∈ l, keep (rename a) = true) :
    Interleaves keep rename l (l.map rename) := by
  rw [Interleaves, filter_eq_self]
  intro b hb
  obtain ⟨a, ha, rfl⟩ := mem_map.mp hb
  exact hkept a ha

theorem append_others {others : List β} (hl : Interleaves keep rename l l')
    (hothers : ∀ b ∈ others, keep b = false) : Interleaves keep rename l (l' ++ others) := by
  have hnone : others.filter keep = [] := by
    rw [filter_eq_nil_iff]
    intro b hb
    simp [hothers b hb]
  rw [Interleaves, filter_append, hl, hnone, append_nil]

theorem rename_mem (hl : Interleaves keep rename l l') {a : α} (ha : a ∈ l) : rename a ∈ l' := by
  have hmem : rename a ∈ l'.filter keep := by
    rw [hl]
    exact mem_map_of_mem ha
  exact (mem_filter.mp hmem).1

theorem keep_rename (hl : Interleaves keep rename l l') {a : α} (ha : a ∈ l) :
    keep (rename a) = true := by
  have hmem : rename a ∈ l'.filter keep := by
    rw [hl]
    exact mem_map_of_mem ha
  exact (mem_filter.mp hmem).2

theorem exists_of_mem (hl : Interleaves keep rename l l') {b : β} (hb : b ∈ l')
    (hkeep : keep b = true) : ∃ a ∈ l, rename a = b := by
  have hmem : b ∈ l'.filter keep := mem_filter.mpr ⟨hb, hkeep⟩
  rw [hl] at hmem
  exact mem_map.mp hmem

theorem find? (hl : Interleaves keep rename l l') {p : α → Bool} {p' : β → Bool}
    (hp : ∀ a ∈ l, p' (rename a) = p a) (hkept : ∀ b ∈ l', p' b = true → keep b = true) :
    l'.find? p' = (l.find? p).map rename := by
  have hsame : l'.find? p' = (l'.filter keep).find? p' := by
    rw [find?_filter]
    apply find?_congr
    intro b hb
    by_cases hb' : p' b = true
    · simp [hb', hkept b hb hb']
    · simp [hb']
  rw [hsame, hl, find?_map]
  congr 1
  exact find?_congr hp

theorem map {keep' : δ → Bool} {rename' : γ → δ} {f : α → γ} {f' : β → δ}
    (hl : Interleaves keep rename l l') (hf : ∀ a ∈ l, f' (rename a) = rename' (f a))
    (hkeep : ∀ b ∈ l', keep' (f' b) = keep b) :
    Interleaves keep' rename' (l.map f) (l'.map f') := by
  have hsame : l'.filter (keep' ∘ f') = l'.filter keep := filter_congr hkeep
  rw [Interleaves, filter_map, hsame, hl, map_map, map_map]
  exact map_congr_left hf

theorem flatMap {keep' : δ → Bool} {rename' : γ → δ} {f : α → List γ} {f' : β → List δ}
    (hl : Interleaves keep rename l l')
    (hf : ∀ a ∈ l, Interleaves keep' rename' (f a) (f' (rename a)))
    (hothers : ∀ b ∈ l', keep b = false → ∀ d ∈ f' b, keep' d = false) :
    Interleaves keep' rename' (l.flatMap f) (l'.flatMap f') := by
  induction l' generalizing l with
  | nil =>
    have hnone : l = [] := map_eq_nil_iff.mp hl.symm
    subst hnone
    rfl
  | cons b l' ih =>
    have hrest : ∀ b' ∈ l', keep b' = false → ∀ d ∈ f' b', keep' d = false :=
      fun b' hb' => hothers b' (mem_cons_of_mem b hb')
    rw [flatMap_cons]
    by_cases hb : keep b = true
    · rw [Interleaves, filter_cons_of_pos hb] at hl
      obtain ⟨a, k, rfl, rfl, hk⟩ := map_eq_cons_iff.mp hl.symm
      exact (hf a mem_cons_self).append
        (ih hk.symm (fun a' ha' => hf a' (mem_cons_of_mem a ha')) hrest)
    · rw [Interleaves, filter_cons_of_neg hb] at hl
      have hothersHead : (f' b).filter keep' = [] := by
        rw [filter_eq_nil_iff]
        intro d hd
        simp [hothers b mem_cons_self (by simpa using hb) d hd]
      rw [Interleaves, filter_append, hothersHead, nil_append]
      exact ih hl hf hrest

end Interleaves

/-! ## Declarations -/

/-- Tables of classes, where `t'` has `δ` types more. -/
structure TypeTable.Shifts (r : Renaming) (δ : Nat) (t t' : TypeTable) : Prop where
  size : t'.defs.size = t.defs.size + δ
  defs : ∀ ty d, t.def? ty = some d → t'.def? (r.type ty) = some (d.rename r)

def Renaming.ShiftsBetween (r : Renaming) (δ : Nat) (t t' : TypeTable) : Prop :=
  ∀ ty : Int, t.defs.size < ty → ty ≤ t'.defs.size → r.type ty = ty + δ

section
variable {r : Renaming} {δ : Nat}

theorem Renaming.ShiftsBetween.mono {t₁ t₂ t₃ t₄ : TypeTable} (h : r.ShiftsBetween δ t₁ t₄)
    (h₁₂ : t₁.defs.size ≤ t₂.defs.size) (h₃₄ : t₃.defs.size ≤ t₄.defs.size) :
    r.ShiftsBetween δ t₂ t₃ :=
  fun ty hlow hhigh => h ty (by omega) (by omega)

theorem TypeTable.Shifts.newClass {t t' : TypeTable} (ht : t.Shifts r δ t') (name : String)
    (library : Option String) (hnew : r.ShiftsBetween δ t (t.newClass name library).2) :
    (t'.newClass name library).1 = r.type (t.newClass name library).1 ∧
      (t.newClass name library).2.Shifts r δ (t'.newClass name library).2 := by
  have hnumber : (t'.newClass name library).1 = r.type (t.newClass name library).1 := by
    have hsize := ht.size
    have hnext : r.type (t.newClass name library).1 = (t.newClass name library).1 + δ := by
      apply hnew
      · exact Int.lt_add_one_of_le (Int.le_refl _)
      · simp [TypeTable.newClass, add]
    rw [hnext]
    show ((t'.defs.size : Int) + 1) = t.defs.size + 1 + δ
    omega
  refine ⟨hnumber, ?_, ?_⟩
  · have hsize := ht.size
    simp only [TypeTable.newClass, add, Array.size_push]
    omega
  · intro ty d hdef
    rcases (t.def?_add_iff _ d ty).mp hdef with hold | ⟨hty, rfl⟩
    · exact t'.grows_add _ _ _ (ht.defs ty d hold)
    · have hlast : ty = (t.newClass name library).1 := hty
      rw [hlast, ← hnumber]
      exact t'.def?_add _

namespace Library

variable (l : Library) (t : TypeTable) {t' : TypeTable}

@[simp]
theorem uri_rename : (l.rename r).uri = l.uri := rfl

theorem key_relabel (d : Declaration) : key (d.relabel r) = key d := by
  cases d with
  | function d => simp [Declaration.relabel, key, FunctionDecl.relabel_eq]
  | «class» d => rfl
  | «variable» d => simp [Declaration.relabel, key, Declaration.name, VarDecl.relabel_eq]

theorem alreadyDefined_rename (uri name : String) (place : Extent) :
    (alreadyDefined uri name place).rename r = alreadyDefined uri name (r.extent place) := by
  simp only [Diagnostic.rename, alreadyDefined, warning, r.span_ofExtent]

theorem size_le_elementOf (uri : String) (t : TypeTable) (d : Declaration) :
    t.defs.size ≤ (elementOf uri t d).2.defs.size := by
  cases d with
  | «class» d => simp [elementOf, TypeTable.newClass, TypeTable.add]
  | function d => exact Nat.le_refl _
  | «variable» d => exact Nat.le_refl _

theorem elementOf_relabel {t : TypeTable} (ht : t.Shifts r δ t') (uri : String) (d : Declaration)
    (hnew : r.ShiftsBetween δ t (elementOf uri t d).2) :
    (elementOf uri t' (d.relabel r)).1 = (elementOf uri t d).1.rename r ∧
      (elementOf uri t d).2.Shifts r δ (elementOf uri t' (d.relabel r)).2 := by
  cases d with
  | «class» d =>
    obtain ⟨hnumber, hshifts⟩ := ht.newClass d.name uri hnew
    refine ⟨?_, hshifts⟩
    have helement : Element.class ⟨d.relabel r, uri, (t'.newClass d.name uri).1⟩ =
        .class ⟨d.relabel r, uri, r.type (t.newClass d.name uri).1⟩ := by rw [hnumber]
    exact helement
  | function d => exact ⟨rfl, ht⟩
  | «variable» d => exact ⟨rfl, ht⟩

theorem size_le_declareAll (ds : List Declaration) :
    t.defs.size ≤ (l.declareAll t ds).2.1.defs.size :=
  declareAll_induction (motive := fun _ t' => t.defs.size ≤ t'.defs.size)
    (fun l _ hle d _ => Nat.le_trans hle (size_le_elementOf l.uri _ d)) (Nat.le_refl _)

theorem isSome_lookup_rename (name : String) :
    ((l.rename r).scope.lookup name).isSome = (l.scope.lookup name).isSome := by
  show (List.lookup name (NameTable.mapValues _ l.scope)).isSome = _
  rw [NameTable.lookup_mapValues, Option.isSome_map]

theorem enter_rename (e : Element) (d : Declaration) :
    (l.rename r).enter (e.rename r) (d.relabel r) = (l.enter e d).rename r := by
  simp only [enter, key_relabel, isSome_lookup_rename]
  by_cases htaken : (l.scope.lookup (key d)).isSome <;>
    simp [htaken, Library.rename, Names.rename, NameTable.mapValues, Option.toList_map]

theorem declareAll_relabel {t : TypeTable} (ht : t.Shifts r δ t') (l : Library)
    (ds : List Declaration) (hnew : r.ShiftsBetween δ t (l.declareAll t ds).2.1) :
    let declared := l.declareAll t ds
    let declared' := (l.rename r).declareAll t' (ds.map (Declaration.relabel r))
    declared'.1 = declared.1.rename r ∧ declared.2.1.Shifts r δ declared'.2.1 ∧
      declared'.2.2 = declared.2.2.map (Diagnostic.rename r) := by
  induction ds generalizing l t t' with
  | nil => exact ⟨rfl, ht, rfl⟩
  | cons d ds ih =>
    have hname : (d.relabel r).name = d.name := by
      cases d <;> simp [Declaration.relabel, Declaration.name, FunctionDecl.relabel_eq,
        VarDecl.relabel_eq, ClassDecl.relabel]
    have hextent : (d.relabel r).info.extent = r.extent d.info.extent := by
      cases d <;> simp [Declaration.relabel, Declaration.info, FunctionDecl.relabel_eq,
        VarDecl.relabel_eq, ClassDecl.relabel, NodeInfo.relabel]
    rw [declareAll_cons] at hnew
    have hstep := hnew.mono (Nat.le_refl _) (size_le_declareAll _ (elementOf l.uri t d).2 ds)
    obtain ⟨helement, hshifts⟩ := elementOf_relabel ht l.uri d hstep
    have hrest := hnew.mono (size_le_elementOf l.uri t d) (Nat.le_refl _)
    obtain ⟨hfst, htables, hwarnings⟩ := ih hshifts _ hrest
    rw [map_cons, declareAll_cons, declareAll_cons, uri_rename, helement, enter_rename]
    refine ⟨hfst, htables, ?_⟩
    simp only [key_relabel, isSome_lookup_rename, hname, hextent, hfst, hwarnings, uri_rename]
    split
    · rw [map_cons, alreadyDefined_rename]
    · rfl

theorem grows_declareAll (ds : List Declaration) : t.Grows (l.declareAll t ds).2.1 := by
  refine declareAll_induction (motive := fun _ t' => t.Grows t')
    (fun l t' ht d _ => ht.trans ?_) (.refl t)
  cases d with
  | «class» d => exact t'.grows_add _
  | function d => exact .refl t'
  | «variable» d => exact .refl t'

theorem uri_ofUnit (u : CompilationUnit) : (ofUnit t u).1.uri = u.uri := by
  rw [uri, ofUnit, unit_declareAll]

theorem ofUnit_relabel {t : TypeTable} (ht : t.Shifts r δ t') {u : CompilationUnit}
    (hnew : r.ShiftsBetween δ t (ofUnit t u).2.1) :
    (ofUnit t' (u.relabel r)).1 = (ofUnit t u).1.rename r ∧
      (ofUnit t u).2.1.Shifts r δ (ofUnit t' (u.relabel r)).2.1 ∧
      (ofUnit t' (u.relabel r)).2.2 = (ofUnit t u).2.2.map (Diagnostic.rename r) :=
  declareAll_relabel ht { unit := u } u.declarations hnew

theorem type_of_mem_declareAll {l : Library} {t : TypeTable} {ds : List Declaration} :
    ∀ c ∈ (l.declareAll t ds).1.classes, c ∈ l.classes ∨
      ((t.defs.size : Int) < c.type ∧ c.type ≤ ((l.declareAll t ds).2.1.defs.size : Int)) := by
  refine (declareAll_induction (motive := fun l' t' => t.defs.size ≤ t'.defs.size ∧
    ∀ c ∈ l'.classes, c ∈ l.classes ∨ ((t.defs.size : Int) < c.type ∧ c.type ≤ (t'.defs.size : Int)))
    ?_ ⟨Nat.le_refl _, fun c hc => .inl hc⟩).2
  rintro l' t' ⟨hle, hclasses⟩ d -
  have hsize := size_le_elementOf l'.uri t' d
  refine ⟨Nat.le_trans hle hsize, forall_mem_append.mpr ⟨fun c hc => ?_, fun c hc => ?_⟩⟩
  · exact (hclasses c hc).imp_right fun ⟨hlow, hhigh⟩ =>
      ⟨hlow, Int.le_trans hhigh (Int.ofNat_le.mpr hsize)⟩
  · cases d with
    | «class» d =>
      -- it gets the next number
      obtain rfl := mem_singleton.mp hc
      simp only [elementOf, TypeTable.newClass, TypeTable.add, Array.size_push]
      exact .inr ⟨Int.lt_add_one_of_le (Int.ofNat_le.mpr hle), Int.le_refl _⟩
    | function d => cases hc
    | «variable» d => cases hc

end Library

end

/-! ## Units -/

def Library.isElsewhere (hidden : String) (l : Library) : Bool := l.uri ≠ hidden

def ClassInfo.isElsewhere (hidden : String) (c : ClassInfo) : Bool := c.element.library ≠ hidden

def Diagnostic.isElsewhere (hidden : String) (d : Diagnostic) : Bool :=
  d.span.file ≠ some hidden

/-- What a workspace that also declares the unit `hidden` has in common with one
that does not. -/
structure Workspace.DeclaresBeside (r : Renaming) (hidden : String) (w w' : Workspace) :
    Prop where
  libraries : Interleaves (Library.isElsewhere hidden) (Library.rename r) w.libraries w'.libraries
  warnings : Interleaves (Diagnostic.isElsewhere hidden) (Diagnostic.rename r) w.warnings
    w'.warnings

section
variable {r : Renaming} {hidden : String}
variable (u : CompilationUnit) {w w' : Workspace} {m : Nat}

theorem Diagnostic.isElsewhere_rename (d : Diagnostic) :
    (d.rename r).isElsewhere hidden = d.isElsewhere hidden := by
  simp only [isElsewhere, rename, r.file_span]

/-- Diagnostics that are the same in both, but for where they stand. -/
theorem Interleaves.same {ds : List Diagnostic} (hds : ∀ d ∈ ds, d.span.file ≠ some hidden) :
    Interleaves (Diagnostic.isElsewhere hidden) (Diagnostic.rename r) ds
      (ds.map (Diagnostic.rename r)) := by
  apply Interleaves.of_kept
  intro d hd
  rw [Diagnostic.isElsewhere_rename]
  simpa [Diagnostic.isElsewhere] using hds d hd

theorem Libraries.find?_rename {ls ls' : Libraries}
    (hls : Interleaves (Library.isElsewhere hidden) (Library.rename r) ls ls') {uri : String}
    (huri : uri ≠ hidden) : ls'.find? uri = (ls.find? uri).map (Library.rename r) := by
  apply Interleaves.find? hls
  · exact fun _ _ => rfl
  · intro l _ hl
    have heq : l.uri = uri := by simpa using hl
    simpa [Library.isElsewhere, heq] using huri

theorem CompilationUnit.file_span : u.span.file = some u.uri := by
  unfold span
  split <;> rfl

theorem CompilationUnit.span_relabel : (u.relabel r).span = r.span u.span := by
  have hextent : (u.relabel r).extent = u.extent.map r.extent := rfl
  have huri : (u.relabel r).uri = u.uri := rfl
  unfold span
  rw [hextent, huri]
  cases u.extent with
  | none => exact (r.span_ofFile u.uri).symm
  | some e => exact (r.span_ofExtent u.uri e).symm

theorem Workspace.duplicateLibrary_relabel :
    duplicateLibrary (u.relabel r) = (duplicateLibrary u).rename r := by
  simp only [duplicateLibrary, Diagnostic.rename, warning, u.span_relabel]
  rfl

theorem Workspace.size_le_addUnit (w : Workspace) (u : CompilationUnit) :
    w.types.defs.size ≤ (w.addUnit u).types.defs.size := by
  unfold addUnit
  split
  · exact Nat.le_refl _
  · exact Library.size_le_declareAll _ _ _

theorem Workspace.size_le_foldl_addUnit (w : Workspace) (us : List CompilationUnit) :
    w.types.defs.size ≤ (us.foldl addUnit w).types.defs.size := by
  induction us generalizing w with
  | nil => exact Nat.le_refl _
  | cons u us ih => exact Nat.le_trans (w.size_le_addUnit u) (ih _)

theorem Workspace.DeclaresBeside.addUnit {δ : Nat} (hw : w.DeclaresBeside r hidden w')
    (ht : w.types.Shifts r δ w'.types) {u : CompilationUnit} (hu : u.uri ≠ hidden)
    (hnew : r.ShiftsBetween δ w.types (w.addUnit u).types) :
    (w.addUnit u).DeclaresBeside r hidden (w'.addUnit (u.relabel r)) ∧
      (w.addUnit u).types.Shifts r δ (w'.addUnit (u.relabel r)).types := by
  have hfind := Libraries.find?_rename hw.libraries hu
  have huri : (u.relabel r).uri = u.uri := rfl
  unfold Workspace.addUnit at hnew ⊢
  rw [huri, hfind, Option.isSome_map]
  by_cases hknown : (w.libraries.find? u.uri).isSome
  · have hspan : (duplicateLibrary u).span.file ≠ some hidden := by
      have hfile : (duplicateLibrary u).span.file = some u.uri := u.file_span
      simpa [hfile] using hu
    rw [if_pos hknown, if_pos hknown, duplicateLibrary_relabel]
    exact ⟨⟨hw.libraries, hw.warnings.append (.same (by simpa using hspan))⟩, ht⟩
  · rw [if_neg hknown] at hnew
    rw [if_neg hknown, if_neg hknown]
    obtain ⟨hlibrary, hshifts, hwarnings⟩ := Library.ofUnit_relabel ht hnew
    refine ⟨⟨?_, ?_⟩, hshifts⟩
    · have helsewhere : Interleaves (Library.isElsewhere hidden) (Library.rename r)
          [(Library.ofUnit w.types u).1] [(Library.ofUnit w'.types (u.relabel r)).1] := by
        rw [hlibrary]
        apply Interleaves.of_kept (l := [(Library.ofUnit w.types u).1])
        intro l hl
        obtain rfl := mem_singleton.mp hl
        simpa [Library.isElsewhere, Library.uri_ofUnit] using hu
      exact hw.libraries.append helsewhere
    · have hown : ∀ d ∈ (Library.ofUnit w.types u).2.2, d.span.file ≠ some hidden := by
        intro d hd
        rw [Library.file_of_mem_ofUnit hd]
        simpa using hu
      have hsame : Interleaves (Diagnostic.isElsewhere hidden) (Diagnostic.rename r)
          (Library.ofUnit w.types u).2.2 (Library.ofUnit w'.types (u.relabel r)).2.2 := by
        rw [hwarnings]
        exact .same hown
      exact hw.warnings.append hsame

theorem Workspace.DeclaresBeside.foldl {δ : Nat} {us : List CompilationUnit}
    (hw : w.DeclaresBeside r hidden w') (ht : w.types.Shifts r δ w'.types)
    (hus : ∀ u ∈ us, u.uri ≠ hidden)
    (hnew : r.ShiftsBetween δ w.types (us.foldl Workspace.addUnit w).types) :
    let us' := us.map (CompilationUnit.relabel r)
    (us.foldl Workspace.addUnit w).DeclaresBeside r hidden (us'.foldl Workspace.addUnit w') ∧
      (us.foldl Workspace.addUnit w).types.Shifts r δ (us'.foldl Workspace.addUnit w').types := by
  induction us generalizing w w' with
  | nil => exact ⟨hw, ht⟩
  | cons u us ih =>
    obtain ⟨hu, hrest⟩ := forall_mem_cons.mp hus
    rw [foldl_cons] at hnew
    have hfirst := hnew.mono (Nat.le_refl _) ((w.addUnit u).size_le_foldl_addUnit us)
    obtain ⟨hw₁, ht₁⟩ := hw.addUnit ht hu hfirst
    exact ih hw₁ ht₁ hrest (hnew.mono (w.size_le_addUnit u) (Nat.le_refl _))

/-- A unit that is added only to the second workspace. -/
theorem Workspace.DeclaresBeside.addHidden (hw : w.DeclaresBeside r hidden w')
    (hnone : w'.libraries.find? hidden = none) {x : Option CompilationUnit}
    (hx : ∀ u ∈ x, u.uri = hidden) :
    let w'' := x.toList.foldl Workspace.addUnit w'
    w.DeclaresBeside r hidden w'' ∧ w'.types.Grows w''.types ∧
      ∀ l ∈ w''.libraries, l.uri = hidden → ∀ c ∈ l.classes,
        (w'.types.defs.size : Int) < c.type ∧ c.type ≤ (w''.types.defs.size : Int) := by
  have hother : ∀ l ∈ w'.libraries, l.uri ≠ hidden := by
    intro l hl huri
    have hfound := find?_eq_none.mp hnone l hl
    simp [huri] at hfound
  cases x with
  | none => exact ⟨hw, .refl _, fun l hl huri => absurd huri (hother l hl)⟩
  | some x =>
    have huri : x.uri = hidden := hx x rfl
    have hadded : (some x).toList.foldl Workspace.addUnit w' =
        { w' with
          libraries := w'.libraries ++ [(Library.ofUnit w'.types x).1]
          types := (Library.ofUnit w'.types x).2.1
          warnings := w'.warnings ++ (Library.ofUnit w'.types x).2.2 } := by
      rw [Option.toList_some, foldl_cons, Workspace.addUnit, huri, hnone]
      rfl
    rw [hadded]
    refine ⟨⟨hw.libraries.append_others ?_, hw.warnings.append_others ?_⟩, ?_, ?_⟩
    · intro l hl
      obtain rfl := mem_singleton.mp hl
      simp [Library.isElsewhere, Library.uri_ofUnit, huri]
    · intro d hd
      simp [Diagnostic.isElsewhere, Library.file_of_mem_ofUnit hd, huri]
    · exact Library.grows_declareAll _ _ _
    · intro l hl hlibrary c hc
      rcases mem_append.mp hl with hold | hnew
      · exact absurd hlibrary (hother l hold)
      · obtain rfl := mem_singleton.mp hnew
        exact (Library.type_of_mem_declareAll c hc).resolve_left not_mem_nil

/-- Types up to `a` keep their numbers, those from there on up to `n` make room
for `m` others, and no further type gets into this range. -/
structure Renaming.Inserts (r : Renaming) (a m n : Nat) : Prop where
  low : ∀ ty k : Int, r.type ty = k → 0 < ty → ty ≤ a → k = ty
  high : ∀ ty k : Int, r.type ty = k → a < ty → ty ≤ n → k = ty + m
  beyond : ∀ ty k : Int, r.type ty = k → 0 < k → k ≤ n + m → 0 < ty ∧ ty ≤ n

theorem Renaming.Inserts.ne_between {a n : Nat} (hr : r.Inserts a m n) (hle : a ≤ n) {k : Int}
    (hlow : a < k) (hhigh : k ≤ a + m) (ty : Int) : k ≠ r.type ty := by
  intro hk
  obtain ⟨hpos, hbound⟩ := hr.beyond ty k hk.symm (by omega) (by omega)
  by_cases hty : ty ≤ a
  · have := hr.low ty k hk.symm hpos hty
    omega
  · have := hr.high ty k hk.symm (by omega) hbound
    omega

theorem TypeTable.shifts_initial {a n : Nat} (hr : r.Inserts a m n) (ha : 4 ≤ a) :
    TypeTable.initial.Shifts r 0 TypeTable.initial := by
  refine ⟨rfl, ?_⟩
  intro ty d hdef
  have hhas : TypeTable.initial.Has ty := ⟨d, hdef⟩
  have hle := hhas.le_size
  have hsize : TypeTable.initial.defs.size = 4 := rfl
  have hsame : r.type ty = ty := hr.low ty _ rfl (by omega) (by omega)
  have hplain : d.rename r = d := by
    cases d with
    | function params returns =>
      exact absurd hdef (TypeTable.unlinked_initial.no_functions ty params returns)
    | _ => rfl
  rw [hsame, hplain]
  exact hdef

def Relabeling.unitsBeside (ρ : Relabeling) (before : List CompilationUnit)
    (x : Option CompilationUnit) (after : List CompilationUnit) : List CompilationUnit :=
  before.map (CompilationUnit.relabel ρ) ++ x.toList ++ after.map (CompilationUnit.relabel ρ)

theorem Workspace.size_declare_le (before after : List CompilationUnit) :
    (declare before).types.defs.size ≤ (declare (before ++ after)).types.defs.size := by
  rw [declare, declare, foldl_append]
  exact size_le_foldl_addUnit _ after

theorem Workspace.four_le_size_declare (units : List CompilationUnit) :
    4 ≤ (declare units).types.defs.size :=
  size_le_foldl_addUnit ({} : Workspace) units

theorem Workspace.declaresBeside_declare {before after : List CompilationUnit}
    {x : Option CompilationUnit} (hx : ∀ u ∈ x, u.uri = hidden)
    (hothers : ∀ u ∈ before ++ after, u.uri ≠ hidden)
    (hr : r.Inserts (declare before).types.defs.size m (declare (before ++ after)).types.defs.size)
    (hm : (declare (before.map (CompilationUnit.relabel r) ++ x.toList)).types.defs.size =
      (declare before).types.defs.size + m) :
    let w := declare (before ++ after)
    let w' := declare (r.unitsBeside before x after)
    w.DeclaresBeside r hidden w' ∧ w.types.Shifts r m w'.types ∧
      ∀ l ∈ w'.libraries, l.uri = hidden → ∀ c ∈ l.classes, ∀ ty, c.type ≠ r.type ty := by
  have hfour := four_le_size_declare before
  have hsize := size_declare_le before after
  -- up to the additional unit all numbers are the same
  have hlow : r.ShiftsBetween 0 ({} : Workspace).types (before.foldl addUnit {}).types := by
    intro ty hty hle
    have hfirst : (0 : Int) ≤ (({} : Workspace).types.defs.size : Int) := Int.natCast_nonneg _
    have hpos : 0 < ty := by omega
    rw [hr.low ty _ rfl hpos hle]
    simp
  obtain ⟨hbefore, htables⟩ : (declare before).DeclaresBeside r hidden
        (declare (before.map (CompilationUnit.relabel r))) ∧
      (declare before).types.Shifts r 0 (declare (before.map (CompilationUnit.relabel r))).types :=
    DeclaresBeside.foldl ⟨.nil, .nil⟩ (TypeTable.shifts_initial hr hfour)
      (fun u hu => hothers u (mem_append_left _ hu)) hlow
  have hnone : (declare (before.map (CompilationUnit.relabel r))).libraries.find? hidden =
      none := by
    rw [Libraries.find?, find?_eq_none]
    intro l hl huri
    obtain ⟨u, hu, hunit⟩ := mem_map.mp (unit_mem_of_mem_declare hl)
    apply hothers u (mem_append_left _ hu)
    have hsame : l.uri = u.uri := by rw [Library.uri, ← hunit]; rfl
    rw [← hsame]
    simpa using huri
  obtain ⟨hwith, hgrows, hclasses⟩ := hbefore.addHidden hnone hx
  have hdeclareHidden : declare (before.map (CompilationUnit.relabel r) ++ x.toList) =
      x.toList.foldl addUnit (declare (before.map (CompilationUnit.relabel r))) := by
    rw [declare, foldl_append]
    rfl
  rw [← hdeclareHidden] at hwith hgrows hclasses
  -- from there on they are shifted
  have hshifts : (declare before).types.Shifts r m
      (declare (before.map (CompilationUnit.relabel r) ++ x.toList)).types :=
    ⟨hm, fun ty d hdef => hgrows _ _ (htables.defs ty d hdef)⟩
  have hhigh : r.ShiftsBetween m (declare before).types
      (after.foldl addUnit (declare before)).types := by
    intro ty hty hle
    rw [declare, ← foldl_append] at hle
    exact hr.high ty _ rfl hty hle
  obtain ⟨hall, htablesAll⟩ := hwith.foldl hshifts
    (fun u hu => hothers u (mem_append_right _ hu)) hhigh
  have hdeclare : declare (before ++ after) = after.foldl addUnit (declare before) := by
    rw [declare, foldl_append]
    rfl
  have hdeclare' : declare (r.unitsBeside before x after) =
      (after.map (CompilationUnit.relabel r)).foldl addUnit
        (declare (before.map (CompilationUnit.relabel r) ++ x.toList)) := by
    rw [declare, Relabeling.unitsBeside, foldl_append]
    rfl
  rw [hdeclare']
  rw [hdeclare] at hsize ⊢
  refine ⟨hall, htablesAll, ?_⟩
  intro l hl huri c hc ty
  rcases mem_or_unit_mem_of_mem_foldl_addUnit l hl with hold | hnew
  · obtain ⟨hbelow, habove⟩ := hclasses l hold huri c hc
    have hsame : (declare (before.map (CompilationUnit.relabel r))).types.defs.size =
        (declare before).types.defs.size := htables.size
    rw [hsame] at hbelow
    rw [hm] at habove
    rw [hdeclare] at hr
    exact hr.ne_between hsize hbelow (by simpa using habove) ty
  · obtain ⟨u, hu, hunit⟩ := mem_map.mp hnew
    have hsame : l.uri = u.uri := by rw [Library.uri, ← hunit]; rfl
    exact absurd (hsame.symm.trans huri) (hothers u (mem_append_right _ hu))

end

/-! ## Directives -/

/-- Whether a directive of a unit names a uri, as it is written or as a path seen
from the unit. -/
def CompilationUnit.Mentions (u : CompilationUnit) (uri : String) : Prop :=
  ∃ d ∈ u.directives, ∃ text, d.uri.toString? = some text ∧
    (text = uri ∨ Uri.normalize (Uri.join (Uri.directory u.uri) text) = uri)

namespace Library

section
variable {known known' : List String} {hidden : String}
  (hknown : ∀ uri, uri ≠ hidden → (uri ∈ known' ↔ uri ∈ known))
include hknown

theorem resolve_beside {importer text : String} (hwritten : text ≠ hidden)
    (hpath : Uri.normalize (Uri.join (Uri.directory importer) text) ≠ hidden) :
    Uri.resolve known' importer text = Uri.resolve known importer text ∧
      Uri.resolve known importer text ≠ hidden := by
  have hcontains : known'.contains text = known.contains text := by
    rw [Bool.eq_iff_iff, contains_iff_mem, contains_iff_mem]
    exact hknown text hwritten
  unfold Uri.resolve
  rw [hcontains]
  split
  · exact ⟨rfl, hwritten⟩
  · exact ⟨rfl, hpath⟩

variable (r : Renaming)

theorem linkDirective_beside (l : Library) {d : Directive}
    (hd : ∀ text, d.uri.toString? = some text →
      text ≠ hidden ∧ Uri.normalize (Uri.join (Uri.directory l.uri) text) ≠ hidden) :
    (l.rename r).linkDirective known' (d.relabel r) =
      ((l.linkDirective known d).1.rename r,
        (l.linkDirective known d).2.map (Diagnostic.rename r)) := by
  have htarget : (d.uri.toString?.map (Uri.resolve known' l.uri)).filter (· ∈ known') =
      (d.uri.toString?.map (Uri.resolve known l.uri)).filter (· ∈ known) := by
    cases htext : d.uri.toString? with
    | none => rfl
    | some text =>
      obtain ⟨hwritten, hpath⟩ := hd text htext
      obtain ⟨hsame, hother⟩ := resolve_beside hknown hwritten hpath
      simp only [Option.map_some, hsame, Option.filter_some, hknown _ hother]
  have hparts : (d.relabel r).uri = d.uri ∧ (d.relabel r).kind = d.kind ∧
      (d.relabel r).info.extent = r.extent d.info.extent := ⟨rfl, rfl, rfl⟩
  obtain ⟨huri, hkind, hextent⟩ := hparts
  unfold linkDirective
  rw [huri, hkind, hextent, uri_rename, htarget]
  cases (d.uri.toString?.map (Uri.resolve known l.uri)).filter (· ∈ known) with
  | none => simp [Diagnostic.rename, warning, r.span_ofExtent]
  | some uri => cases d.kind <;> rfl

theorem link_beside {l : Library} (hcore : coreUri ≠ hidden) (hl : ¬l.unit.Mentions hidden) :
    (l.rename r).link known' =
      ((l.link known).1.rename r, (l.link known).2.map (Diagnostic.rename r)) := by
  have hfold : ∀ (ds : List Directive) (l₁ : Library) (warnings : List Diagnostic),
      l₁.uri = l.uri → (∀ d ∈ ds, d ∈ l.unit.directives) →
      (ds.map (Directive.relabel r)).foldl
          (fun (step : Library × List Diagnostic) d =>
            ((step.1.linkDirective known' d).1, step.2 ++ (step.1.linkDirective known' d).2))
          (l₁.rename r, warnings.map (Diagnostic.rename r)) =
        let linked := ds.foldl
          (fun (step : Library × List Diagnostic) d =>
            ((step.1.linkDirective known d).1, step.2 ++ (step.1.linkDirective known d).2))
          (l₁, warnings)
        (linked.1.rename r, linked.2.map (Diagnostic.rename r)) := by
    intro ds
    induction ds with
    | nil => intros; rfl
    | cons d ds ih =>
      intro l₁ warnings huri hds
      obtain ⟨hd, hrest⟩ := forall_mem_cons.mp hds
      have hnames : ∀ text, d.uri.toString? = some text → text ≠ hidden ∧
          Uri.normalize (Uri.join (Uri.directory l₁.uri) text) ≠ hidden := by
        intro text htext
        rw [huri]
        constructor
        · exact fun heq => hl ⟨d, hd, text, htext, .inl heq⟩
        · exact fun heq => hl ⟨d, hd, text, htext, .inr heq⟩
      have hsame := (linkDirective_declarations known l₁ d).unit
      rw [map_cons, foldl_cons, foldl_cons,
        linkDirective_beside hknown r l₁ hnames, ← map_append]
      exact ih _ _ (by rw [uri, hsame]; exact huri) hrest
  have himport : ∀ l : Library, importCore known' (l.rename r) = (importCore known l).rename r := by
    intro l
    unfold importCore
    rw [uri_rename]
    simp only [hknown _ hcore]
    split <;> rfl
  have hlinked := hfold l.unit.directives l [] rfl fun _ hd => hd
  rw [map_nil] at hlinked
  unfold link
  show (importCore known' _, _) = _
  have hdirectives : (l.rename r).unit.directives =
      l.unit.directives.map (Directive.relabel r) := rfl
  rw [hdirectives, hlinked, himport]

end

theorem mem_addUri {uris : List String} {uri uri' : String} (hmem : uri ∈ addUri uris uri') :
    uri ∈ uris ∨ uri = uri' := by
  unfold addUri at hmem
  split at hmem
  · exact .inl hmem
  · simpa using hmem

def IsApartFrom (hidden : String) (l : Library) : Prop :=
  hidden ∉ l.imports ∧ hidden ∉ l.exports

theorem IsApartFrom.link {known : List String} {hidden : String} {l : Library}
    (hl : l.IsApartFrom hidden) (hunknown : hidden ∉ known) :
    (l.link known).1.IsApartFrom hidden := by
  have hadd : ∀ uris uri, hidden ∉ uris → uri ∈ known → hidden ∉ addUri uris uri := by
    intro uris uri huris huri hmem
    rcases mem_addUri hmem with hold | rfl
    · exact huris hold
    · exact hunknown huri
  obtain ⟨linked, ⟨himports, hexports⟩, hlink⟩ := link_induction known
    (motive := fun linked : Library × List Diagnostic => linked.1.IsApartFrom hidden) hl <| by
    rintro linked directive - ⟨himports, hexports⟩
    unfold linkDirective
    split
    next uri htarget =>
      have hmem : uri ∈ known := by simpa using (Option.filter_eq_some_iff.mp htarget).2
      split
      · exact ⟨hadd _ _ himports hmem, hexports⟩
      · exact ⟨himports, hadd _ _ hexports hmem⟩
    next => exact ⟨himports, hexports⟩
  rw [hlink]
  unfold importCore
  split
  next hcore => exact ⟨hadd _ _ himports hcore.1, hexports⟩
  next => exact ⟨himports, hexports⟩

end Library

namespace Workspace

theorem isApartFrom_declare (hidden : String) (units : List CompilationUnit) :
    ∀ l ∈ (declare units).libraries, l.IsApartFrom hidden :=
  forall_mem_declare fun _ _ _ => Library.declareAll_induction
    (motive := fun l _ => l.IsApartFrom hidden) (fun _ _ hl _ _ => hl)
    ⟨not_mem_nil, not_mem_nil⟩

variable {r : Renaming} {hidden : String} {w w' : Workspace}

theorem DeclaresBeside.linkDirectives (hw : w.DeclaresBeside r hidden w')
    (hcore : Library.coreUri ≠ hidden) (hmentions : ∀ l ∈ w.libraries, ¬l.unit.Mentions hidden) :
    w.linkDirectives.DeclaresBeside r hidden w'.linkDirectives := by
  have hknown : ∀ uri, uri ≠ hidden →
      (uri ∈ w'.libraries.map Library.uri ↔ uri ∈ w.libraries.map Library.uri) := by
    intro uri huri
    constructor
    · intro hmem
      obtain ⟨l', hl', rfl⟩ := mem_map.mp hmem
      obtain ⟨l, hl, rfl⟩ :=
        hw.libraries.exists_of_mem hl' (by simpa [Library.isElsewhere] using huri)
      exact mem_map.mpr ⟨l, hl, rfl⟩
    · intro hmem
      obtain ⟨l, hl, rfl⟩ := mem_map.mp hmem
      exact mem_map.mpr ⟨l.rename r, hw.libraries.rename_mem hl, rfl⟩
  have hlink : ∀ l ∈ w.libraries,
      (l.rename r).link (w'.libraries.map Library.uri) =
        ((l.link (w.libraries.map Library.uri)).1.rename r,
          (l.link (w.libraries.map Library.uri)).2.map (Diagnostic.rename r)) :=
    fun l hl => Library.link_beside hknown r hcore (hmentions l hl)
  have huri : ∀ (known : List String) (l : Library), (l.link known).1.uri = l.uri := by
    intro known l
    rw [Library.uri, (Library.link_declarations known l).unit]
    rfl
  constructor
  · simp only [Workspace.linkDirectives, map_map]
    apply hw.libraries.map
    · intro l hl
      simp only [Function.comp_apply, hlink l hl]
    · intro l _
      simp [Library.isElsewhere, huri]
  · apply hw.warnings.append
    simp only [flatMap_map]
    apply hw.libraries.flatMap
    · intro l hl
      rw [hlink l hl]
      apply Interleaves.same
      intro d hd
      have helsewhere : l.uri ≠ hidden := of_decide_eq_true (hw.libraries.keep_rename hl)
      rw [(Library.isDeclarative_of_mem_link hd).file]
      simpa using helsewhere
    · intro l _ hl d hd
      have hhidden : l.uri = hidden := by simpa [Library.isElsewhere] using hl
      simp [Diagnostic.isElsewhere, (Library.isDeclarative_of_mem_link hd).file, hhidden]

theorem isApartFrom_linkDirectives (hw : ∀ l ∈ w.libraries, l.IsApartFrom hidden)
    (hunknown : hidden ∉ w.libraries.map Library.uri) :
    ∀ l ∈ w.linkDirectives.libraries, l.IsApartFrom hidden := by
  intro l hl
  obtain ⟨l₀, hl₀, rfl⟩ := mem_linkDirectives.mp hl
  exact (hw l₀ hl₀).link hunknown

end Workspace

end CheckedThrows
