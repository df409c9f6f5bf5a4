import CheckedThrows.Proofs.WorkspaceTypes
import CheckedThrows.Resolution.Lookup

/-!
# What lookups find

Whatever can be found in a workspace, at its top level, in a class or from
inside a body, is in the scope of a library, in the tables of a class, or among
the names of the blocks around.  So what holds of all of these holds of what is
found.
-/

namespace CheckedThrows

open List

variable {ls : Libraries} {uri : String} {e : Element} {c : ClassElement}

theorem mem_of_mem_foldl_unknown {α : Type} {knows : List α → α → Bool} {a : α} {old new : List α}
    (hmem : a ∈ new.foldl (fun kept x => if knows kept x then kept else kept ++ [x]) old) :
    a ∈ old ∨ a ∈ new := by
  induction new generalizing old with
  | nil => exact .inl hmem
  | cons x new ih =>
    rw [foldl_cons] at hmem
    rcases ih hmem with hkept | hrest
    · split at hkept
      · exact .inl hkept
      · rcases mem_append.mp hkept with hold | hnew
        · exact .inl hold
        · exact .inr (mem_singleton.mp hnew ▸ mem_cons_self)
    · exact .inr (mem_cons_of_mem x hrest)

namespace Libraries

theorem mem_of_mem_exporters {fuel : Nat} {seen pending : List String} {l : Library}
    (hmem : l ∈ ls.exporters fuel seen pending) : l ∈ ls := by
  induction fuel generalizing seen pending with
  | zero => simp [exporters] at hmem
  | succ fuel ih =>
    cases pending with
    | nil => simp [exporters] at hmem
    | cons uri pending =>
      rw [exporters] at hmem
      split at hmem
      · exact ih hmem
      · split at hmem
        next => exact ih hmem
        next l' hfind =>
          rcases mem_cons.mp hmem with rfl | hrest
          · exact mem_of_find?_eq_some hfind
          · exact ih hrest

theorem mem_namespaceOf {entry : String × Element} (hmem : entry ∈ ls.namespaceOf uri) :
    ∃ l ∈ ls, entry ∈ l.scope := by
  have houter : ∀ (libraries : List Library) (names : Names),
      entry ∈ libraries.foldl (fun names l => l.publicScope.foldl
        (fun names entry =>
          if (names.lookup entry.1).isSome then names else names ++ [entry]) names) names →
      entry ∈ names ∨ ∃ l ∈ libraries, entry ∈ l.scope := by
    intro libraries
    induction libraries with
    | nil => exact fun names hmem => .inl hmem
    | cons l libraries ih =>
      intro names hmem
      rcases ih _ hmem with hnames | ⟨l', hl', hscope⟩
      · rcases mem_of_mem_foldl_unknown hnames with hold | hpublic
        · exact .inl hold
        · exact .inr ⟨l, mem_cons_self, mem_of_mem_filter hpublic⟩
      · exact .inr ⟨l', mem_cons_of_mem l hl', hscope⟩
  rcases houter _ _ hmem with hnone | ⟨l, hl, hscope⟩
  · simp at hnone
  · exact ⟨l, mem_of_mem_exporters hl, hscope⟩

theorem mem_scope_of_lookup {name : String} (hlookup : ls.lookup uri name = some e) :
    ∃ l ∈ ls, (name, e) ∈ l.scope := by
  unfold lookup at hlookup
  split at hlookup
  next => simp at hlookup
  next l hfind =>
    split at hlookup
    next e' hown =>
      obtain rfl := Option.some.inj hlookup
      exact ⟨l, mem_of_find?_eq_some hfind, mem_of_lookup hown⟩
    next =>
      obtain ⟨i, _, himport⟩ := exists_of_findSome?_eq_some hlookup
      exact mem_namespaceOf (mem_of_lookup himport)

end Libraries

namespace Workspace

section
variable {w : Workspace} {α : Type}

theorem mem_classes_of_classInfo? {ty : TypeId} {i : ClassInfo}
    (hinfo : w.classInfo? ty = some i) : i ∈ w.classes :=
  mem_of_find?_eq_some hinfo

theorem mem_table_of_lookupMember {table : Members → NameTable α} {isStatic : α → Bool}
    {static : Option Bool} {name : String} {a : α}
    (hlookup : w.lookupMember table isStatic static c name = some a) :
    ∃ i ∈ w.classes, (name, a) ∈ table i.members := by
  obtain ⟨i, hi, hfilter⟩ := exists_of_findSome?_eq_some hlookup
  obtain ⟨ty, _, hinfo⟩ := mem_filterMap.mp hi
  obtain ⟨hentry, _⟩ := Option.filter_eq_some_iff.mp hfilter
  exact ⟨i, mem_classes_of_classInfo? hinfo, mem_of_lookup hentry⟩

end

/-- All elements of the scopes and of the classes of a workspace have a
property. -/
structure Holds (P : Element → Prop) (w : Workspace) : Prop where
  scope : ∀ l ∈ w.libraries, ∀ entry ∈ l.scope, P entry.2
  members : ∀ i ∈ w.classes, i.members.All P

section
variable {P Q : Element → Prop} {w : Workspace} {c : ClassElement} {name : String}
  {static : Option Bool}

theorem Holds.imp (himp : ∀ e, P e → Q e) (hw : w.Holds P) : w.Holds Q :=
  ⟨fun l hl entry hentry => himp _ (hw.scope l hl entry hentry),
    fun i hi => (hw.members i hi).imp himp⟩

theorem Holds.and (hP : w.Holds P) (hQ : w.Holds Q) : w.Holds fun e => P e ∧ Q e :=
  ⟨fun l hl entry hentry => ⟨hP.scope l hl entry hentry, hQ.scope l hl entry hentry⟩,
    fun i hi => (hP.members i hi).and (hQ.members i hi)⟩

theorem Holds.lookup (hw : w.Holds P) (hlookup : w.libraries.lookup uri name = some e) : P e := by
  obtain ⟨l, hl, hentry⟩ := Libraries.mem_scope_of_lookup hlookup
  exact hw.scope l hl _ hentry

theorem Holds.method? (hw : w.Holds P) {e : ExecutableElement}
    (hmethod : w.method? c name static = some e) : P (.executable e) := by
  obtain ⟨i, hi, hentry⟩ := mem_table_of_lookupMember hmethod
  exact (hw.members i hi).methods _ hentry

theorem Holds.getter? (hw : w.Holds P) {p : Property}
    (hgetter : w.getter? c name static = some p) : P p.toElement := by
  obtain ⟨i, hi, hentry⟩ := mem_table_of_lookupMember hgetter
  exact (hw.members i hi).getters _ hentry

theorem Holds.setter? (hw : w.Holds P) {p : Property}
    (hsetter : w.setter? c name static = some p) : P p.toElement := by
  obtain ⟨i, hi, hentry⟩ := mem_table_of_lookupMember hsetter
  exact (hw.members i hi).setters _ hentry

theorem Holds.constructor? (hw : w.Holds P) {e : ExecutableElement}
    (hconstructor : w.constructor? c name = some e) : P (.executable e) := by
  obtain ⟨i, hi, hentry⟩ := Option.bind_eq_some_iff.mp hconstructor
  exact (hw.members i (mem_classes_of_classInfo? hi)).constructors _ (mem_of_lookup hentry)

theorem Holds.readOf? (hw : w.Holds P) {static : Bool} (hread : w.readOf? c static name = some e) :
    P e := by
  unfold Workspace.readOf? at hread
  split at hread
  next p hgetter => exact Option.some.inj hread ▸ hw.getter? hgetter
  next =>
    obtain ⟨m, hm, rfl⟩ := Option.map_eq_some_iff.mp hread
    exact hw.method? hm

theorem Holds.calleeOf? (hw : w.Holds P) {static : Bool}
    (hcallee : w.calleeOf? c static name = some e) : P e := by
  unfold Workspace.calleeOf? at hcallee
  split at hcallee
  next m hm => exact Option.some.inj hcallee ▸ hw.method? hm
  next =>
    split at hcallee
    next e' hconstructor =>
      obtain rfl := Option.some.inj hcallee
      split at hconstructor
      · exact hw.constructor? hconstructor
      · simp at hconstructor
    next =>
      obtain ⟨p, hp, rfl⟩ := Option.map_eq_some_iff.mp hcallee
      exact hw.getter? hp

end

end Workspace

def Names.All (P : Element → Prop) (names : Names) : Prop :=
  ∀ entry ∈ names, P entry.2

namespace BodyContext

section
variable {P : Element → Prop} {ctx : BodyContext} {scope : Names} {name : String} {e : Element}

theorem holds_of_readMember? (hw : ctx.workspace.Holds P) (hread : ctx.readMember? name = some e) :
    P e := by
  obtain ⟨c, _, hmember⟩ := Option.bind_eq_some_iff.mp hread
  split at hmember
  next p hgetter =>
    split at hmember
    · obtain rfl := Option.some.inj hmember
      exact hw.getter? hgetter
    · simp at hmember
  next =>
    obtain ⟨m, hm, hvisible⟩ := Option.bind_eq_some_iff.mp hmember
    split at hvisible
    · obtain rfl := Option.some.inj hvisible
      exact hw.method? hm
    · simp at hvisible

theorem holds_of_writeMember? (hw : ctx.workspace.Holds P)
    (hwrite : ctx.writeMember? name = some e) : P e := by
  obtain ⟨o, howner, hwrite⟩ := Option.bind_eq_some_iff.mp hwrite
  obtain ⟨c, _, rfl⟩ := Option.map_eq_some_iff.mp howner
  obtain ⟨p, hp, hvisible⟩ := Option.bind_eq_some_iff.mp hwrite
  split at hvisible
  · obtain rfl := Option.some.inj hvisible
    exact hw.setter? hp
  · simp at hvisible

theorem holds_of_lookupRead (hw : ctx.workspace.Holds P) (hscope : scope.All P)
    (hread : ctx.lookupRead scope name = some e) : P e := by
  unfold lookupRead at hread
  split at hread
  next e' hlocal => exact Option.some.inj hread ▸ hscope _ (mem_of_lookup hlocal)
  next =>
    split at hread
    next e' hmember => exact Option.some.inj hread ▸ holds_of_readMember? hw hmember
    next => exact hw.lookup hread

theorem holds_of_lookupWrite (hw : ctx.workspace.Holds P) (hscope : scope.All P)
    (hwrite : ctx.lookupWrite scope name = some e) : P e := by
  unfold lookupWrite at hwrite
  split at hwrite
  next e' hlocal =>
    split at hwrite
    · exact Option.some.inj hwrite ▸ hscope _ (mem_of_lookup hlocal)
    · simp at hwrite
  next =>
    split at hwrite
    next e' hmember => exact Option.some.inj hwrite ▸ holds_of_writeMember? hw hmember
    next =>
      split at hwrite
      next e' hsetter => exact Option.some.inj hwrite ▸ hw.lookup hsetter
      next =>
        obtain ⟨hlookup, _⟩ := Option.filter_eq_some_iff.mp hwrite
        exact hw.lookup hlookup

theorem exists_name_of_classNamed? {target : Expr}
    (hclass : ctx.classNamed? scope target = some c) : ∃ info name, target = .name info name := by
  cases target <;> simp_all [classNamed?]

theorem holds_of_classNamed? (hw : ctx.workspace.Holds P) (hscope : scope.All P) {target : Expr}
    (hclass : ctx.classNamed? scope target = some c) : P (.class c) := by
  unfold classNamed? at hclass
  split at hclass
  · obtain ⟨e, he, hto⟩ := Option.bind_eq_some_iff.mp hclass
    have hholds := holds_of_lookupRead hw hscope he
    cases e with
    | «class» c' => exact Option.some.inj hto ▸ hholds
    | _ => simp [Element.toClass?] at hto
  · simp at hclass

end

end BodyContext

end CheckedThrows
