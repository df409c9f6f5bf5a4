import CheckedThrows.Proofs.Coverage
import CheckedThrows.Proofs.MirroredBodies

/-!
# The same programs beside a hidden library

A program that also has a hidden library goes through the others in the same
way, and what it finds out about the hidden one is about its nodes only.
-/

namespace CheckedThrows

open List Resolving

variable {k : NodeId} {u : CompilationUnit}

/-! ## Libraries -/

namespace Resolving

section
variable {m : Mirror} {ctx ctx' : BodyContext} (hctx : ctx.Mirrors m m.hidden ctx')
include hctx

theorem mirrors_resolveDeclaredFunction (d : FunctionDecl) :
    Mirrors m id (resolveDeclaredFunction ctx d) (resolveDeclaredFunction ctx' (d.relabel m)) := by
  unfold resolveDeclaredFunction
  rw [d.id_relabel]
  refine .reading fun f f' hf => ?_
  rw [hf.declaredExecutable?]
  cases (f.declared[d.id]?).bind Element.toExecutable? with
  | none => exact .pure rfl
  | some e =>
    refine .reading fun g g' hg => ?_
    rw [hg.paramsOf]
    exact mirrors_resolveFunction hctx [] (g.paramsOf e) d

theorem mirrors_resolveClassBodies (c : ClassElement) :
    Mirrors m id (resolveClassBodies ctx c) (resolveClassBodies ctx' (c.rename m)) := by
  have hinner : ∀ isStatic, BodyContext.Mirrors m m.hidden
      { ctx with owner := some c, isStatic }
      { ctx' with owner := some (c.rename m), isStatic } :=
    fun isStatic => ⟨hctx.workspace, hctx.library, hctx.elsewhere, rfl, rfl⟩
  have hmetadata : (c.rename m).decl.metadata = relabelMetadata m c.decl.metadata :=
    (relabelMetadata_eq_map _ _).symm
  unfold resolveClassBodies
  rw [c.vars_rename m, c.functions_rename m, hmetadata]
  refine .bind (mirrors_resolveMetadata hctx [] c.decl.metadata) fun _ =>
    .bind (.forM fun d _ => ?_) fun _ => .forM fun d _ => ?_
  · have hmodifiers : (d.relabel m).modifiers = d.modifiers := by rw [VarDecl.relabel_eq]
    rw [hmodifiers]
    exact mirrors_resolveVariable (hinner _) [] d
  · have hmodifiers : (d.relabel m).modifiers = d.modifiers := by rw [FunctionDecl.relabel_eq]
    rw [hmodifiers]
    exact mirrors_resolveDeclaredFunction (hinner _) d

end

section
variable {m : Mirror} {w w' : Workspace} (hw : w.Mirrors m m.hidden w') {l : Library}
  (hl : l.uri ≠ m.hidden)
include hw hl

theorem mirrors_declarationSignatures :
    Mirrors m id (l.unit.declarations.forM (resolveDeclarationSignature w l.uri))
      ((l.rename m).unit.declarations.forM (resolveDeclarationSignature w' (l.rename m).uri)) :=
  .forM fun d _ => mirrors_resolveDeclarationSignature hw hl d

theorem mirrors_resolveLibrary :
    Mirrors m id (resolveLibrary w l) (resolveLibrary w' (l.rename m)) := by
  have hctx : BodyContext.Mirrors m m.hidden { workspace := w, library := l.uri }
      { workspace := w', library := l.uri } := ⟨hw, rfl, hl, rfl, rfl⟩
  have hvars : (l.rename m).unit.declarations.filterMap Declaration.toVar? =
      (l.unit.declarations.filterMap Declaration.toVar?).map (VarDecl.relabel m) :=
    filterMap_map_comm (fun d => by cases d <;> rfl) l.unit.declarations
  have hclasses : (l.rename m).unit.declarations.filterMap Declaration.toClass? =
      (l.unit.declarations.filterMap Declaration.toClass?).map (ClassDecl.relabel m) :=
    filterMap_map_comm (fun d => by cases d <;> rfl) l.unit.declarations
  have hfunctions : (l.rename m).unit.declarations.filterMap Declaration.toFunction? =
      (l.unit.declarations.filterMap Declaration.toFunction?).map (FunctionDecl.relabel m) :=
    filterMap_map_comm (fun d => by cases d <;> rfl) l.unit.declarations
  unfold resolveLibrary
  rw [hvars, hclasses, hfunctions]
  refine .bind (.forM fun d _ => mirrors_resolveVariable hctx [] d) fun _ =>
    .bind (.forM fun d _ => ?_) fun _ =>
      .forM fun d _ => mirrors_resolveDeclaredFunction hctx d
  refine .reading fun f f' hf => ?_
  have hid : (d.relabel m).id = m.node d.id := rfl
  rw [hid, hf.declaredClass?]
  cases (f.declared[d.id]?).bind Element.toClass? with
  | none => exact .pure rfl
  | some c => exact mirrors_resolveClassBodies hctx c

end

end Resolving

/-! ## The hidden library -/

/-- What is written down about other nodes and reported about the hidden library
does not matter. -/
theorem Facts.Mirrors.beside {m : Mirror} {f f' g' : Facts} {marks : Multiset Mark}
    (hf : f.Mirrors m f') (hvisited : f'.Visited m.hidden [] marks g')
    (hmarks : ∀ n, Mark.write (m.node n) ∉ marks) : f.Mirrors m g' := by
  have habout : ∀ n, g'.about (m.node n) = f'.about (m.node n) :=
    fun n => hvisited.frame (m.node n) not_mem_nil (hmarks n)
  obtain ⟨new, hnew, hwarnings, -⟩ := hvisited.warnings
  refine
    { declared := fun n => (congrArg NodeFacts.declared (habout n)).trans (hf.declared n)
      elsewhere := hf.elsewhere
      signatures := fun n => (congrArg NodeFacts.signature (habout n)).trans (hf.signatures n)
      variableTypes := fun n =>
        (congrArg NodeFacts.variableType (habout n)).trans (hf.variableTypes n)
      staticTypes := fun n => (congrArg NodeFacts.staticType (habout n)).trans (hf.staticTypes n)
      meanings := fun n => (congrArg NodeFacts.meaning (habout n)).trans (hf.meanings n)
      reads := fun n => (congrArg NodeFacts.read (habout n)).trans (hf.reads n)
      writes := fun n => (congrArg NodeFacts.write (habout n)).trans (hf.writes n)
      operators := fun n => (congrArg NodeFacts.operator (habout n)).trans (hf.operators n)
      arguments := fun n => (congrArg NodeFacts.argument (habout n)).trans (hf.arguments n)
      catchTypes := fun n => (congrArg NodeFacts.catchType (habout n)).trans (hf.catchTypes n)
      warnings := ?_
      defs := fun ty d hd => hvisited.table.grows _ _ (hf.defs ty d hd)
      object := hvisited.table.object.trans hf.object
      core := ?_ }
  · rw [hnew]
    apply hf.warnings.append_others
    intro d hd
    obtain ⟨code, -, place, message, rfl⟩ := hwarnings d hd
    simp [Diagnostic.isElsewhere, warning, Span.ofExtent]
  · intro name
    rw [TypeTable.coreType, hvisited.table.core]
    exact hf.core name

theorem write_mem_classMarks {kept : NodeId → Bool} {d : ClassDecl}
    (hk : Mark.write k ∈ classMarks kept d) : Mark.write k ∈ (Node.class d).marks := by
  rw [Node.marks_class]
  simp only [classMarks, Multiset.mem_add, mem_sum_map] at hk ⊢
  refine hk.imp_left fun hk => hk.imp_right ?_
  rintro ⟨member, hmember, hmark⟩
  refine ⟨member, hmember, ?_⟩
  cases member with
  | «variable» d => exact hmark
  | function d => exact write_mem_marksIf.mp hmark

theorem Node.write_mem_marks_ofDeclaration {d : Declaration}
    (hd : d ∈ u.declarations) (hk : Mark.write k ∈ (ofDeclaration d).marks) :
    k ∈ (Node.unit u).nodes.map id := by
  have hchild : (Slot.other, ofDeclaration d) ∈ (Node.unit u).children := by
    simp only [children]
    exact mem_append_right _ (mem_map_of_mem hd)
  obtain ⟨n, hn, rfl⟩ := mem_map.mp (write_mem_marks.mp hk)
  exact mem_map_of_mem (mem_nodes_of_mem_children hchild hn)

theorem write_mem_libraryMarks {kept : NodeId → Bool} {l : Library}
    (hk : Mark.write k ∈ libraryMarks kept l) :
    k ∈ (Node.unit l.unit).nodes.map Node.id := by
  obtain ⟨d, hd, hmark⟩ := mem_sum_map.mp hk
  apply Node.write_mem_marks_ofDeclaration hd
  cases d with
  | «class» d => exact write_mem_classMarks (write_mem_marksIf.mp hmark)
  | function d => exact write_mem_marksIf.mp hmark
  | «variable» d => exact hmark

/-! ## All libraries, one after the other -/

section
variable {m : Mirror} {units' : List CompilationUnit} {w' : Workspace} {kept : NodeId → Bool}
  {t' : TypeTable}

/-- Going through all libraries, where what the second run does in the hidden one
is done to its nodes. -/
theorem mirrors_forM_libraries {act act' : Library → Resolving Unit} [hadds : ∀ l, Adds (act l)]
    [hadds' : ∀ l, Adds (act' l)] {marks : Library → Multiset Mark} {ls ls' : List Library}
    (hls : Interleaves (Library.isElsewhere m.hidden) (Library.rename m) ls ls')
    (hact : ∀ l ∈ ls, Mirrors m id (act l) (act' (l.rename m)))
    (hpasses : ∀ l ∈ ls', Passes units' w' kept t' l.uri (marks l) (act' l))
    (hmarks : ∀ l ∈ ls', l.uri = m.hidden → ∀ n, Mark.write (m.node n) ∉ marks l)
    {f f' : Facts} (hf : f.Mirrors m f') (hready : f'.Ready units' w' kept)
    (ht : t'.Extends f'.types) (hfaults : ((ls.forM act).run f).2.faults = [])
    (hlast : ((ls.forM act).run f).2.types.Grows m.last)
    (hlast' : ((ls'.forM act').run f').2.types.Grows m.last') :
    ((ls.forM act).run f).2.Mirrors m ((ls'.forM act').run f').2 := by
  induction ls' generalizing ls f f' with
  | nil =>
    have hnone : ls = [] := map_eq_nil_iff.mp hls.symm
    subst hnone
    exact hf
  | cons l' ls' ih =>
    obtain ⟨hready₁, hvisited⟩ := hpasses l' mem_cons_self f' hready ht
    have hgrows' : ((act' l').run f').2.types.Grows (((l' :: ls').forM act').run f').2.types :=
      ((inferInstance : Adds (ls'.forM act')).table _).grows
    have hpassesRest := fun l hl => hpasses l (mem_cons_of_mem l' hl)
    have hmarksRest := fun l hl => hmarks l (mem_cons_of_mem l' hl)
    by_cases hkeep : Library.isElsewhere m.hidden l' = true
    · rw [Interleaves, filter_cons_of_pos hkeep] at hls
      obtain ⟨l, rest, rfl, rfl, hrest⟩ := map_eq_cons_iff.mp hls.symm
      have hgrows : ((act l).run f).2.types.Grows (((l :: rest).forM act).run f).2.types :=
        ((inferInstance : Adds (rest.forM act)).table _).grows
      have hfaults₁ : ((act l).run f).2.faults = [] :=
        (inferInstance : Adds (rest.forM act)).faults _ hfaults
      have hf₁ := (hact l mem_cons_self f f' hf hfaults₁ (hgrows.trans hlast)
        (hgrows'.trans hlast')).1
      exact ih hrest.symm (fun l' hl' => hact l' (mem_cons_of_mem l hl')) hpassesRest
        hmarksRest hf₁ hready₁ (ht.trans hvisited.table) hfaults hlast hlast'
    · rw [Interleaves, filter_cons_of_neg hkeep] at hls
      have huri : l'.uri = m.hidden := by simpa [Library.isElsewhere] using hkeep
      rw [huri] at hvisited
      have hf₁ := hf.beside hvisited (hmarks l' mem_cons_self huri)
      exact ih hls hact hpassesRest hmarksRest hf₁ hready₁ (ht.trans hvisited.table) hfaults
        hlast hlast'

end

/-! ## Before the first step -/

def Element.isElsewhere (hidden : String) (e : Element) : Bool := e.library ≠ hidden

theorem Element.IsTopLevel.library {l : Library} (hl : l.ScopeDeclared) {e : Element}
    (he : e.IsTopLevel l.unit l.classes) : e.library = l.uri := by
  cases e with
  | «class» c => exact (hl.classes c he).2
  | executable e =>
    obtain ⟨d, -, rfl⟩ := he
    rfl
  | «variable» v =>
    obtain ⟨d, -, rfl⟩ := he
    rfl
  | parameter p => exact he.elim

theorem Element.IsMemberOf.library {owner : ClassElement} {e : Element}
    (he : e.IsMemberOf owner) : e.library = owner.library := by
  cases e with
  | «class» c => exact he.elim
  | executable e =>
    rcases he with ⟨d, -, rfl⟩ | rfl
    · rfl
    · rfl
  | «variable» v =>
    obtain ⟨d, -, rfl⟩ := he
    rfl
  | parameter p => exact he.elim

section
variable {r : Renaming} {hidden : String}

theorem interleaves_elements {es : List Element} (hes : ∀ e ∈ es, e.library ≠ hidden) :
    Interleaves (Element.isElsewhere hidden) (Element.rename r) es (es.map (Element.rename r)) := by
  apply Interleaves.of_kept
  intro e he
  simpa [Element.isElsewhere] using hes e he

theorem interleaves_accepted {units units' : List CompilationUnit}
    (hw : (Workspace.ofUnits units).Mirrors r hidden (Workspace.ofUnits units'))
    (hunits : ∀ u ∈ units, u.uri ≠ hidden) :
    Interleaves (Element.isElsewhere hidden) (Element.rename r) (Workspace.ofUnits units).accepted
      (Workspace.ofUnits units').accepted := by
  apply Interleaves.append
  · apply hw.libraries.interleaves.flatMap
    · intro l hl
      obtain ⟨hunit, hscope⟩ := Workspace.library_ofUnits hl
      have hmap : (l.rename r).scope.map (·.2) = (l.scope.map (·.2)).map (Element.rename r) := by
        simp [Library.rename, Names.rename, NameTable.mapValues, Function.comp_def]
      rw [hmap]
      apply interleaves_elements
      intro e he
      obtain ⟨entry, hentry, rfl⟩ := mem_map.mp he
      rw [(hscope.scope entry hentry).library hscope]
      exact hunits l.unit hunit
    · intro l hl hkeep e he
      obtain ⟨-, hscope⟩ := Workspace.library_ofUnits hl
      obtain ⟨entry, hentry, rfl⟩ := mem_map.mp he
      have hlibrary := (hscope.scope entry hentry).library hscope
      simpa [Element.isElsewhere, Library.isElsewhere, hlibrary] using hkeep
  · apply hw.classes.flatMap
    · intro c hc
      obtain ⟨u, hu, -, huri⟩ := Workspace.class_ofUnits hc
      apply interleaves_elements
      intro e he
      rw [((Workspace.members_ofUnits hc).2.accepted e he).library, huri]
      exact hunits u hu
    · intro c hc hkeep e he
      have hlibrary := ((Workspace.members_ofUnits hc).2.accepted e he).library
      simpa [Element.isElsewhere, ClassInfo.isElsewhere, hlibrary] using hkeep

/-- Tables filled with elements, where further ones stand at other nodes. -/
theorem mirrors_foldl_insert {es es' : List Element}
    (hes : Interleaves (Element.isElsewhere hidden) (Element.rename r) es es')
    (hothers : ∀ e ∈ es', e.library = hidden → ∀ n, e.id.node ≠ r.node n)
    {table table' : NodeMap Element} (htable : NodeMap.Mirrors r (Element.rename r) table table') :
    NodeMap.Mirrors r (Element.rename r)
      (es.foldl (fun declared e => declared.insert e.id.node e) table)
      (es'.foldl (fun declared e => declared.insert e.id.node e) table') := by
  induction es' generalizing es table table' with
  | nil =>
    have hnone : es = [] := map_eq_nil_iff.mp hes.symm
    subst hnone
    exact htable
  | cons e' es' ih =>
    have hrest := fun e he => hothers e (mem_cons_of_mem e' he)
    by_cases hkeep : Element.isElsewhere hidden e' = true
    · rw [Interleaves, filter_cons_of_pos hkeep] at hes
      obtain ⟨e, rest, rfl, rfl, hmore⟩ := map_eq_cons_iff.mp hes.symm
      have hinsert := htable.insert e.id.node e
      have hid : r.node e.id.node = (e.rename r).id.node := by rw [Element.id_rename]; rfl
      rw [hid] at hinsert
      exact ih hmore.symm hrest hinsert
    · rw [Interleaves, filter_cons_of_neg hkeep] at hes
      have hlibrary : e'.library = hidden := by simpa [Element.isElsewhere] using hkeep
      apply ih hes hrest
      intro n
      have hne := hothers e' mem_cons_self hlibrary n
      rw [getElem?_insert_ne _ _ hne.symm]
      exact htable n

end

/-- Units under other labels, with perhaps a unit of the library `hidden` between
them, whose nodes are others and which none of the units mentions. -/
structure StandsBeside (ρ : Relabeling) (hidden : String) (before : List CompilationUnit)
    (x : Option CompilationUnit) (after : List CompilationUnit) : Prop where
  uri : ∀ u ∈ x, u.uri = hidden
  others : ∀ u ∈ before ++ after, u.uri ≠ hidden
  core : Library.coreUri ≠ hidden
  mentions : ∀ u ∈ before ++ after, ¬u.Mentions hidden
  numbered : Numbered (before ++ after)
  numbered' : Numbered (ρ.unitsBeside before x after)
  shaped' : ∀ u ∈ ρ.unitsBeside before x after, (Node.unit u).All Node.WellShaped
  apart : ∀ u ∈ x, ∀ n ∈ (Node.unit u).nodes, ∀ k, n.id ≠ ρ.node k

section
variable {ρ : Relabeling} {hidden : String} {before after : List CompilationUnit}
  {x : Option CompilationUnit}

theorem StandsBeside.mem_of_uri (hbeside : StandsBeside ρ hidden before x after)
    (hu : u ∈ ρ.unitsBeside before x after) (huri : u.uri = hidden) :
    u ∈ x := by
  have hnone : ∀ us : List CompilationUnit, us ⊆ before ++ after →
      u ∉ us.map (CompilationUnit.relabel ρ) := by
    intro us hus hmem
    obtain ⟨u₀, hu₀, rfl⟩ := mem_map.mp hmem
    exact hbeside.others u₀ (hus hu₀) huri
  rcases mem_append.mp hu with hfirst | hafter
  · rcases mem_append.mp hfirst with hbefore | hx
    · exact absurd hbefore (hnone before (subset_append_left _ _))
    · exact Option.mem_toList.mp hx
  · exact absurd hafter (hnone after (subset_append_right _ _))

theorem StandsBeside.node_ne (hbeside : StandsBeside ρ hidden before x after)
    (hu : u ∈ ρ.unitsBeside before x after) (huri : u.uri = hidden)
    (n : NodeId) : ρ.node n ∉ (Node.unit u).nodes.map Node.id := by
  intro hmem
  obtain ⟨node, hnode, hid⟩ := mem_map.mp hmem
  exact hbeside.apart u (hbeside.mem_of_uri hu huri) node hnode n hid

end

def Workspace.signatureFacts (w : Workspace) : Facts :=
  ((resolveSignatures w).run (Facts.initial w)).2

def Workspace.bodyFacts (w : Workspace) : Facts :=
  ((w.libraries.forM (resolveLibrary w)).run w.signatureFacts).2

theorem Program.facts_ofUnits (units : List CompilationUnit) :
    ∃ notices, (ofUnits units).facts = { (Workspace.ofUnits units).bodyFacts with notices } := by
  unfold ofUnits
  generalize Workspace.ofUnits units = w
  exact ⟨_, rfl⟩

section
variable {m : Mirror} {before after : List CompilationUnit} {x : Option CompilationUnit}
  (hbeside : StandsBeside m m.hidden before x after)
include hbeside

theorem Facts.mirrors_initial
    (hw : (Workspace.ofUnits (before ++ after)).Mirrors m m.hidden
      (Workspace.ofUnits (m.unitsBeside before x after))) :
    (Facts.initial (Workspace.ofUnits (before ++ after))).Mirrors m
      (Facts.initial (Workspace.ofUnits (m.unitsBeside before x after))) := by
  have haccepted := interleaves_accepted hw hbeside.others
  have hempty : ∀ {α β : Type} (change : α → β),
      NodeMap.Mirrors m change ({} : NodeMap α) ({} : NodeMap β) := by
    intro α β change n
    simp
  refine
    { declared := mirrors_foldl_insert haccepted ?_ (hempty _)
      elsewhere := ?_
      signatures := hempty _
      variableTypes := hempty _
      staticTypes := hempty _
      meanings := hempty _
      reads := hempty _
      writes := hempty _
      operators := hempty _
      arguments := hempty _
      catchTypes := hempty _
      warnings := .nil
      defs := hw.defs
      object := hw.object
      core := hw.core }
  · intro e he hlibrary n hid
    obtain ⟨u, hu, p, hp, hstands⟩ := (Workspace.holds_rootedIn _).accepted he
    apply hbeside.node_ne hu (hstands.library.symm.trans hlibrary) n
    rw [← hid, ← e.id_node, ← hstands.node]
    exact mem_map_of_mem ((Place.mem_walk_iff _ _).mp hp).node_mem_nodes
  · refine (Facts.all_declared_initial fun e he => ?_).imp fun _ _ he => he.2
    obtain ⟨u, hu, p, -, hstands⟩ := (Workspace.holds_rootedIn _).accepted he
    rw [hstands.library]
    exact hbeside.others u hu

theorem Program.facts_mirrors
    (hw : (Workspace.ofUnits (before ++ after)).Mirrors m m.hidden
      (Workspace.ofUnits (m.unitsBeside before x after)))
    (hlast : m.last = (Program.ofUnits (before ++ after)).types)
    (hlast' : m.last' = (Program.ofUnits (m.unitsBeside before x after)).types) :
    (Program.ofUnits (before ++ after)).facts.Mirrors m
      (Program.ofUnits (m.unitsBeside before x after)).facts := by
  generalize hunits : before ++ after = units at *
  generalize hunits' : m.unitsBeside before x after = units' at *
  have hnumbered' : Numbered units' := hunits' ▸ hbeside.numbered'
  have hshaped' : ∀ u ∈ units', (Node.unit u).All Node.WellShaped := hunits' ▸ hbeside.shaped'
  have hinitial : (Facts.initial (Workspace.ofUnits units)).Mirrors m
      (Facts.initial (Workspace.ofUnits units')) := by
    subst hunits hunits'
    exact Facts.mirrors_initial hbeside hw
  have hfaults : (Program.ofUnits units).facts.faults = [] := (Program.typed_ofUnits units).faults
  -- The libraries other than the hidden one are gone through alike.
  have helsewhere : ∀ l ∈ (Workspace.ofUnits units).libraries, l.uri ≠ m.hidden := by
    intro l hl
    subst hunits
    exact hbeside.others l.unit (Workspace.library_ofUnits hl).1
  have hhidden : ∀ l ∈ (Workspace.ofUnits units').libraries, l.uri = m.hidden →
      ∀ n, m.node n ∉ (Node.unit l.unit).nodes.map Node.id := by
    intro l hl huri n
    subst hunits'
    exact hbeside.node_ne (Workspace.library_ofUnits hl).1 huri n
  have hsignatures := fun l hl => mirrors_declarationSignatures hw (helsewhere l hl)
  have hbodies := fun l hl => mirrors_resolveLibrary hw (helsewhere l hl)
  obtain ⟨hready, ht, -⟩ := visitedAll_forM
    (fun l hl => passes_resolveSignatures hnumbered' hl) (Facts.ready_initial units') (.refl _)
  obtain ⟨notices, hfacts⟩ := Program.facts_ofUnits units
  obtain ⟨notices', hfacts'⟩ := Program.facts_ofUnits units'
  rw [Program.types, hfacts] at hlast
  rw [Program.types, hfacts'] at hlast'
  rw [hfacts] at hfaults
  have hadds : ∀ w : Workspace, Adds (w.libraries.forM (resolveLibrary w)) :=
    fun w => inferInstance
  have hmore : (Workspace.ofUnits units).signatureFacts.types.Grows m.last := by
    rw [hlast]
    exact ((hadds _).table _).grows
  have hmore' : (Workspace.ofUnits units').signatureFacts.types.Grows m.last' := by
    rw [hlast']
    exact ((hadds _).table _).grows
  have hresolved : (Workspace.ofUnits units).signatureFacts.Mirrors m
      (Workspace.ofUnits units').signatureFacts := by
    apply mirrors_forM_libraries hw.libraries.interleaves hsignatures
      (fun l hl => passes_resolveSignatures hnumbered' hl) ?_ hinitial
      (Facts.ready_initial units') (.refl _) ((hadds _).faults _ hfaults) hmore hmore'
    intro l hl huri n hmark
    obtain ⟨d, hd, hwrite⟩ := mem_sum_map.mp hmark
    exact hhidden l hl huri n (Node.write_mem_marks_ofDeclaration hd (write_mem_writesOf.mp hwrite))
  have hgone := mirrors_forM_libraries hw.libraries.interleaves hbodies
    (fun l hl => passes_resolveLibrary hnumbered' hshaped' hl)
    (fun l hl huri n hmark => hhidden l hl huri n (write_mem_libraryMarks hmark))
    hresolved hready ht hfaults (hlast ▸ .refl _) (hlast' ▸ .refl _)
  rw [hfacts, hfacts']
  exact { hgone with }

end

end CheckedThrows
