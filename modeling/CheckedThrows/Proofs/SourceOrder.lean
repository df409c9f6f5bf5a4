import CheckedThrows.Proofs.SiteFindings
import CheckedThrows.Proofs.SourceRanges
import Mathlib.Data.List.Chain

/-!
# Findings come in source order

The tokens of a text stand one after the other, so every node of its tree is
placed in the text.  A walk visits nodes in pre-order; types apart, which give
no findings, that is the order in which they start.
-/

namespace CheckedThrows

open List Grammar
variable {source : List Char} {p : Place} (u : CompilationUnit) {hi : Nat}

theorem Tiles.tail {start stop : Nat} {l : Lexeme} {ls : List Lexeme}
    (h : Tiles source start stop (l :: ls)) :
    l.start.offset = start ∧ Tiles source l.stop.offset stop ls := by
  obtain ⟨hstart, hrest⟩ := List.cons.inj h.consecutive
  exact ⟨hstart, hrest, fun m hm => h.pieces m (mem_cons_of_mem l hm), h.separate.tail⟩

theorem Tiles.placed_tokens {start stop : Nat} {ls : List Lexeme} (h : Tiles source start stop ls) :
    Chained (Token.Placed source) start stop (ls.filterMap Lexeme.token?) := by
  induction ls generalizing start with
  | nil =>
    obtain ⟨rfl, -⟩ := List.cons.inj h.consecutive
    exact .nil le_rfl
  | cons l ls ih =>
    obtain ⟨rfl, htail⟩ := h.tail
    have hl := h.pieces l mem_cons_self
    have hrest := ih htail
    cases htoken : l.token? with
    | none =>
      rw [filterMap_cons_none htoken]
      exact (Chained.standsBetween (standsBetween_token source)).mono hl.nonempty.le le_rfl hrest
    | some t =>
      have hextent : t.extent = l.extent := by
        unfold Lexeme.token? at htoken
        split at htoken
        · cases htoken
          rfl
        · cases htoken
      rw [filterMap_cons_some htoken]
      refine .cons ⟨?_, ?_, ?_⟩ hrest <;> rw [hextent]
      · exact ⟨hl.nonempty, hl.bound, hl.start_eq, hl.stop_eq⟩
      · exact le_rfl
      · exact le_rfl

theorem Chained.of_retyped {lo : Nat} {ts us : List Token}
    (hts : Chained (Token.Placed source) lo hi ts) (hus : List.Forall₂ Token.Retyped ts us) :
    Chained (Token.Placed source) lo hi us := by
  induction hus generalizing lo with
  | nil =>
    cases hts with
    | nil hle => exact .nil hle
  | cons hfirst _ ih =>
    cases hts with
    | cons ht hrest =>
      refine .cons ?_ (ih hrest)
      rw [Token.Placed, hfirst.extent_eq]
      exact ht

/-! ## Trees of texts -/

namespace Source

theorem placed_tokens {s : Source} {w : List Token} (hlex : s.tokens = .ok w) :
    Chained (Token.Placed s.chars) 0 s.chars.length w := by
  obtain ⟨htiles, -⟩ := Scan.tiles_of s.chars
  cases hstuck : (Scan.of s.chars).stuck with
  | some stuck =>
    rw [tokens_of_stuck hstuck] at hlex
    cases hlex
  | none =>
    rw [tokens_of_not_stuck hstuck] at hlex
    cases hlex
    rw [Scan.stopOffset, hstuck] at htiles
    exact htiles.placed_tokens.of_retyped (Token.retyped_mark _)

end Source

namespace Node

theorem codeChildren_unit :
    (Node.unit u).codeChildren =
        u.directives.map .directive ++ u.declarations.map ofDeclaration ∧
      (Node.unit u).asideChildren = [] := by
  have hcode : ∀ d : Declaration, (ofDeclaration d).isCode = true := by
    intro d
    cases d <;> rfl
  have hchildren := codeChildren_of_isCode (n := .unit u) (by
    simp only [children, forall_mem_append, forall_mem_map]
    exact ⟨fun _ _ => rfl, fun d _ => hcode d⟩)
  simpa [children, Function.comp_def] using hchildren

end Node

namespace CompilationUnit

/-- A unit of a text without tokens is empty, and all nodes of any other are
placed in the text. -/
def IsPlaced (source : List Char) (u : CompilationUnit) : Prop :=
  u.directives = [] ∧ u.declarations = [] ∨ (Node.unit u).All (Node.Placed source)

theorem isPlaced_image {d : Derivation .unit}
    (hyield : Chained (Token.Placed source) 0 hi d.yield) (uri : String) (comments : List Comment) :
    (image uri comments d).IsPlaced source := by
  have hcovers := d.covers_eval hyield
  cases hextent : d.eval.1 with
  | none =>
    -- Nodes would take up room, and there is none.
    rw [hextent] at hcovers
    have hempty : Chained (Token.Placed source) 0 0 d.yield := by
      rw [hcovers.1]
      exact .nil le_rfl
    have hnodes := (d.placed_eval hempty).1 .text
    left
    cases hlist : Ast.code .text .unit d.eval.2 with
    | nil =>
      obtain ⟨hdirectives, hdeclarations⟩ := append_eq_nil_iff.mp hlist
      exact ⟨map_eq_nil_iff.mp hdirectives, map_eq_nil_iff.mp hdeclarations⟩
    | cons n ns =>
      rw [hlist] at hnodes
      have hn := hnodes.forall_mem (Node.standsBetween_placedIn source) n mem_cons_self
      exact absurd hn.lt (lt_irrefl 0)
  | some e =>
    rw [hextent] at hcovers
    obtain ⟨hin, -, -, htight⟩ := hcovers
    have hnodes := (d.placed_eval htight).1 .text
    have hunit := Node.codeChildren_unit (image uri comments d)
    right
    refine (Node.placedIn_of_children (n := .unit (image uri comments d)) hextent hin ?_ ?_).all
    · rw [hunit.1]
      exact hnodes
    · rw [hunit.2]
      exact nofun

end CompilationUnit

/-! ## Numbers do not matter -/

namespace Node

variable (ρ : NodeId → NodeId)

theorem extent?_numbers (n : Node) : (n.relabel (.numbers ρ)).extent? = n.extent? := by
  rw [extent?_relabel]
  exact Option.map_id'

theorem isCode_relabel (ρ : Relabeling) (n : Node) : (n.relabel ρ).isCode = n.isCode := by
  cases n <;> rfl

theorem placed_relabel {n : Node} : (n.relabel (.numbers ρ)).Placed source ↔ n.Placed source := by
  have hordered : (n.relabel (.numbers ρ)).codeChildren.Pairwise Precedes ↔
      n.codeChildren.Pairwise Precedes := by
    have hcode : isCode ∘ relabel (.numbers ρ) = isCode := funext (isCode_relabel (.numbers ρ))
    rw [codeChildren, children_relabel, map_map,
      show Prod.snd ∘ (fun c : Slot × Node => (c.1, c.2.relabel (.numbers ρ))) =
        relabel (.numbers ρ) ∘ Prod.snd from rfl,
      ← map_map, filter_map, hcode, pairwise_map]
    have hprecedes : ∀ a b : Node,
        (a.relabel (.numbers ρ)).Precedes (b.relabel (.numbers ρ)) ↔ a.Precedes b := by
      intro a b
      rw [Precedes, extent?_numbers, extent?_numbers, Precedes]
    simp only [hprecedes, codeChildren]
  constructor
  · rintro ⟨hextent, hnested, hcode⟩
    rw [children_relabel, forall_mem_map] at hnested
    rw [extent?_numbers] at hextent
    refine ⟨hextent, fun c hc => ?_, hordered.mp hcode⟩
    have hinside := hnested c hc
    rwa [Encloses, extent?_numbers, extent?_numbers] at hinside
  · rintro ⟨hextent, hnested, hcode⟩
    refine ⟨?_, ?_, hordered.mpr hcode⟩
    · rwa [extent?_numbers]
    · rw [children_relabel, forall_mem_map]
      intro c hc
      rw [Encloses, extent?_numbers, extent?_numbers]
      exact hnested c hc

theorem all_placed_relabel (n : Node) :
    (n.relabel (.numbers ρ)).All (Placed source) ↔ n.All (Placed source) := by
  rw [all_iff_forall_mem_nodes, all_iff_forall_mem_nodes, nodes_relabel, forall_mem_map]
  simp only [placed_relabel]

end Node

namespace CompilationUnit

theorem isPlaced_relabel (ρ : NodeId → NodeId) (u : CompilationUnit) :
    (u.relabel (.numbers ρ)).IsPlaced source ↔ u.IsPlaced source := by
  have hall : (Node.unit (u.relabel (.numbers ρ))).All (Node.Placed source) ↔
      (Node.unit u).All (Node.Placed source) := Node.all_placed_relabel ρ (.unit u)
  rw [IsPlaced, IsPlaced, hall]
  simp only [relabel, map_eq_nil_iff]

theorem isPlaced_number (start : NodeId) :
    (u.number start).1.IsPlaced source ↔ u.IsPlaced source := by
  rw [← isPlaced_relabel (fun _ => 0), relabel_zero_number, isPlaced_relabel]

end CompilationUnit

theorem Source.isPlaced_parseFrom {s : Source} {next after : NodeId} {u : CompilationUnit}
    (hparse : s.parseFrom next = .ok (.ok u, after)) : u.IsPlaced s.chars := by
  obtain ⟨t, ht, hnumber⟩ := parseFrom_eq_ok_iff.mp hparse
  obtain ⟨d, hlex, rfl, -⟩ := exists_derivation_of_parse ht
  have hplaced := CompilationUnit.isPlaced_image (placed_tokens hlex) s.uri s.comments
  rwa [← CompilationUnit.isPlaced_number _ next, hnumber] at hplaced

/-! ## Findings -/

namespace Finding

def NotAfter (f g : Finding) : Prop :=
  ∃ a b : Int, f.span.offset = some a ∧ g.span.offset = some b ∧ a ≤ b

def StartsIn (lo hi : Nat) (f : Finding) : Prop :=
  ∃ a : Nat, f.span.offset = some (a : Int) ∧ lo ≤ a ∧ a ≤ hi

theorem StartsIn.notAfter {f g : Finding} {lo mid mid' : Nat} (hf : f.StartsIn lo mid)
    (hg : g.StartsIn mid' hi) (hle : mid ≤ mid') : f.NotAfter g := by
  obtain ⟨a, ha, -, hmid⟩ := hf
  obtain ⟨b, hb, hmid', -⟩ := hg
  exact ⟨a, b, ha, hb, by omega⟩

end Finding

namespace EffectModel

variable (m : EffectModel) (enabled : List LintCode) (uri : String)

def findingsBelow (p : Place) : List Finding :=
  (p.preorder fun n => !n.isMetadatum).flatMap (m.findingsAt enabled uri)

theorem findingsBelow_eq (p : Place) :
    m.findingsBelow enabled uri p = m.findingsAt enabled uri p ++
      p.children.flatMap fun c =>
        if c.node.isMetadatum then [] else m.findingsBelow enabled uri c := by
  rw [findingsBelow, Place.preorder_eq, flatMap_cons, flatMap_assoc]
  congr 1
  apply flatMap_congr
  intro c _
  cases c.node.isMetadatum <;> rfl

theorem findings_eq_findingsBelow (u : CompilationUnit) :
    m.findings enabled u = m.findingsBelow enabled u.uri (.root (.unit u)) := by
  rw [findings, Place.walkCode_eq_preorder]
  rfl

theorem findingsAt_type {t : TypeRef} (hnode : p.node = .type t) :
    m.findingsAt enabled uri p = [] := by
  have hcandidates : m.candidates p = [] := by
    simp [candidates, calls, Program.invoked, hnode]
  simp [findingsAt, hcandidates, escaping, hnode, lost, storedValue?]

theorem findingsBelow_type {p : Place} {t : TypeRef} (hnode : p.node = .type t) :
    m.findingsBelow enabled uri p = [] := by
  rw [findingsBelow_eq, findingsAt_type m enabled uri hnode, nil_append,
    flatMap_eq_nil_iff]
  intro c hc
  obtain ⟨child, hchild, rfl⟩ := Place.mem_children_iff.mp hc
  have htype : ∃ t', child.2 = .type t' := by
    rw [hnode] at hchild
    cases t <;> simp [Node.children, Node.typeChildren] at hchild
    grind
  obtain ⟨t', ht'⟩ := htype
  rw [findingsBelow_type (p := .child p child.1 child.2) ht', ite_self]
termination_by p.node.weight
decreasing_by exact Place.weight_lt_of_mem_children hc

theorem isCode_of_mem_findings {c : Place} {f : Finding}
    (hf : f ∈ if c.node.isMetadatum then [] else m.findingsBelow enabled uri c) :
    c.node.isCode = true ∧ f ∈ m.findingsBelow enabled uri c := by
  split at hf
  next => simp at hf
  next hmetadatum =>
    refine ⟨?_, hf⟩
    cases hnode : c.node with
    | type t =>
      rw [findingsBelow_type m enabled uri hnode] at hf
      cases hf
    | metadatum m => simp [hnode, Node.isMetadatum] at hmetadatum
    | _ => rfl

variable {source : List Char}

theorem startsIn_of_mem_findingsBelow {p : Place} {e : Extent} {f : Finding}
    (hp : p.node.All (Node.Placed source)) (he : p.node.extent? = some e)
    (hf : f ∈ m.findingsBelow enabled uri p) : f.StartsIn e.start.offset e.stop.offset := by
  obtain ⟨hplaced, hbelow⟩ := Node.all_iff.mp hp
  rw [findingsBelow_eq] at hf
  rcases mem_append.mp hf with hf | hf
  · obtain ⟨e', he', hin⟩ := hplaced.extent
    rw [he] at he'
    cases he'
    refine ⟨e.start.offset, ?_, le_rfl, hin.nonempty.le⟩
    rw [span_of_mem_findingsAt hf, Node.span, he]
    rfl
  · obtain ⟨c, hc, hf⟩ := mem_flatMap.mp hf
    have hbelowc := (isCode_of_mem_findings m enabled uri hf).2
    obtain ⟨child, hchild, rfl⟩ := Place.mem_children_iff.mp hc
    have hplacedc := hbelow child hchild
    obtain ⟨e', he', -⟩ := (Node.all_iff.mp hplacedc).1.extent
    obtain ⟨a, ha, hlo, hhi⟩ :=
      startsIn_of_mem_findingsBelow (p := .child p child.1 child.2) hplacedc he' hbelowc
    have hnested := hplaced.nested child hchild e he e' he'
    exact ⟨a, ha, hnested.1.trans hlo, hhi.trans hnested.2⟩
termination_by p.node.weight
decreasing_by exact Place.weight_lt_of_mem_children hc

theorem notAfter_findingsAt (hp : p.node.Placed source) :
    (m.findingsAt enabled uri p).Pairwise Finding.NotAfter := by
  obtain ⟨e, he, -⟩ := hp.extent
  have hoffset : ∀ f ∈ m.findingsAt enabled uri p, f.span.offset = some (e.start.offset : Int) := by
    intro f hf
    rw [span_of_mem_findingsAt hf, Node.span, he]
    rfl
  exact pairwise_of_forall_mem_list fun f hf g hg =>
    ⟨_, _, hoffset f hf, hoffset g hg, le_rfl⟩

theorem precedes_children (hp : p.node.Placed source) :
    p.children.Pairwise fun c d =>
      c.node.isCode = true → d.node.isCode = true → c.node.Precedes d.node := by
  have hordered := hp.ordered
  rw [Node.codeChildren, pairwise_filter, pairwise_map] at hordered
  rw [Place.children, pairwise_map]
  exact hordered

theorem notAfter_findingsBelow {p : Place} (hp : p.node.All (Node.Placed source)) :
    (m.findingsBelow enabled uri p).Pairwise Finding.NotAfter := by
  obtain ⟨hplaced, hbelow⟩ := Node.all_iff.mp hp
  have hchild : ∀ c ∈ p.children, c.node.All (Node.Placed source) := by
    intro c hc
    obtain ⟨child, hmem, rfl⟩ := Place.mem_children_iff.mp hc
    exact hbelow child hmem
  obtain ⟨e, he, hin⟩ := hplaced.extent
  rw [findingsBelow_eq, pairwise_append, pairwise_flatMap]
  refine ⟨notAfter_findingsAt m enabled uri hplaced, ⟨?_, ?_⟩, ?_⟩
  · intro c hc
    split
    · exact .nil
    · exact notAfter_findingsBelow (hchild c hc)
  · refine (precedes_children hplaced).imp_of_mem ?_
    intro c d hc hd hprecedes f hf g hg
    obtain ⟨hcodec, hf⟩ := isCode_of_mem_findings m enabled uri hf
    obtain ⟨hcoded, hg⟩ := isCode_of_mem_findings m enabled uri hg
    obtain ⟨a, ha, -⟩ := (Node.all_iff.mp (hchild c hc)).1.extent
    obtain ⟨b, hb, -⟩ := (Node.all_iff.mp (hchild d hd)).1.extent
    exact (startsIn_of_mem_findingsBelow m enabled uri (hchild c hc) ha hf).notAfter
      (startsIn_of_mem_findingsBelow m enabled uri (hchild d hd) hb hg)
      (hprecedes hcodec hcoded a ha b hb)
  · -- A child does not start before its parent.
    intro f hf g hg
    have hbelowp : g ∈ m.findingsBelow enabled uri p := by
      rw [findingsBelow_eq]
      exact mem_append_right _ hg
    have hstart : f.StartsIn e.start.offset e.start.offset := by
      refine ⟨e.start.offset, ?_, le_rfl, le_rfl⟩
      rw [span_of_mem_findingsAt hf, Node.span, he]
      rfl
    exact hstart.notAfter (startsIn_of_mem_findingsBelow m enabled uri hp he hbelowp) le_rfl
termination_by p.node.weight
decreasing_by exact Place.weight_lt_of_mem_children hc

end EffectModel

/-- The nodes of a text that gives a unit with anything in it are placed: each
takes up some characters of the text, with the lines and columns that these have
there, its children are inside it, and those that are neither types nor metadata
come one after the other.  So findings come in the order of the text, however the
names in it are resolved. -/
theorem Source.placed_and_findings_in_order {s : Source} {next after : NodeId}
    {u : CompilationUnit} (hparse : s.parseFrom next = .ok (.ok u, after))
    (hcontent : u.directives ≠ [] ∨ u.declarations ≠ []) :
    (∀ p ∈ Place.walk (.unit u), p.node.Placed s.chars) ∧
      ∀ (m : EffectModel) (enabled : List LintCode),
        (m.findings enabled u).Pairwise Finding.NotAfter := by
  have hplaced : (Node.unit u).All (Node.Placed s.chars) := by
    rcases isPlaced_parseFrom hparse with ⟨hdirectives, hdeclarations⟩ | hall
    · exact absurd hcontent (by simp [hdirectives, hdeclarations])
    · exact hall
  refine ⟨hplaced, fun m enabled => ?_⟩
  rw [EffectModel.findings_eq_findingsBelow]
  exact m.notAfter_findingsBelow enabled u.uri hplaced

namespace ThrowingFunction

def text : Source := ⟨"lib/a.dart", "// a\n@A(b) int f(@A() int c) \x7b\n  throw g(c);\n\x7d\n"⟩

theorem placed_in_order :
    ∃ u after, text.parseFrom 0 = .ok (.ok u, after) ∧ u.declarations ≠ [] ∧
      (∀ p ∈ Place.walk (.unit u), p.node.Placed text.chars) ∧
      ∀ (m : EffectModel) (enabled : List LintCode),
        (m.findings enabled u).Pairwise Finding.NotAfter := by
  have hparsed : (match text.parseFrom 0 with
      | .ok (.ok u, _) => !u.declarations.isEmpty
      | _ => false) = true := by decide +kernel
  split at hparsed
  next u after hparse =>
    have hcontent : u.declarations ≠ [] := by simpa using hparsed
    exact ⟨u, after, hparse, hcontent, Source.placed_and_findings_in_order hparse (.inr hcontent)⟩
  next => cases hparsed

end ThrowingFunction

end CheckedThrows
