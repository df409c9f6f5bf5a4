import CheckedThrows.Proofs.Tiling

/-!
# Where nodes stand

The extents of a syntax tree nest like its nodes do, and what stands side by
side in a node stands there in source order.  Types and metadata are listed
after what they precede in the text, so they are enclosed but not ordered.
-/

namespace CheckedThrows

open List

variable {r : Rhs}

/-! ## Ranges side by side -/

/-- `P lo hi x` says that `x` stands somewhere between two offsets. -/
structure StandsBetween {α : Type} (P : Nat → Nat → α → Prop) : Prop where
  le : ∀ {lo hi x}, P lo hi x → lo ≤ hi
  mono : ∀ {lo hi lo' hi' x}, lo' ≤ lo → hi ≤ hi' → P lo hi x → P lo' hi' x

inductive Chained {α : Type} (P : Nat → Nat → α → Prop) : Nat → Nat → List α → Prop
  | nil {lo hi : Nat} (le : lo ≤ hi) : Chained P lo hi []
  | cons {lo mid hi : Nat} {x : α} {xs : List α} (first : P lo mid x)
      (rest : Chained P mid hi xs) : Chained P lo hi (x :: xs)

namespace Chained

variable {α : Type} {P : Nat → Nat → α → Prop} {lo mid hi lo' hi' : Nat} {xs ys : List α}

theorem singleton {x : α} (hx : P lo hi x) : Chained P lo hi [x] :=
  .cons hx (.nil le_rfl)

theorem exists_of_append (hxs : Chained P lo hi (xs ++ ys)) :
    ∃ mid, Chained P lo mid xs ∧ Chained P mid hi ys := by
  induction xs generalizing lo with
  | nil => exact ⟨lo, .nil le_rfl, hxs⟩
  | cons x xs ih =>
    cases hxs with
    | cons hfirst hrest =>
      obtain ⟨mid, hbefore, hafter⟩ := ih hrest
      exact ⟨mid, .cons hfirst hbefore, hafter⟩

variable (hP : StandsBetween P)
include hP

theorem standsBetween : StandsBetween (Chained P) where
  le := by
    intro lo hi xs hxs
    induction hxs with
    | nil hle => exact hle
    | cons hfirst _ ih => exact (hP.le hfirst).trans ih
  mono := by
    intro lo hi lo' hi' xs hlo hhi hxs
    induction hxs generalizing lo' with
    | nil hle => exact .nil (hlo.trans (hle.trans hhi))
    | cons hfirst _ ih => exact .cons (hP.mono hlo le_rfl hfirst) (ih le_rfl hhi)

theorem append (hxs : Chained P lo mid xs) (hys : Chained P mid hi ys) :
    Chained P lo hi (xs ++ ys) := by
  induction hxs with
  | nil hle => exact (standsBetween hP).mono hle le_rfl hys
  | cons hfirst _ ih => exact .cons hfirst (ih hys)

theorem forall_mem (hxs : Chained P lo hi xs) : ∀ x ∈ xs, P lo hi x := by
  induction hxs with
  | nil => simp
  | cons hfirst hrest ih =>
    rw [forall_mem_cons]
    exact ⟨hP.mono le_rfl ((standsBetween hP).le hrest) hfirst,
      fun x hx => hP.mono (hP.le hfirst) le_rfl (ih x hx)⟩

end Chained

/-- An extent of at least one character of a text, with the lines and columns
that its offsets have there. -/
structure Extent.IsIn (source : List Char) (e : Extent) : Prop where
  nonempty : e.start.offset < e.stop.offset
  bound : e.stop.offset ≤ source.length
  start_eq : e.start = .ofOffset source e.start.offset
  stop_eq : e.stop = .ofOffset source e.stop.offset

namespace Node

def Encloses (n c : Node) : Prop :=
  ∀ e ∈ n.extent?, ∀ f ∈ c.extent?, e.start.offset ≤ f.start.offset ∧ f.stop.offset ≤ e.stop.offset

def Precedes (n m : Node) : Prop :=
  ∀ e ∈ n.extent?, ∀ f ∈ m.extent?, e.stop.offset ≤ f.start.offset

structure Placed (source : List Char) (n : Node) : Prop where
  extent : ∃ e, n.extent? = some e ∧ e.IsIn source
  nested : ∀ c ∈ n.children, n.Encloses c.2
  ordered : n.codeChildren.Pairwise Precedes

structure PlacedIn (source : List Char) (lo hi : Nat) (n : Node) : Prop where
  extent : ∃ e, n.extent? = some e ∧ lo ≤ e.start.offset ∧ e.stop.offset ≤ hi
  all : n.All (Placed source)

variable {source : List Char} {lo hi : Nat} {n : Node} {e : Extent}

theorem PlacedIn.lt (hn : n.PlacedIn source lo hi) : lo < hi := by
  obtain ⟨e, he, hstart, hstop⟩ := hn.extent
  obtain ⟨f, hf, hin⟩ := (all_iff.mp hn.all).1.extent
  rw [he] at hf
  cases hf
  exact hstart.trans_lt (hin.nonempty.trans_le hstop)

theorem standsBetween_placedIn (source : List Char) : StandsBetween (PlacedIn source) where
  le := fun hn => hn.lt.le
  mono := by
    intro lo hi lo' hi' n hlo hhi hn
    obtain ⟨e, he, hstart, hstop⟩ := hn.extent
    exact ⟨⟨e, he, hlo.trans hstart, hstop.trans hhi⟩, hn.all⟩

theorem pairwise_precedes {ns : List Node} (hns : Chained (PlacedIn source) lo hi ns) :
    ns.Pairwise Precedes := by
  induction hns with
  | nil => exact .nil
  | cons hfirst hrest ih =>
    refine pairwise_cons.mpr ⟨fun m hm e he f hf => ?_, ih⟩
    obtain ⟨e', he', -, hstop⟩ := hfirst.extent
    obtain ⟨f', hf', hstart, -⟩ := (hrest.forall_mem (standsBetween_placedIn source) m hm).extent
    rw [he'] at he
    rw [hf'] at hf
    cases he
    cases hf
    exact hstop.trans hstart

/-- A node is placed if its children are placed in its extent. -/
theorem placedIn_of_children (hextent : n.extent? = some e) (hin : e.IsIn source)
    (hcode : Chained (PlacedIn source) e.start.offset e.stop.offset n.codeChildren)
    (haside : ∀ c ∈ n.asideChildren, c.PlacedIn source e.start.offset e.stop.offset) :
    n.PlacedIn source e.start.offset e.stop.offset := by
  have hchildren : ∀ c ∈ n.children, c.2.PlacedIn source e.start.offset e.stop.offset := by
    intro c hc
    have hmem := mem_map_of_mem (f := Prod.snd) hc
    by_cases hkind : c.2.isCode = true
    · exact hcode.forall_mem (standsBetween_placedIn source) _ (mem_filter.mpr ⟨hmem, hkind⟩)
    · exact haside _ (mem_filter.mpr ⟨hmem, by simpa using hkind⟩)
  refine ⟨⟨e, hextent, le_rfl, le_rfl⟩, all_iff.mpr ⟨⟨⟨e, hextent, hin⟩, ?_, ?_⟩, ?_⟩⟩
  · intro c hc e' he' f hf
    obtain ⟨f', hf', hstart, hstop⟩ := (hchildren c hc).extent
    rw [hextent] at he'
    rw [hf'] at hf
    cases he'
    cases hf
    exact ⟨hstart, hstop⟩
  · exact pairwise_precedes hcode
  · exact fun c hc => (hchildren c hc).all

theorem PlacedIn.child {c : Slot × Node} (hn : n.PlacedIn source lo hi) (hc : c ∈ n.children) :
    c.2.PlacedIn source lo hi := by
  obtain ⟨hplaced, hbelow⟩ := all_iff.mp hn.all
  obtain ⟨e, he, hstart, hstop⟩ := hn.extent
  obtain ⟨f, hf, -⟩ := (all_iff.mp (hbelow c hc)).1.extent
  have hinside := hplaced.nested c hc e he f hf
  exact ⟨⟨f, hf, hstart.trans hinside.1, hinside.2.trans hstop⟩, hbelow c hc⟩

theorem placedIn_leaf (hextent : n.extent? = some e) (hin : e.IsIn source)
    (hchildren : n.children = []) : n.PlacedIn source e.start.offset e.stop.offset := by
  apply placedIn_of_children hextent hin
  · rw [codeChildren, hchildren]
    exact .nil hin.nonempty.le
  · simp [asideChildren, hchildren]

theorem MadeOf.placedIn {info : NodeInfo} {code aside : List Node}
    (hmade : n.MadeOf info code aside) (hin : info.extent.IsIn source)
    (hcode : Chained (PlacedIn source) info.extent.start.offset info.extent.stop.offset code)
    (haside : ∀ c ∈ aside, c.PlacedIn source info.extent.start.offset info.extent.stop.offset) :
    n.PlacedIn source info.extent.start.offset info.extent.stop.offset := by
  apply placedIn_of_children hmade.extent hin
  · rw [hmade.code]
    exact hcode
  · exact fun c hc => haside c (hmade.aside.mem_iff.mp hc)

end Node

/-! ## What the rules build -/

namespace Grammar

open Node

def Ast.Placed (source : List Char) (lo hi : Nat) (s : Symbol) (x : Ast s) : Prop :=
  (∀ e, Chained (PlacedIn source) lo hi (Ast.code e s x)) ∧
    ∀ n ∈ Ast.aside s x, n.PlacedIn source lo hi

def Token.Placed (source : List Char) (lo hi : Nat) (t : Token) : Prop :=
  t.extent.IsIn source ∧ lo ≤ t.extent.start.offset ∧ t.extent.stop.offset ≤ hi

def Parts.Placed (source : List Char) : (r : Rhs) → Nat → Nat → Parts Ast r → Prop
  | .tok _, lo, hi, t => Token.Placed source lo hi t.1
  | .nt s, lo, hi, x => Ast.Placed source lo hi s x
  | .seq a b, lo, hi, v =>
    ∃ mid, Parts.Placed source a lo mid v.1 ∧ Parts.Placed source b mid hi v.2
  | .alt a _, lo, hi, .inl v => Parts.Placed source a lo hi v
  | .alt _ b, lo, hi, .inr v => Parts.Placed source b lo hi v
  | .opt a, lo, hi, v =>
    lo ≤ hi ∧ ∀ x ∈ show Option (Parts Ast a) from v, Parts.Placed source a lo hi x
  | .star a, lo, hi, vs => Chained (Parts.Placed source a) lo hi vs

abbrev Ast.PlacedAt (source : List Char) (place : Extent) (s : Symbol) (x : Ast s) : Prop :=
  Ast.Placed source place.start.offset place.stop.offset s x

abbrev Parts.PlacedAt (source : List Char) (place : Extent) (r : Rhs) (v : Parts Ast r) : Prop :=
  Parts.Placed source r place.start.offset place.stop.offset v

section Placed

variable {source : List Char} {lo hi : Nat}

theorem standsBetween_token (source : List Char) : StandsBetween (Token.Placed source) where
  le := fun ht => ht.2.1.trans (ht.1.nonempty.le.trans ht.2.2)
  mono := fun hlo hhi ht => ⟨ht.1, hlo.trans ht.2.1, ht.2.2.trans hhi⟩

theorem standsBetween_ast (source : List Char) (s : Symbol) :
    StandsBetween fun lo hi => Ast.Placed source lo hi s where
  le := fun hx => (Chained.standsBetween (standsBetween_placedIn source)).le (hx.1 .text)
  mono := fun hlo hhi hx =>
    ⟨fun e => (Chained.standsBetween (standsBetween_placedIn source)).mono hlo hhi (hx.1 e),
      fun n hn => (standsBetween_placedIn source).mono hlo hhi (hx.2 n hn)⟩

theorem standsBetween_parts (source : List Char) (r : Rhs) :
    StandsBetween (Parts.Placed source r) := by
  induction r with
  | tok kinds =>
    exact ⟨fun h => (standsBetween_token source).le h,
      fun hlo hhi h => (standsBetween_token source).mono hlo hhi h⟩
  | nt s => exact standsBetween_ast source s
  | seq a b iha ihb =>
    constructor
    · rintro lo hi v ⟨mid, ha, hb⟩
      exact (iha.le ha).trans (ihb.le hb)
    · rintro lo hi lo' hi' v hlo hhi ⟨mid, ha, hb⟩
      exact ⟨mid, iha.mono hlo le_rfl ha, ihb.mono le_rfl hhi hb⟩
  | alt a b iha ihb =>
    constructor
    · rintro lo hi (v | v) h
      · exact iha.le h
      · exact ihb.le h
    · rintro lo hi lo' hi' (v | v) hlo hhi h
      · exact iha.mono hlo hhi h
      · exact ihb.mono hlo hhi h
  | opt a ih =>
    exact ⟨fun h => h.1, fun hlo hhi h =>
      ⟨hlo.trans (h.1.trans hhi), fun x hx => ih.mono hlo hhi (h.2 x hx)⟩⟩
  | star a ih => exact Chained.standsBetween ih

theorem Parts.Placed.code {v : Parts Ast r} (h : Parts.Placed source r lo hi v)
    (e : Enclosure) : Chained (PlacedIn source) lo hi (Parts.code e r v) := by
  have hplaced := standsBetween_placedIn source
  induction r generalizing lo hi with
  | tok kinds => exact .nil ((standsBetween_token source).le h)
  | nt s => exact h.1 e
  | seq a b iha ihb =>
    obtain ⟨mid, ha, hb⟩ := h
    exact (iha ha).append hplaced (ihb hb)
  | alt a b iha ihb =>
    rcases v with v | v
    · exact iha h
    · exact ihb h
  | opt a ih =>
    cases v with
    | none => exact .nil h.1
    | some x =>
      have hx := ih (h.2 x rfl)
      simpa [Parts.collect] using hx
  | star a ih =>
    induction h with
    | nil hle => exact .nil hle
    | cons hfirst _ ihrest => exact (ih hfirst).append hplaced ihrest

theorem Parts.Placed.aside {v : Parts Ast r} (h : Parts.Placed source r lo hi v) :
    ∀ n ∈ Parts.aside r v, n.PlacedIn source lo hi := by
  have hplaced := standsBetween_placedIn source
  induction r generalizing lo hi with
  | tok kinds => exact nofun
  | nt s => exact h.2
  | seq a b iha ihb =>
    obtain ⟨mid, ha, hb⟩ := h
    refine forall_mem_append.mpr ⟨fun n hn => ?_, fun n hn => ?_⟩
    · exact hplaced.mono le_rfl ((standsBetween_parts source b).le hb) (iha ha n hn)
    · exact hplaced.mono ((standsBetween_parts source a).le ha) le_rfl (ihb hb n hn)
  | alt a b iha ihb =>
    rcases v with v | v
    · exact iha h
    · exact ihb h
  | opt a ih =>
    intro n hn
    obtain ⟨x, hx, hn⟩ := mem_flatMap.mp hn
    exact ih (h.2 x (Option.mem_toList.mp hx)) n hn
  | star a ih =>
    intro n hn
    obtain ⟨x, hx, hn⟩ := mem_flatMap.mp hn
    exact ih (h.forall_mem (standsBetween_parts source a) x hx) n hn

theorem Token.Placed.leaf {t : Token} {lo' hi' : Nat} (ht : Token.Placed source lo hi t)
    (hlo : lo' ≤ lo) (hhi : hi ≤ hi') {n : Node} (hextent : n.extent? = some t.extent)
    (hchildren : n.children = []) : n.PlacedIn source lo' hi' :=
  (standsBetween_placedIn source).mono (hlo.trans ht.2.1) (ht.2.2.trans hhi)
    (placedIn_leaf hextent ht.1 hchildren)

theorem placed_commaSeparated {v : Parts Ast (Rhs.commaSeparated r)}
    (h : Parts.Placed source (Rhs.commaSeparated r) lo hi v) :
    ∀ x ∈ Image.commaSeparated v, Parts.Placed source r lo hi x := by
  have hparts := standsBetween_parts source
  obtain ⟨mid, hfirst, hrest⟩ := h
  intro x hx
  rcases mem_cons.mp hx with rfl | hx
  · exact (hparts r).mono le_rfl ((Chained.standsBetween (hparts _)).le hrest) hfirst
  · obtain ⟨y, hy, rfl⟩ := mem_map.mp hx
    obtain ⟨mid', hcomma, hy⟩ := hrest.forall_mem (hparts _) y hy
    exact (hparts r).mono (((hparts r).le hfirst).trans ((hparts _).le hcomma)) le_rfl hy

theorem placed_node {s : Symbol} {x : Ast s} {n : Node} (hn : n.PlacedIn source lo hi)
    (hcode : ∀ e, Ast.code e s x = [n]) (haside : Ast.aside s x = []) :
    Ast.Placed source lo hi s x := by
  refine ⟨fun e => ?_, ?_⟩
  · rw [hcode e]
    exact .singleton hn
  · simp [haside]

theorem placedIn_creationCallee {owner : Token} {name : Option Token} {lo mid hi : Nat}
    (howner : Token.Placed source lo mid owner) (hmid : mid ≤ hi)
    (hname : ∀ n ∈ name, Token.Placed source mid hi n) :
    (Node.expr (creationCallee owner name)).PlacedIn source lo hi := by
  cases name with
  | none => exact howner.leaf le_rfl hmid rfl rfl
  | some n =>
    have hn := hname n rfl
    have hle : owner.extent.stop.offset ≤ n.extent.start.offset := howner.2.2.trans hn.2.1
    have hin : Extent.IsIn source ⟨owner.extent.start, n.extent.stop⟩ :=
      ⟨howner.1.nonempty.trans_le (hle.trans hn.1.nonempty.le), hn.1.bound, howner.1.start_eq,
        hn.1.stop_eq⟩
    have hclass : (Node.expr (.name { extent := owner.extent } owner.text)).PlacedIn source
        owner.extent.start.offset n.extent.stop.offset :=
      (standsBetween_placedIn source).mono le_rfl (hle.trans hn.1.nonempty.le)
        (placedIn_leaf rfl howner.1 rfl)
    refine (standsBetween_placedIn source).mono howner.2.1 hn.2.2
      (placedIn_of_children (e := ⟨owner.extent.start, n.extent.stop⟩) rfl hin ?_ ?_)
    · exact .singleton hclass
    · rw [(codeChildren_expr _).2]
      exact nofun

theorem placed_unit (v : Parts Ast (rule .unit)) (h : Parts.Placed source (rule .unit) lo hi v) :
    Ast.Placed source lo hi .unit v := by
  refine ⟨fun _ => ?_, nofun⟩
  have hcode := h.code .text
  obtain ⟨directives, declarations⟩ := v
  simpa [rule, Parts.collect, Ast.code, flatMap_singletons] using hcode

section Build

variable {info : NodeInfo} (hin : info.extent.IsIn source)
include hin

theorem Contributes.placed {code aside code' aside' : List Node}
    (hcontributes : Contributes info code aside code' aside')
    (hcode : Chained (PlacedIn source) info.extent.start.offset info.extent.stop.offset code)
    (haside : ∀ n ∈ aside, n.PlacedIn source info.extent.start.offset info.extent.stop.offset) :
    Chained (PlacedIn source) info.extent.start.offset info.extent.stop.offset code' ∧
      ∀ n ∈ aside', n.PlacedIn source info.extent.start.offset info.extent.stop.offset := by
  have hnone := Chained.nil (P := PlacedIn source) hin.nonempty.le
  cases hcontributes with
  | parts hcode' haside' => exact ⟨hcode' ▸ hcode, haside' ▸ haside⟩
  | code hmade => exact ⟨.singleton (hmade.placedIn hin hcode haside), nofun⟩
  | aside hmade =>
    exact ⟨hnone, forall_mem_singleton.mpr (hmade.placedIn hin hcode haside)⟩
  | wrapped hmade =>
    have hstmt := hmade.placedIn hin hcode haside
    exact ⟨.singleton ((madeOf_block info _).placedIn hin (.singleton hstmt) nofun), nofun⟩
  | unwrapped hblock _ =>
    rw [hblock] at hcode
    have hplaced := hcode.forall_mem (standsBetween_placedIn source) _ (mem_singleton_self _)
    exact ⟨.singleton (hplaced.child (mem_singleton_self _)), nofun⟩

theorem placed_primary (v : Parts Ast (rule .primary))
    (h : Parts.PlacedAt source info.extent (rule .primary) v) :
    Ast.PlacedAt source info.extent .primary (build .primary info v) := by
  rcases v with t | t | t | t | t | t | t | t | items | t | ⟨word, owner, name, args⟩ | ⟨_, e, _⟩
  case inr.inr.inr.inr.inr.inr.inr.inr.inl =>
    exact placed_node ((madeOf_list info items).placedIn hin (h.code .text) h.aside)
      (fun _ => rfl) rfl
  case inr.inr.inr.inr.inr.inr.inr.inr.inr.inr.inl =>
    obtain ⟨first, hword, second, howner, third, hname, hargs⟩ := h
    have hnamed : ∀ n ∈ Option.map (fun n => n.2.1) name, Token.Placed source second third n := by
      intro n hn
      obtain ⟨x, hx, rfl⟩ := Option.mem_map.mp hn
      obtain ⟨mid, hdot, hn⟩ := hname.2 x hx
      exact (standsBetween_token source).mono ((standsBetween_token source).le hdot) le_rfl hn
    have hcallee := placedIn_creationCallee howner hname.1 hnamed
    refine placed_node (placedIn_of_children rfl hin ?_ ?_) (fun _ => rfl) rfl
    · rw [(codeChildren_expr _).1]
      have hargs := hargs.1 .text
      refine .cons ((standsBetween_placedIn source).mono ((standsBetween_token source).le hword)
        le_rfl hcallee) ?_
      rw [map_map]
      exact hargs
    · rw [(codeChildren_expr _).2]
      exact nofun
  case inr.inr.inr.inr.inr.inr.inr.inr.inr.inr.inr =>
    exact ⟨fun _ => h.code .text, nofun⟩
  all_goals exact placed_node (placedIn_leaf rfl hin rfl) (fun _ => rfl) rfl

theorem placed_build (s : Symbol) (v : Parts Ast (rule s))
    (h : Parts.PlacedAt source info.extent (rule s) v) :
    Ast.PlacedAt source info.extent s (build s info v) := by
  by_cases hs : s ∈ tokenRules
  · simp only [tokenRules, mem_cons, not_mem_nil, or_false] at hs
    rcases hs with rfl | rfl | rfl | rfl
    · obtain ⟨_, name⟩ := v
      obtain ⟨mid, hword, hname⟩ := h
      refine ⟨fun _ => .nil hin.nonempty.le, forall_mem_singleton.mpr ?_⟩
      exact hname.leaf ((standsBetween_token source).le hword) le_rfl rfl rfl
    · obtain ⟨_, names⟩ := v
      obtain ⟨mid, hword, hnames⟩ := h
      have hle := (standsBetween_token source).le hword
      have hall : ∀ t ∈ Image.commaSeparated names, Token.Placed source mid _ t.1 :=
        placed_commaSeparated hnames
      refine ⟨fun _ => .nil hin.nonempty.le, ?_⟩
      change ∀ n ∈ ((Image.commaSeparated names).map fun t => className t.1).map
        (fun t => Node.type (.named t)), _
      rw [map_map, forall_mem_map]
      exact fun t ht => (hall t ht).leaf hle le_rfl rfl rfl
    · obtain ⟨t, _⟩ := v
      obtain ⟨mid, hword, hend⟩ := h
      have hsite := hword.leaf (n := .expr (.rethrow { extent := t.1.extent })) le_rfl
        ((standsBetween_token source).le hend) rfl rfl
      exact placed_node ((madeOf_rethrow info _).placedIn hin (.singleton hsite) (forall_mem_nil _))
        (fun _ => rfl) rfl
    · exact placed_primary hin v h
  · have hplaced : ∀ e, _ ∧ _ := fun e =>
      (contributes_build s info v e hs).elim fun e' hcontributes =>
        hcontributes.placed hin (h.code e') h.aside
    exact ⟨fun e => (hplaced e).1, (hplaced .text).2⟩

end Build

/-! ## Derivations -/

def Covers (source : List Char) (lo hi : Nat) (ts : List Token) : Option Extent → Prop
  | none => ts = [] ∧ lo ≤ hi
  | some e => e.IsIn source ∧ lo ≤ e.start.offset ∧ e.stop.offset ≤ hi ∧
      Chained (Token.Placed source) e.start.offset e.stop.offset ts

theorem Covers.join {mid : Nat} {ts us : List Token} {e f : Option Extent}
    (he : Covers source lo mid ts e) (hf : Covers source mid hi us f) :
    Covers source lo hi (ts ++ us) (joinExtents e f) := by
  have htoken := standsBetween_token source
  have hchained := Chained.standsBetween htoken
  cases e with
  | none =>
    obtain ⟨rfl, hle⟩ := he
    cases f with
    | none => exact ⟨hf.1, hle.trans hf.2⟩
    | some f =>
      obtain ⟨hin, hstart, hstop, hus⟩ := hf
      exact ⟨hin, hle.trans hstart, hstop, hus⟩
  | some e =>
    obtain ⟨hin, hstart, hstop, hts⟩ := he
    cases f with
    | none =>
      obtain ⟨rfl, hle⟩ := hf
      rw [append_nil]
      exact ⟨hin, hstart, hstop.trans hle, hts⟩
    | some f =>
      obtain ⟨hin', hstart', hstop', hus⟩ := hf
      have hle := hstop.trans hstart'
      refine ⟨⟨?_, hin'.bound, hin.start_eq, hin'.stop_eq⟩, hstart, hstop', ?_⟩
      · exact hin.nonempty.trans_le (hle.trans hin'.nonempty.le)
      · exact (hchained.mono le_rfl hle hts).append htoken hus

theorem Tree.covers_eval (d : Tree r) (hyield : Chained (Token.Placed source) lo hi d.yield) :
    Covers source lo hi d.yield d.eval.1 := by
  induction d generalizing lo hi with
  | tok t isKind =>
    have ht := hyield.forall_mem (standsBetween_token source) t (mem_singleton_self t)
    exact ⟨ht.1, ht.2.1, ht.2.2, .singleton ⟨ht.1, le_rfl, le_rfl⟩⟩
  | nt body ih => exact ih hyield
  | seq x y ihx ihy | cons x y ihx ihy =>
    obtain ⟨mid, hx, hy⟩ := hyield.exists_of_append
    exact (ihx hx).join (ihy hy)
  | inl x ih | inr x ih | some x ih => exact ih hyield
  | none | nil => exact ⟨rfl, (Chained.standsBetween (standsBetween_token source)).le hyield⟩

theorem nullable_starts {s : Symbol} (hs : s ≠ .unit) : (starts s).nullable = false := by
  cases s with
  | unit => exact absurd rfl hs
  | _ => rfl

theorem Tree.placed_eval (d : Tree r) (hyield : Chained (Token.Placed source) lo hi d.yield) :
    Parts.Placed source r lo hi d.eval.2 := by
  induction d generalizing lo hi with
  | tok t isKind =>
    exact hyield.forall_mem (standsBetween_token source) t (mem_singleton_self t)
  | @nt s body ih =>
    by_cases hs : s = .unit
    · subst hs
      exact placed_unit _ (ih hyield)
    · have hcovers := body.covers_eval hyield
      change Ast.Placed source lo hi s (build s (infoOf body.eval.1) body.eval.2)
      cases hextent : body.eval.1 with
      | none =>
        rw [hextent] at hcovers
        exact absurd hcovers.1 ((Tree.nt body).admits_yield.ne_nil (nullable_starts hs))
      | some e =>
        rw [hextent] at hcovers
        obtain ⟨hin, hstart, hstop, htight⟩ := hcovers
        have hplace : (infoOf (Option.some e)).extent.IsIn source := hin
        have hbuild := placed_build hplace s body.eval.2 (ih htight)
        exact (standsBetween_ast source s).mono hstart hstop hbuild
  | seq x y ihx ihy =>
    obtain ⟨mid, hx, hy⟩ := hyield.exists_of_append
    exact ⟨mid, ihx hx, ihy hy⟩
  | inl x ih | inr x ih => exact ih hyield
  | none => exact ⟨(Chained.standsBetween (standsBetween_token source)).le hyield, nofun⟩
  | some x ih =>
    refine ⟨(Chained.standsBetween (standsBetween_token source)).le hyield, fun v hv => ?_⟩
    cases hv
    exact ih hyield
  | nil => exact .nil ((Chained.standsBetween (standsBetween_token source)).le hyield)
  | cons x xs ihx ihxs =>
    obtain ⟨mid, hx, hxs⟩ := hyield.exists_of_append
    exact .cons (ihx hx) (ihxs hxs)

end Placed

end Grammar

end CheckedThrows
