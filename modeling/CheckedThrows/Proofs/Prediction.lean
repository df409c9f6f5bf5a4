import CheckedThrows.Parser.Basic
import CheckedThrows.Proofs.Derivations

/-!
# Prediction

The table of starts is right: the tokens of every derivation start as its
right-hand side says.  With a table of what can follow every symbol it is then
checked, once for each reading, that the tokens in front always tell which way
to go, and that between two tokens only symbols of falling rank are entered.
-/

namespace CheckedThrows.Grammar

open List

variable {a b : Starts} {w : List Token}

namespace Starts

variable {w : List Token} {a : Starts}

def Admits (a : Starts) : List Token → Prop
  | [] => a.nullable = true
  | [t] => t.kind ∈ a.kinds ∨ t.kind = .name ∧ a.lone = true
  | t :: u :: _ => t.kind ∈ a.kinds ∨ t.kind = .name ∧ u.kind ∈ a.names

theorem mem_heads_iff {k : TokenKind} :
    k ∈ a.heads ↔ k ∈ a.kinds ∨ k = .name ∧ (a.lone = true ∨ a.names ≠ []) := by
  rw [heads]
  split
  next h =>
    have hname : a.lone = true ∨ a.names ≠ [] := by simpa using h
    simp only [mem_cons, hname, and_true]
    exact or_comm
  next h =>
    have hname : ¬(a.lone = true ∨ a.names ≠ []) := by simpa using h
    simp only [hname, and_false, or_false]

theorem Admits.mem_heads {t : Token} {ts : List Token}
    (h : a.Admits (t :: ts)) : t.kind ∈ a.heads := by
  rw [mem_heads_iff]
  cases ts with
  | nil =>
    rcases h with hkind | ⟨hname, hlone⟩
    · exact .inl hkind
    · exact .inr ⟨hname, .inl hlone⟩
  | cons u us =>
    rcases h with hkind | ⟨hname, hsecond⟩
    · exact .inl hkind
    · exact .inr ⟨hname, .inr (ne_nil_of_mem hsecond)⟩

theorem Admits.ne_nil (h : a.Admits w) (hnull : a.nullable = false) : w ≠ [] := by
  rintro rfl
  exact Bool.noConfusion (hnull.symm.trans h)

theorem admits_tok {kinds : List TokenKind} {t : Token} (h : t.kind ∈ kinds) :
    (tok kinds).Admits [t] := by
  by_cases hname : t.kind = .name
  · rw [hname] at h
    exact .inr ⟨hname, contains_iff_mem.mpr h⟩
  · exact .inl (mem_filter.mpr ⟨h, decide_eq_true hname⟩)

theorem Admits.seq {v : List Token}
    (ha : a.Admits w) (hb : b.Admits v) : (seq a b).Admits (w ++ v) := by
  match w, ha with
  | [], ha =>
    have hnull : a.nullable = true := ha
    match v, hb with
    | [], hb =>
      have hnull' : b.nullable = true := hb
      simp [Admits, Starts.seq, hnull, hnull']
    | [t], hb =>
      rcases hb with hkind | ⟨hname, hlone⟩
      · exact .inl (by simp [Starts.seq, hnull, hkind])
      · exact .inr ⟨hname, by simp [Starts.seq, hnull, hlone]⟩
    | t :: u :: _, hb =>
      rcases hb with hkind | ⟨hname, hsecond⟩
      · exact .inl (by simp [Starts.seq, hnull, hkind])
      · exact .inr ⟨hname, by simp [Starts.seq, hnull, hsecond]⟩
  | [t], ha =>
    match v, hb with
    | [], hb =>
      have hnull : b.nullable = true := hb
      rcases ha with hkind | ⟨hname, hlone⟩
      · exact .inl (by simp only [Starts.seq]; split <;> simp [hkind])
      · exact .inr ⟨hname, by simp [Starts.seq, hlone, hnull]⟩
    | u :: us, hb =>
      have hhead := hb.mem_heads
      rcases ha with hkind | ⟨hname, hlone⟩
      · exact .inl (by simp only [Starts.seq]; split <;> simp [hkind])
      · exact .inr ⟨hname, by simp [Starts.seq, hlone, hhead]⟩
  | t :: u :: us, ha =>
    rcases ha with hkind | ⟨hname, hsecond⟩
    · exact .inl (by simp only [Starts.seq]; split <;> simp [hkind])
    · exact .inr ⟨hname, by simp [Starts.seq, hsecond]⟩

def le (a b : Starts) : Bool :=
  a.kinds.all b.kinds.contains && (b.kinds.contains .name || a.names.all b.names.contains) &&
    (b.kinds.contains .name || !a.lone || b.lone) && (!a.nullable || b.nullable)

theorem Admits.mono (hle : a.le b = true) (h : a.Admits w) : b.Admits w := by
  simp only [le, Bool.and_eq_true, Bool.or_eq_true, all_eq_true, contains_iff_mem,
    Bool.not_eq_true'] at hle
  obtain ⟨⟨⟨hkinds, hnames⟩, hlone⟩, hnull⟩ := hle
  match w, h with
  | [], h =>
    have h : a.nullable = true := h
    exact hnull.resolve_left (by simp [h])
  | [t], h =>
    rcases h with hkind | ⟨hname, h⟩
    · exact .inl (hkinds _ hkind)
    · rcases hlone with (hany | hno) | hyes
      · exact .inl (hname ▸ hany)
      · simp [h] at hno
      · exact .inr ⟨hname, hyes⟩
  | t :: u :: _, h =>
    rcases h with hkind | ⟨hname, hsecond⟩
    · exact .inl (hkinds _ hkind)
    · rcases hnames with hany | hall
      · exact .inl (hname ▸ hany)
      · exact .inr ⟨hname, hall _ hsecond⟩

theorem Admits.of_subset (h : a.Admits w) (hkinds : a.kinds ⊆ b.kinds)
    (hnames : a.names ⊆ b.names) (hlone : a.lone = true → b.lone = true)
    (hnull : a.nullable = true → b.nullable = true) : b.Admits w := by
  match w, h with
  | [], h => exact hnull h
  | [t], h => exact Or.imp (@hkinds _) (And.imp_right hlone) h
  | t :: u :: _, h => exact Or.imp (@hkinds _) (And.imp_right (@hnames _)) h

theorem Admits.alt_left (h : a.Admits w) (b : Starts) : (alt a b).Admits w :=
  h.of_subset (subset_append_left _ _) (subset_append_left _ _)
    (by simp +contextual [alt]) (by simp +contextual [alt])

theorem Admits.alt_right (h : b.Admits w) (a : Starts) : (alt a b).Admits w :=
  h.of_subset (subset_append_right _ _) (subset_append_right _ _)
    (by simp +contextual [alt]) (by simp +contextual [alt])

theorem Admits.opt (h : a.Admits w) : (opt a).Admits w :=
  h.of_subset (fun _ => id) (fun _ => id) id (fun _ => rfl)

theorem mem_heads_star {k : TokenKind} : k ∈ (star a).heads ↔ k ∈ a.heads := by
  rw [mem_heads_iff, mem_heads_iff]
  cases hlone : a.lone <;> simp [star, hlone]

theorem Admits.star_cons {v : List Token}
    (ha : a.Admits w) (hb : (star a).Admits v) : (star a).Admits (w ++ v) := by
  match w, ha with
  | [], _ => exact hb
  | [t], ha =>
    match v, hb with
    | [], _ => exact ha
    | u :: us, hb =>
      rcases ha with hkind | ⟨hname, hlone⟩
      · exact .inl hkind
      · exact .inr ⟨hname, by simp [star, hlone, mem_heads_star.mp hb.mem_heads]⟩
  | t :: u :: us, ha =>
    rcases ha with hkind | ⟨hname, hsecond⟩
    · exact .inl hkind
    · exact .inr ⟨hname, by simp [star, hsecond]⟩

end Starts

/-! ## The table of starts -/

theorem starts_rule_le (s : Symbol) : (rule s).starts.le (starts s) = true := by
  cases s with
  | chain l => cases l <;> decide
  | comparison c => cases c <;> decide
  | _ => decide

theorem Tree.admits_yield {r : Rhs} (d : Tree r) : r.starts.Admits d.yield := by
  induction d with
  | tok t isKind => exact Starts.admits_tok isKind
  | nt body ih => exact ih.mono (starts_rule_le _)
  | seq x y ihx ihy => exact ihx.seq ihy
  | inl x ih => exact ih.alt_left _
  | inr y ih => exact ih.alt_right _
  | none => rfl
  | some x ih => exact ih.opt
  | nil => rfl
  | cons x xs ihx ihxs => exact ihx.star_cons ihxs

theorem Parts.admits_yield {r : Rhs} (v : Parts Derivation r) : r.starts.Admits v.yield :=
  (Tree.ofParts r v).admits_yield

/-! ## What can follow -/

def front (ts : List Token) : Option TokenKind := ts.head?.map Token.kind

/-- What can be in front of words that start as `a` says, each with what `F`
allows behind it. -/
def Starts.before (a : Starts) (F : List (Option TokenKind)) : List (Option TokenKind) :=
  a.heads.map some ++ if a.nullable then F else []

theorem Starts.Admits.front_mem {rest : List Token}
    {F : List (Option TokenKind)} (h : a.Admits w) (hrest : front rest ∈ F) :
    front (w ++ rest) ∈ a.before F := by
  cases w with
  | nil =>
    have hnull : a.nullable = true := h
    simp [Starts.before, hnull, hrest]
  | cons t ts => exact mem_append_left _ (mem_map_of_mem h.mem_heads)

def Starts.aside (a : Starts) (F : List (Option TokenKind)) : Bool :=
  a.heads.all fun k => !F.contains (some k)

/-- Whether one token, or two if the first is a name, tell words that start as
`a` says from those that start as `b` says and have `F` behind them. -/
def Starts.apart (a b : Starts) (F : List (Option TokenKind)) : Bool :=
  !a.nullable && (!b.nullable || a.aside F) && a.heads.all fun k =>
    !b.heads.contains k || k = .name && !a.lone && !a.kinds.contains .name &&
      !b.kinds.contains .name &&
      a.names.all fun u => !b.names.contains u && !(b.lone && F.contains (some u))

def exprEnds : List TokenKind := [.semicolon, .comma, .closeParen, .closeBracket]

def operandEnds (looser : Nat) : List TokenKind := exprEnds ++ binaryKinds.take looser

def bodyEnds : List TokenKind :=
  .closeBrace :: (starts .topDecl).kinds ++ (starts .classMember).kinds ++ (starts .statement).kinds

def metadataEnds : List TokenKind :=
  .abstractWord :: .classWord :: .operatorWord :: .thisWord :: .getWord :: .setWord ::
    .name :: .functionWord :: modifierKinds

/-- The kinds of tokens that can follow a symbol where it is read, and whether
the text can end there. -/
def follow : Symbol → List (Option TokenKind)
  | .unit => [none]
  | .directive => none :: (.importWord :: .exportWord :: (starts .topDecl).kinds).map some
  | .topDecl => none :: (starts .topDecl).kinds.map some
  | .metadata => metadataEnds.map some
  | .metadatum => (.at :: metadataEnds).map some
  | .modifiers => [some .name, some .functionWord, some .getWord, some .setWord, some .operatorWord]
  | .type => [some .name, some .getWord, some .setWord, some .operatorWord, some .thisWord,
      some .comma, some .closeParen, some .catchWord, some .openBrace]
  | .superclass => [some .implementsWord, some .openBrace]
  | .interfaces | .catchBinders => [some .openBrace]
  | .classMember => (.closeBrace :: (starts .classMember).kinds).map some
  | .varInit => [some .semicolon]
  | .operatorName => [some .openParen]
  | .params => [some .openBrace, some .arrow, some .semicolon]
  | .param => [some .comma, some .closeParen]
  | .fnBody => none :: bodyEnds.map some
  | .block =>
    none :: (.elseWord :: .onWord :: .catchWord :: .finallyWord :: exprEnds ++ bodyEnds).map some
  | .catchClause =>
    (.onWord :: .catchWord :: .finallyWord :: .closeBrace :: (starts .statement).kinds).map some
  | .statement | .exprStmt | .returnStmt | .ifStmt | .whileStmt | .rethrowStmt | .breakStmt
  | .continueStmt | .tryStmt | .finallyClause =>
    (.closeBrace :: (starts .statement).kinds).map some
  | .expr | .lambda | .throwExpr | .chain .or => exprEnds.map some
  | .chain .and => (operandEnds 1).map some
  | .comparison .equality => (operandEnds 2).map some
  | .comparison .relation => (operandEnds 3).map some
  | .chain .bitOr => (operandEnds 7).map some
  | .chain .bitXor => (operandEnds 8).map some
  | .chain .bitAnd => (operandEnds 9).map some
  | .chain .shift => (operandEnds 10).map some
  | .chain .sum => (operandEnds 12).map some
  | .chain .product => (operandEnds 14).map some
  | .unary => (operandEnds 15).map some
  | .suffixed => (assignKinds ++ operandEnds 15).map some
  | .primary => (suffixKinds ++ assignKinds ++ operandEnds 15).map some
  | .args => (suffixKinds ++ assignKinds ++ operandEnds 15 ++ .at :: metadataEnds).map some
  -- These are read only as a part of something else.
  | .classDecl | .varDecl | .functionDecl | .getterDecl | .setterDecl | .operatorDecl
  | .namedConstructor | .localFunction | .assignment => []

def rank : Symbol → Nat
  | .directive | .metadatum | .modifiers | .type | .superclass | .interfaces | .varInit
  | .operatorName | .params | .block | .returnStmt | .ifStmt | .whileStmt | .rethrowStmt
  | .breakStmt | .continueStmt | .tryStmt | .catchBinders | .finallyClause | .lambda
  | .throwExpr | .args | .primary => 1
  | .metadata | .fnBody | .catchClause | .suffixed => 2
  | .topDecl | .classMember | .param | .expr | .unary => 3
  | .unit | .exprStmt | .chain .product => 4
  | .statement | .chain .sum => 5
  | .chain .shift => 6
  | .chain .bitAnd => 7
  | .chain .bitXor => 8
  | .chain .bitOr => 9
  | .comparison .relation => 10
  | .comparison .equality => 11
  | .chain .and => 12
  | .chain .or => 13
  | .classDecl | .varDecl | .functionDecl | .getterDecl | .setterDecl | .operatorDecl
  | .namedConstructor | .localFunction | .assignment => 0

namespace Rhs

def rank : Rhs → Nat
  | .tok _ => 0
  | .nt s => Grammar.rank s
  | .seq a b => if a.starts.nullable then max a.rank b.rank else a.rank
  | .alt a b => max a.rank b.rank
  | .opt a | .star a => a.rank

def predicts : Rhs → List (Option TokenKind) → Bool
  | .tok _, _ => true
  | .nt s, F => isRead s && F.all (follow s).contains
  | .seq a b, F => a.predicts (b.starts.before F) && b.predicts F
  | .alt a b, F => a.predicts F && b.predicts F && a.starts.apart b.starts F
  | .opt a, F => a.predicts F && !a.starts.nullable && a.starts.aside F
  | .star a, F =>
    a.predicts ((Starts.star a.starts).before F) && !a.starts.nullable && a.starts.aside F

end Rhs

theorem predicts_reading (s : Symbol) :
    isRead s = true → (reading s).predicts (follow s) = true := by
  cases s with
  | chain l => cases l <;> decide
  | comparison c => cases c <;> decide
  | _ => decide

theorem rank_reading_lt (s : Symbol) : isRead s = true → (reading s).rank < rank s := by
  cases s with
  | chain l => cases l <;> decide
  | comparison c => cases c <;> decide
  | _ => decide

end CheckedThrows.Grammar
