import CheckedThrows.Proofs.Prediction
import CheckedThrows.Token.Marking
import Mathlib.Data.List.Lattice

/-!
# Marking what the grammar derives

The marks of a derivable sequence of tokens can be taken off and found again.
Two checks of the rules show it: `turn` counts the parentheses of a right-hand
side, and `places` follows what can stand before a part and whether the body of
a function can come after it.  Of the function literals and instance creations,
those after a token that can only precede an expression are found.
-/

namespace CheckedThrows

open List

namespace TokenKind

def unmarked : TokenKind → TokenKind
  | .lambdaOpen => .openParen
  | .constCreation => .constWord
  | kind => kind

def noticedAfter (before : Option TokenKind) : TokenKind → Bool
  | .openParen | .lambdaOpen => before.any precedesExpression
  | .constWord | .constCreation =>
    before.any fun k => k.precedesExpression || k = .throwWord
  | _ => false

def turn : TokenKind → Nat × Nat
  | .closeParen => (1, 0)
  | .openParen | .lambdaOpen => (0, 1)
  | _ => (0, 0)

end TokenKind

namespace Token

def unmarked (t : Token) : Token := { t with kind := t.kind.unmarked }

def lastKind (before : Option TokenKind) (ts : List Token) : Option TokenKind :=
  ts.foldl (fun _ t => some t.kind) before

end Token

open Token

namespace Grammar

variable (s : Symbol) {r : Rhs} {w : List Token} (d : Tree r)

/-! ## Where the parts of a text stand -/

/-- What is known about where a part stands: the kinds that can be before it
other than at the start of a text, if they matter, and whether no body of a
function comes after it. -/
structure Place where
  before : Option (List TokenKind) := none
  bodiless : Bool := false

def statementBefore : List TokenKind := [.openBrace, .closeBrace, .semicolon]

def exprBefore : List TokenKind :=
  [.openParen, .comma, .openBracket, .assign, .compoundAssign, .arrow, .returnWord,
    .throwWord] ++ statementBefore

def operandBefore : List TokenKind := unaryKinds ++ binaryKinds ++ exprBefore

def primaryEnds : List TokenKind :=
  [.name, .thisWord, .intLiteral, .doubleLiteral, .stringLiteral, .trueWord, .falseWord,
    .nullWord, .closeBracket, .indexGet, .closeParen]

def place : Symbol → Place
  | .unit | .topDecl | .classMember | .varDecl | .functionDecl | .getterDecl | .setterDecl
  | .operatorDecl | .namedConstructor | .statement | .exprStmt =>
    { before := some statementBefore }
  | .modifiers => { before := some (.name :: .closeParen :: statementBefore) }
  | .expr | .lambda | .throwExpr | .assignment => { before := some exprBefore, bodiless := true }
  | .chain _ | .comparison _ | .unary | .suffixed | .primary =>
    { before := some operandBefore, bodiless := true }
  | .params | .args => { before := some (.step :: primaryEnds ++ operatorNameKinds) }
  | .varInit => { bodiless := true }
  | _ => {}

def ends : Symbol → List TokenKind
  | .metadata | .metadatum => [.name, .closeParen]
  | .modifiers => modifierKinds
  | .type => [.name, .question, .closeParen]
  | .superclass | .interfaces | .param => [.name]
  | .operatorName => operatorNameKinds
  | .params | .args | .catchBinders => [.closeParen]
  | .block => [.closeBrace]
  | .varInit | .expr | .lambda | .throwExpr | .assignment | .chain _ | .comparison _ | .unary =>
    .closeBrace :: .step :: primaryEnds
  | .suffixed => .step :: primaryEnds
  | .primary => primaryEnds
  | _ => [.closeBrace, .semicolon]

/-- The rules where marking depends on what comes after: a function literal
after its parenthesis, an expression in parentheses, and an instance creation
after its first word. -/
abbrev lambdaRest : Rhs :=
  .seq (.opt (.commaSeparated (.nt .param))) <| .seq (.word .closeParen) <|
    .alt (.nt .block) (.seq (.word .arrow) (.nt .expr))

@[inherit_doc lambdaRest]
abbrev groupRest : Rhs := .seq (.nt .expr) (.word .closeParen)

@[inherit_doc lambdaRest]
abbrev creationRest : Rhs :=
  .seq (.word .name) <| .seq (.opt (.seq (.word .dot) (.word .name))) (.nt .args)

namespace Rhs

def last : Rhs → List TokenKind
  | .tok kinds => kinds
  | .nt s => ends s
  | .seq a b => if b.starts.nullable then b.last ++ a.last else b.last
  | .alt a b => a.last ++ b.last
  | .opt a | .star a => a.last

/-- How many parentheses a right-hand side closes that were open before, and
how many it leaves open. -/
def turn : Rhs → Nat × Nat
  | .tok kinds => (kinds.map TokenKind.turn).headD (0, 0)
  | .seq a b => (a.turn.1 + (b.turn.1 - a.turn.2), b.turn.2 + (a.turn.2 - b.turn.1))
  | .alt a _ => a.turn
  | .nt _ | .opt _ | .star _ => (0, 0)

def turnsAlike : Rhs → Bool
  | .tok kinds => kinds.all (·.turn = (tok kinds).turn)
  | .nt _ => true
  | .seq a b => a.turnsAlike && b.turnsAlike
  | .alt a b => a.turnsAlike && b.turnsAlike && a.turn = b.turn
  | .opt a | .star a => a.turnsAlike && a.turn = (0, 0)

end Rhs

namespace Place

def le (p q : Place) : Bool :=
  (q.before.all fun allowed => p.before.any fun kinds => kinds.all allowed.contains) &&
    (!q.bodiless || p.bodiless)

def first (p : Place) (b : Rhs) : Place :=
  { p with bodiless := !b.starts.heads.contains .arrow && !b.starts.heads.contains .openBrace &&
      (!b.starts.nullable || p.bodiless) }

def second (p : Place) (a : Rhs) : Place :=
  { p with before := if a.starts.nullable then p.before.map (a.last ∪ ·) else some a.last }

def leaves (p : Place) (k : TokenKind) : Bool :=
  match k with
  | .lambdaOpen | .constCreation => false
  | .openParen | .constWord =>
    p.before.any fun kinds => kinds.all fun b => !k.noticedAfter (some b.unmarked)
  | _ => true

end Place

namespace Rhs

def places : Rhs → Place → Bool
  | .tok kinds, p => kinds.all p.leaves
  | .nt s, p => p.le (place s)
  | .seq a b, p =>
    (a.places (p.first b) ||
      (a = .word .lambdaOpen && b = lambdaRest && p.le (place .lambda)) ||
      (a = .word .openParen && b = groupRest && p.bodiless) ||
      (a = .tok creationKinds && b = creationRest && p.le (place .primary))) &&
    b.places (p.second a)
  | .alt a b, p => a.places p && b.places p
  | .opt a, p => a.places p
  | .star a, p => a.places ((p.second (.opt a)).first (.star a))

end Rhs

theorem last_rule : (rule s).last.all (ends s).contains = true := by
  cases s with
  | chain l => cases l <;> decide
  | comparison c => cases c <;> decide
  | _ => decide

theorem turn_rule : (rule s).turnsAlike = true ∧ (rule s).turn = (0, 0) := by
  cases s with
  | chain l => cases l <;> decide
  | comparison c => cases c <;> decide
  | _ => decide

theorem places_rule : (rule s).places (place s) = true := by
  cases s with
  | chain l => cases l <;> decide
  | comparison c => cases c <;> decide
  | _ => decide

/-! ## Parentheses -/

/-- The tokens close and open parentheses as `v` says. -/
def Turns (v : Nat × Nat) (w : List Token) : Prop :=
  ∀ depth ts, afterClosing (depth + v.1) (w.map unmarked ++ ts) = afterClosing (depth + v.2) ts

theorem turns_nil : Turns (0, 0) [] := fun _ _ => rfl

theorem Turns.append {v v' : Nat × Nat} {w' : List Token} (h : Turns v w) (h' : Turns v' w') :
    Turns (v.1 + (v'.1 - v.2), v'.2 + (v.2 - v'.1)) (w ++ w') := by
  intro depth ts
  have hfirst := h (depth + (v'.1 - v.2)) (w'.map unmarked ++ ts)
  have hsecond := h' (depth + (v.2 - v'.1)) ts
  have hbetween : depth + (v'.1 - v.2) + v.2 = depth + (v.2 - v'.1) + v'.1 := by omega
  rw [hbetween] at hfirst
  rw [map_append, append_assoc]
  convert hfirst.trans hsecond using 2 <;> simp only [] <;> omega

theorem turns_singleton (t : Token) : Turns t.kind.turn [t] := by
  intro depth ts
  cases h : t.kind <;> simp [afterClosing, unmarked, TokenKind.unmarked, TokenKind.turn, h]

theorem Tree.turns_yield (h : r.turnsAlike = true) : Turns r.turn d.yield := by
  induction d with
  | tok t isKind =>
    rw [← of_decide_eq_true (all_eq_true.1 h _ isKind)]
    exact turns_singleton t
  | @nt s body ih =>
    have hbody := ih (turn_rule s).1
    rwa [(turn_rule s).2] at hbody
  | seq x y ihx ihy =>
    rw [Rhs.turnsAlike, Bool.and_eq_true] at h
    exact (ihx h.1).append (ihy h.2)
  | inl x ih =>
    simp only [Rhs.turnsAlike, Bool.and_eq_true] at h
    exact ih h.1.1
  | inr y ih =>
    simp only [Rhs.turnsAlike, Bool.and_eq_true, decide_eq_true_eq] at h
    rw [Rhs.turn, h.2]
    exact ih h.1.2
  | none | nil => exact turns_nil
  | some x ih =>
    simp only [Rhs.turnsAlike, Bool.and_eq_true, decide_eq_true_eq] at h
    rw [Rhs.turn, ← h.2]
    exact ih h.1
  | cons x xs ihx ihxs =>
    have hxs := ihxs h
    simp only [Rhs.turnsAlike, Bool.and_eq_true, decide_eq_true_eq] at h
    exact (h.2 ▸ ihx h.1).append hxs

/-- After what has no loose parentheses the closing one is found at once. -/
theorem afterClosing_of_turns {ts : List Token} {t : Token} (h : Turns (0, 0) w)
    (ht : t.kind = .closeParen) : afterClosing 0 ((w ++ t :: ts).map unmarked) =
      some (ts.map unmarked) := by
  rw [map_append]
  refine (h 0 _).trans ?_
  simp [afterClosing, unmarked, TokenKind.unmarked, ht]

/-! ## One token -/

/-- Marking finds the mark of a token if it notices the token, and the token is
marked only after a kind that can be there. -/
def FoundAt (before : Option TokenKind) (t : Token) (after : List Token) : Prop :=
  markedKind (before.map TokenKind.unmarked) t.unmarked (after.map unmarked) =
      (if t.kind.noticedAfter before then t.kind else t.kind.unmarked) ∧
    (t.kind = .lambdaOpen → ∀ k ∈ before, k ∈ exprBefore) ∧
    (t.kind = .constCreation → ∀ k ∈ before, k ∈ operandBefore)

variable {before : Option TokenKind} {t : Token} {after : List Token}

theorem foundAt_of_leaves {p : Place} (hk : p.leaves t.kind = true)
    (hbefore : ∀ kinds ∈ p.before, ∀ b ∈ before, b ∈ kinds) : FoundAt before t after := by
  have hunnoticed {k : TokenKind} (h : (p.before.any fun kinds =>
      kinds.all fun b => !k.noticedAfter (some b.unmarked)) = true) :
      k.noticedAfter (before.map TokenKind.unmarked) = false := by
    cases before with
    | none => cases k <;> rfl
    | some b =>
      obtain ⟨kinds, hkinds, hall⟩ := (Option.any_eq_true _ _).1 h
      simpa using all_eq_true.1 hall b (hbefore kinds hkinds b rfl)
  cases h : t.kind <;> rw [h] at hk
  case openParen =>
    have hno := hunnoticed hk
    simp only [TokenKind.noticedAfter] at hno
    simp [FoundAt, markedKind, unmarked, TokenKind.unmarked, opensLambda, h, hno]
  case constWord =>
    have hno := hunnoticed hk
    simp only [TokenKind.noticedAfter] at hno
    simp [FoundAt, markedKind, unmarked, TokenKind.unmarked, startsCreation, h, hno]
  case lambdaOpen | constCreation => cases hk
  all_goals simp [FoundAt, markedKind, unmarked, TokenKind.unmarked, TokenKind.noticedAfter, h]

theorem foundAt_group (ht : t.kind = .openParen)
    (hafter : (afterClosing 0 (after.map unmarked)).any startsBody = false) :
    FoundAt before t after := by
  simp [FoundAt, markedKind, unmarked, TokenKind.unmarked, opensLambda, ht, hafter]

theorem map_unmarked_of_mem_operandBefore (h : ∀ k ∈ before, k ∈ operandBefore) :
    before.map TokenKind.unmarked = before := by
  have hkinds : ∀ k ∈ operandBefore, k.unmarked = k := by decide
  cases before with
  | none => rfl
  | some k => exact congrArg some (hkinds k (h k rfl))

theorem foundAt_lambda (ht : t.kind = .lambdaOpen) (hbefore : ∀ k ∈ before, k ∈ exprBefore)
    (hafter : (afterClosing 0 (after.map unmarked)).any startsBody = true) :
    FoundAt before t after := by
  have hsame := map_unmarked_of_mem_operandBefore fun k hk =>
    mem_append_right _ (hbefore k hk)
  refine ⟨?_, fun _ => hbefore, by simp [ht]⟩
  simp [markedKind, unmarked, TokenKind.unmarked, TokenKind.noticedAfter, opensLambda, ht, hsame,
    hafter]

theorem foundAt_creation (ht : t.kind ∈ creationKinds) (hbefore : ∀ k ∈ before, k ∈ operandBefore)
    (hafter : startsCreation before (after.map unmarked) =
      TokenKind.constCreation.noticedAfter before) : FoundAt before t after := by
  have hsame := map_unmarked_of_mem_operandBefore hbefore
  rcases mem_pair.1 ht with h | h <;>
    refine ⟨?_, by simp [h], fun _ => hbefore⟩ <;>
    simp [markedKind, unmarked, TokenKind.unmarked, TokenKind.noticedAfter, h, hsame, hafter]

/-! ## One part after the other -/

def Place.Admits (p : Place) (before : Option TokenKind) (rest : List Token) : Prop :=
  (∀ kinds ∈ p.before, ∀ k ∈ before, k ∈ kinds) ∧ (p.bodiless = true → startsBody rest = false)

theorem Tree.nullable_of_yield_eq_nil {d : Tree r} (h : d.yield = []) :
    r.starts.nullable = true := by
  have hadmits := d.admits_yield
  rwa [h] at hadmits

theorem Tree.lastKind_yield (before : Option TokenKind) :
    d.yield = [] ∨ ∀ k ∈ lastKind before d.yield, k ∈ r.last := by
  induction d generalizing before with
  | tok t isKind =>
    refine .inr fun k hk => ?_
    cases hk
    exact isKind
  | @nt s body ih =>
    exact (ih before).imp_right fun h k hk =>
      contains_iff_mem.1 (all_eq_true.1 (last_rule s) k (h k hk))
  | seq x y ihx ihy =>
    simp only [yield, lastKind, foldl_append, append_eq_nil_iff, Rhs.last]
    rcases ihy (lastKind before x.yield) with hy | hy
    · rw [hy, if_pos (nullable_of_yield_eq_nil hy)]
      exact (ihx before).imp (⟨·, rfl⟩) fun h k hk => mem_append_right _ (h k hk)
    · refine .inr fun k hk => ?_
      split
      · exact mem_append_left _ (hy k hk)
      · exact hy k hk
  | inl x ih => exact (ih before).imp_right fun h k hk => mem_append_left _ (h k hk)
  | inr y ih => exact (ih before).imp_right fun h k hk => mem_append_right _ (h k hk)
  | none | nil => exact .inl rfl
  | some x ih => exact ih before
  | cons x xs ihx ihxs =>
    simp only [yield, lastKind, foldl_append, append_eq_nil_iff]
    rcases ihxs (lastKind before x.yield) with hxs | hxs
    · rw [hxs]
      exact (ihx before).imp_left (⟨·, rfl⟩)
    · exact .inr hxs

namespace Place

variable {p : Place} {rest : List Token}

theorem Admits.mono {q : Place} (h : p.Admits before rest) (hle : p.le q = true) :
    q.Admits before rest := by
  simp only [le, Bool.and_eq_true, Bool.or_eq_true, Bool.not_eq_true'] at hle
  refine ⟨fun allowed hallowed k hk => ?_, fun hq => h.2 (hle.2.resolve_left (by simp [hq]))⟩
  have hkinds := (Option.all_eq_true _ _).1 hle.1 allowed hallowed
  cases hp : p.before with
  | none => simp [hp] at hkinds
  | some kinds =>
    rw [hp] at hkinds
    exact contains_iff_mem.1 (all_eq_true.1 hkinds _ (h.1 kinds hp k hk))

theorem Admits.first (h : p.Admits before rest) {b : Rhs} (d : Tree b) :
    (p.first b).Admits before (d.yield ++ rest) := by
  refine ⟨h.1, fun hbodiless => ?_⟩
  simp only [Place.first, Bool.and_eq_true, Bool.or_eq_true, Bool.not_eq_true'] at hbodiless
  obtain ⟨⟨harrow, hbrace⟩, hend⟩ := hbodiless
  have hadmits := d.admits_yield
  cases hyield : d.yield with
  | nil => exact h.2 (hend.resolve_left (by simp [Tree.nullable_of_yield_eq_nil hyield]))
  | cons t ts =>
    rw [hyield] at hadmits
    have hhead := contains_iff_mem.2 hadmits.mem_heads
    have harrow' : t.kind ≠ .arrow := fun hk => by rw [hk, harrow] at hhead; cases hhead
    have hbrace' : t.kind ≠ .openBrace := fun hk => by rw [hk, hbrace] at hhead; cases hhead
    simp [startsBody, harrow', hbrace']

theorem Admits.second (h : p.Admits before rest) {a : Rhs} (d : Tree a) :
    (p.second a).Admits (lastKind before d.yield) rest := by
  refine ⟨fun kinds hkinds k hk => ?_, h.2⟩
  rcases d.lastKind_yield before with hyield | hlast
  · simp only [Place.second, Tree.nullable_of_yield_eq_nil hyield, if_true] at hkinds
    obtain ⟨kinds, hp, rfl⟩ := Option.map_eq_some_iff.1 hkinds
    rw [hyield] at hk
    exact mem_union_right _ (h.1 kinds hp k hk)
  · simp only [Place.second] at hkinds
    split at hkinds
    · obtain ⟨kinds, -, rfl⟩ := Option.map_eq_some_iff.1 hkinds
      exact mem_union_left (hlast k hk) _
    · cases hkinds
      exact hlast k hk

/-- Going round a repetition twice leads nowhere new. -/
theorem second_opt_second_opt (p : Place) (a : Rhs) :
    (p.second (.opt a)).second (.opt a) = p.second (.opt a) := by
  have hnull : (Rhs.opt a).starts.nullable = true := rfl
  have hunion (kinds : List TokenKind) :
      (Rhs.opt a).last ∪ ((Rhs.opt a).last ∪ kinds) = (Rhs.opt a).last ∪ kinds :=
    List.Subset.union_eq_right fun _ hmem => mem_union_left hmem _
  simp only [Place.second, hnull, if_true, Option.map_map, Function.comp_def, hunion]

end Place

def FoundIn (rest : List Token) : Option TokenKind → List Token → Prop
  | _, [] => True
  | before, t :: ts => FoundAt before t (ts ++ rest) ∧ FoundIn rest (some t.kind) ts

theorem FoundIn.append {rest w' : List Token} (h : FoundIn (w' ++ rest) before w)
    (h' : FoundIn rest (lastKind before w) w') : FoundIn rest before (w ++ w') := by
  induction w generalizing before with
  | nil => exact h'
  | cons t ts ih =>
    refine ⟨?_, ih h.2 h'⟩
    change FoundAt before t ((ts ++ w') ++ rest)
    rw [append_assoc]
    exact h.1

theorem startsBody_map_unmarked (ts : List Token) :
    startsBody (ts.map unmarked) = startsBody ts := by
  cases ts with
  | nil => rfl
  | cons t ts => cases h : t.kind <;> simp [startsBody, unmarked, TokenKind.unmarked, h]

section Rest

variable {rest : List Token}

theorem any_startsBody_lambdaRest (d : Tree lambdaRest) :
    (afterClosing 0 ((d.yield ++ rest).map unmarked)).any startsBody = true := by
  obtain _ | _ | ⟨params, _ | _ | ⟨⟨t, isKind⟩, body⟩⟩ := d
  have hclose : t.kind = .closeParen := mem_singleton.1 isKind
  have hyield : (Tree.seq params (.seq (.tok t isKind) body)).yield ++ rest =
      params.yield ++ t :: (body.yield ++ rest) := by
    simp [Tree.yield]
  rw [hyield, afterClosing_of_turns (params.turns_yield (by decide)) hclose, Option.any_some,
    startsBody_map_unmarked]
  have hadmits := body.admits_yield
  cases hbody : body.yield with
  | nil => exact absurd (Tree.nullable_of_yield_eq_nil hbody) (by decide)
  | cons u us =>
    rw [hbody] at hadmits
    have hheads : ∀ k ∈ [TokenKind.openBrace, TokenKind.arrow],
        k = .arrow ∨ k = .openBrace := by decide
    simpa [startsBody] using hheads _ hadmits.mem_heads

theorem any_startsBody_groupRest (d : Tree groupRest) (hrest : startsBody rest = false) :
    (afterClosing 0 ((d.yield ++ rest).map unmarked)).any startsBody = false := by
  obtain _ | _ | ⟨e, ⟨t, isKind⟩⟩ := d
  have hclose : t.kind = .closeParen := mem_singleton.1 isKind
  have hyield : (Tree.seq e (.tok t isKind)).yield ++ rest = e.yield ++ t :: rest := by
    simp [Tree.yield]
  rw [hyield, afterClosing_of_turns (e.turns_yield (by decide)) hclose, Option.any_some,
    startsBody_map_unmarked, hrest]

theorem startsCreation_creationRest (d : Tree creationRest) :
    startsCreation before ((d.yield ++ rest).map unmarked) =
      TokenKind.constCreation.noticedAfter before := by
  obtain _ | _ | ⟨⟨t, isName⟩, _ | _ | ⟨member, _ | ⟨_ | _ | ⟨⟨u, isOpen⟩, more⟩⟩⟩⟩ := d
  have hname : t.kind = .name := mem_singleton.1 isName
  have hopen : u.kind = .openParen := mem_singleton.1 isOpen
  cases member with
  | none =>
    simp [startsCreation, TokenKind.noticedAfter, Tree.yield, unmarked, TokenKind.unmarked, hname,
      hopen]
  | some member =>
    obtain _ | _ | ⟨⟨v, isDot⟩, ⟨v', isName'⟩⟩ := member
    have hdot : v.kind = .dot := mem_singleton.1 isDot
    have hname' : v'.kind = .name := mem_singleton.1 isName'
    simp [startsCreation, TokenKind.noticedAfter, Tree.yield, unmarked, TokenKind.unmarked, hname,
      hopen, hdot, hname']

end Rest

/-- Marking finds the marks of what a right-hand side derives in its place. -/
theorem Tree.foundIn_yield {p : Place} (hplaces : r.places p = true) {rest : List Token}
    (h : p.Admits before rest) : FoundIn rest before d.yield := by
  induction d generalizing p before rest with
  | tok t isKind =>
    exact ⟨foundAt_of_leaves (all_eq_true.1 hplaces _ isKind) h.1, trivial⟩
  | @nt s body ih => exact ih (places_rule s) (h.mono hplaces)
  | seq x y ihx ihy =>
    simp only [Rhs.places, Bool.and_eq_true, Bool.or_eq_true, decide_eq_true_eq] at hplaces
    obtain ⟨hfirst, hsecond⟩ := hplaces
    refine FoundIn.append ?_ (ihy hsecond (h.second x))
    rcases hfirst with ((hfirst | ⟨⟨rfl, rfl⟩, hle⟩) | ⟨⟨rfl, rfl⟩, hbodiless⟩) | ⟨⟨rfl, rfl⟩, hle⟩
    · exact ihx hfirst (h.first y)
    · obtain ⟨t, isKind⟩ := x
      exact ⟨foundAt_lambda (mem_singleton.1 isKind) ((h.mono hle).1 _ rfl)
        (any_startsBody_lambdaRest y), trivial⟩
    · obtain ⟨t, isKind⟩ := x
      exact ⟨foundAt_group (mem_singleton.1 isKind)
        (any_startsBody_groupRest y (h.2 hbodiless)), trivial⟩
    · obtain ⟨t, isKind⟩ := x
      exact ⟨foundAt_creation isKind ((h.mono hle).1 _ rfl) (startsCreation_creationRest y),
        trivial⟩
  | inl x ih => exact ih (Bool.and_eq_true_iff.1 hplaces).1 h
  | inr y ih => exact ih (Bool.and_eq_true_iff.1 hplaces).2 h
  | none | nil => trivial
  | some x ih => exact ih hplaces h
  | @cons a x xs ihx ihxs =>
    -- After the first word the rest of the repetition stands where the whole
    -- did or after such a word.
    have hwiden : (p.second (.opt a)).Admits before rest := by
      simpa [yield, lastKind] using h.second (Tree.none (a := a))
    refine FoundIn.append (ihx hplaces (hwiden.first xs)) (ihxs ?_ (h.second (.some x)))
    rw [Rhs.places, Place.second_opt_second_opt]
    exact hplaces

/-! ## Whole programs -/

theorem FoundIn.foundAt (h : FoundIn [] before (w ++ t :: after)) :
    FoundAt (lastKind before w) t after := by
  induction w generalizing before with
  | nil => exact append_nil after ▸ h.1
  | cons u w ih => exact ih h.2

theorem FoundIn.getElem?_markAfter (h : FoundIn [] before w) (i : Nat) :
    (markAfter (before.map TokenKind.unmarked) (w.map unmarked))[i]? = w[i]?.map fun t =>
      if t.kind.noticedAfter (lastKind before (w.take i)) then t else t.unmarked := by
  induction w generalizing before i with
  | nil => rfl
  | cons t w ih =>
    cases i with
    | zero =>
      have hkind := h.1.1
      rw [append_nil] at hkind
      simp only [map_cons, markAfter, hkind, getElem?_cons_zero, Option.map_some,
        take_zero, lastKind, foldl_nil]
      by_cases hnoticed : t.kind.noticedAfter before = true <;> simp [hnoticed, unmarked]
    | succ i => exact ih h.2 i

theorem unmarked_eq_self (ht : t.kind ≠ .lambdaOpen ∧ t.kind ≠ .constCreation) :
    t.unmarked = t := by
  have hkind : t.kind.unmarked = t.kind := by
    cases h : t.kind <;> first | rfl | simp [h] at ht
  rw [unmarked, hkind]

theorem foundIn_unit (d : Derivation .unit) : FoundIn [] none d.yield :=
  d.foundIn_yield (p := place .unit) (by decide) ⟨by simp, fun _ => rfl⟩

theorem getElem?_mark_yield (d : Derivation .unit) (i : Nat) :
    (mark (d.yield.map unmarked))[i]? = d.yield[i]?.map fun t =>
      if t.kind.noticedAfter (lastKind none (d.yield.take i)) then t else t.unmarked :=
  (foundIn_unit d).getElem?_markAfter i

/-- With the marks of a program taken off, a token is marked only if it was and
as it was; a program without function literals and constant instance creations
stays as it is. -/
theorem marks_only_what_was_marked (d : Derivation .unit) :
    (∀ (i : Nat) (t : Token), (mark (d.yield.map unmarked))[i]? = some t →
      (d.yield.map unmarked)[i]? ≠ some t → d.yield[i]? = some t) ∧
    ((∀ t ∈ d.yield, t.kind ≠ .lambdaOpen ∧ t.kind ≠ .constCreation) → mark d.yield = d.yield) := by
  refine ⟨fun i t hmarked hne => ?_, fun hplain => ?_⟩
  · rw [getElem?_mark_yield] at hmarked
    obtain ⟨u, hu, rfl⟩ := Option.map_eq_some_iff.1 hmarked
    split at hne
    · rwa [if_pos ‹_›]
    · exact absurd (by rw [getElem?_map, hu, Option.map_some]) hne
  · have hsame : ∀ t ∈ d.yield, t.unmarked = t := fun t ht => unmarked_eq_self (hplain t ht)
    have hmap : d.yield.map unmarked = d.yield :=
      (map_congr_left hsame).trans d.yield.map_id
    refine ext_getElem? fun i => ?_
    have hmark := getElem?_mark_yield d i
    rw [hmap] at hmark
    cases hi : d.yield[i]? with
    | none => simpa [hi] using hmark
    | some t => simpa [hi, hsame t (mem_of_getElem? hi)] using hmark

theorem noticedAfter_some_iff {k : TokenKind} (hk : k = .lambdaOpen ∨ k = .constCreation)
    (b : TokenKind) : k.noticedAfter (some b) = true ↔
      b.precedesExpression = true ∨ k = .constCreation ∧ b = .throwWord := by
  rcases hk with rfl | rfl <;> simp [TokenKind.noticedAfter]

theorem mem_exprBefore_cases {k : TokenKind} (hk : k ∈ exprBefore) :
    k.precedesExpression = true ∨ k = .throwWord ∨ k ∈ statementBefore := by
  revert k
  decide

/-- What the token before a marked one can be. -/
theorem FoundAt.cases_before {b : TokenKind} (h : FoundAt (some b) t after)
    (ht : t.kind = .lambdaOpen ∨ t.kind = .constCreation) :
    b.precedesExpression = true ∨ b = .throwWord ∨ b ∈ statementBefore ∨
      t.kind = .constCreation ∧ b ∈ unaryKinds ++ binaryKinds := by
  rcases ht with hlambda | hcreation
  · exact (mem_exprBefore_cases (h.2.1 hlambda b rfl)).imp_right (Or.imp_right Or.inl)
  · rcases mem_append.1 (h.2.2 hcreation b rfl) with hoperator | hb
    · exact .inr (.inr (.inr ⟨hcreation, hoperator⟩))
    · exact (mem_exprBefore_cases hb).imp_right (Or.imp_right Or.inl)

/-- A function literal and a constant instance creation stand after a token that
precedes an expression, after `throw` or at the start of a statement, a creation
also after an operator.  With the marks of a program taken off, marking finds
those after a token that can only precede an expression and the creations after
`throw`, and none at the start of a statement. -/
theorem marks_found_by_token_before (d : Derivation .unit) {before after : List Token}
    {t : Token} (h : d.yield = before ++ t :: after)
    (ht : t.kind = .lambdaOpen ∨ t.kind = .constCreation) :
    ∃ p ∈ before.getLast?,
      (p.kind.precedesExpression = true ∨ p.kind = .throwWord ∨ p.kind ∈ statementBefore ∨
        t.kind = .constCreation ∧ p.kind ∈ unaryKinds ++ binaryKinds) ∧
      (p.kind.precedesExpression = true ∨ t.kind = .constCreation ∧ p.kind = .throwWord →
        (mark (d.yield.map unmarked))[before.length]? = some t) ∧
      (p.kind ∈ statementBefore →
        (mark (d.yield.map unmarked))[before.length]? = some t.unmarked) := by
  have hat : FoundAt (lastKind none before) t after := (h ▸ foundIn_unit d).foundAt
  have hmark := getElem?_mark_yield d before.length
  rw [show d.yield[before.length]? = some t by simp [h],
    show d.yield.take before.length = before by simp [h]] at hmark
  rcases eq_nil_or_concat before with rfl | ⟨init, p, rfl⟩
  · -- No program starts with a marked token.
    have hadmits := d.admits_yield
    rw [h] at hadmits
    have hunit : ∀ k ∈ (starts .unit).heads, k ≠ .lambdaOpen ∧ k ≠ .constCreation := by decide
    exact absurd ht (not_or.2 (hunit _ hadmits.mem_heads))
  · have hlast : lastKind none (init.concat p) = some p.kind := by simp [lastKind]
    rw [hlast] at hat hmark
    refine ⟨p, by simp, hat.cases_before ht, fun hnoticed => ?_, fun hstart => ?_⟩
    · rw [hmark, Option.map_some, if_pos ((noticedAfter_some_iff ht p.kind).2 hnoticed)]
    · have hstarts : ∀ k ∈ statementBefore,
          k.precedesExpression = false ∧ k ≠ .throwWord := by decide
      obtain ⟨hprecedes, hthrow⟩ := hstarts _ hstart
      rw [hmark, Option.map_some, if_neg]
      simp [noticedAfter_some_iff ht, hprecedes, hthrow]

/-! ## Function literals as values and as statements -/

section Examples

def word (kind : TokenKind) : Parts Derivation (.word kind) :=
  ⟨⟨kind, "", ⟨.start, .start⟩⟩, mem_singleton_self kind⟩

def emptyLiteral : Derivation .expr :=
  .node .expr (.inl (.node .lambda (word .lambdaOpen, none, word .closeParen,
    .inl (.node .block (word .openBrace, [], word .closeBrace)))))

def functionWith (body : Parts Derivation (rule .fnBody)) : Derivation .unit :=
  .node .unit ([], [.node .topDecl (.inr (.inl (.node .functionDecl (none, none, none, word .name,
    .node .params (word .openParen, none, word .closeParen), .node .fnBody body))))])

def literalAsValue : Derivation .unit :=
  functionWith (.inr (.inl (word .arrow, emptyLiteral, word .semicolon)))

def literalAsStatement : Derivation .unit :=
  functionWith (.inl (.node .block (word .openBrace,
    [.node .statement (.inr (.inl (.node .exprStmt (emptyLiteral, word .semicolon))))],
    word .closeBrace)))

theorem literal_as_value_marked_again :
    (mark (literalAsValue.yield.map unmarked))[4]? = some (word .lambdaOpen).1 ∧
      (literalAsValue.yield.map unmarked)[4]? = some (word .openParen).1 ∧
      literalAsValue.yield[4]? = some (word .lambdaOpen).1 :=
  ⟨rfl, rfl, (marks_only_what_was_marked literalAsValue).1 4 _ rfl (by decide)⟩

theorem literal_as_value_found :
    literalAsValue.yield =
        literalAsValue.yield.take 4 ++ (word .lambdaOpen).1 :: literalAsValue.yield.drop 5 ∧
      (mark (literalAsValue.yield.map unmarked))[4]? = some (word .lambdaOpen).1 := by
  have hsplit : literalAsValue.yield =
      literalAsValue.yield.take 4 ++ (word .lambdaOpen).1 :: literalAsValue.yield.drop 5 := rfl
  obtain ⟨p, hp, -, hfound, -⟩ := marks_found_by_token_before literalAsValue hsplit (.inl rfl)
  cases hp
  exact ⟨hsplit, hfound (.inl rfl)⟩

/-- A function literal at the start of a statement is not marked again. -/
theorem literal_as_statement_not_found :
    literalAsStatement.yield[4]? = some (word .lambdaOpen).1 ∧
      (mark (literalAsStatement.yield.map unmarked))[4]? = some (word .openParen).1 :=
  ⟨rfl, rfl⟩

end Examples

end Grammar

end CheckedThrows
