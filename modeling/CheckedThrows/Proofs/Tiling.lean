import CheckedThrows.Proofs.Extents
import CheckedThrows.Proofs.Terminals
import Mathlib.Data.List.Induction

/-!
# Lexemes tile their text

Nothing of a text is lost when it is cut into lexemes.  Each lexeme begins where
the one before it ends, and has the characters that stand there; together they
cover the whole text, or all of it before the place where no lexeme fits.
-/

namespace CheckedThrows

open List

variable (before : List Char) {source : List Char} {s : Source} {l : Lexeme} (cs : List Char)
  {c : Char}

namespace Position

/-- The position of a character of a text, or of its end.  A line feed ends a
line, and nothing else does. -/
def ofOffset (source : List Char) (offset : Nat) : Position where
  line := (source.take offset).count '\n' + 1
  column := ((source.take offset).reverse.takeWhile (· ≠ '\n')).length + 1
  offset := offset

theorem next_ofOffset (c : Char) (after : List Char) :
    (ofOffset (before ++ c :: after) before.length).next c =
      ofOffset (before ++ c :: after) (before.length + 1) := by
  have htake : (before ++ c :: after).take (before.length + 1) = before ++ [c] := by
    simp [take_append]
  by_cases hc : c = '\n'
  · subst hc
    simp [next, ofOffset, htake]
  · simp [next, ofOffset, htake, hc]

theorem advance_ofOffset (after : List Char) :
    (ofOffset (before ++ cs ++ after) before.length).advance cs =
      ofOffset (before ++ cs ++ after) (before.length + cs.length) := by
  induction cs generalizing before with
  | nil => rfl
  | cons c cs ih =>
    have hrest := ih (before ++ [c])
    have hsource : before ++ [c] ++ cs ++ after = before ++ c :: (cs ++ after) := by simp
    rw [hsource, length_append, length_singleton] at hrest
    have hwhole : before ++ c :: cs ++ after = before ++ c :: (cs ++ after) := by simp
    rw [hwhole, length_cons, Nat.add_comm cs.length, ← Nat.add_assoc, ← hrest, ← next_ofOffset]
    rfl

end Position

namespace Lexeme

structure IsPieceOf (source : List Char) (l : Lexeme) : Prop where
  nonempty : l.start.offset < l.stop.offset
  bound : l.stop.offset ≤ source.length
  start_eq : l.start = .ofOffset source l.start.offset
  stop_eq : l.stop = .ofOffset source l.stop.offset
  text_eq : l.text = source.extract l.start.offset l.stop.offset
  spells : Spells l.kind l.text
  stops : StopsBefore l.kind (source.drop l.stop.offset)

/-- A run of blanks is not the rest of a longer one.  A line comment has all
that stands on its line, so only the line feed after it is a blank. -/
def Separate (l m : Lexeme) : Prop :=
  m.kind = .blanks → l.kind = .lineComment ∨ ∀ c ∈ l.text.getLast?, isSpace c = false

theorem isPieceOf_of_spells {text after : List Char} {kind : LexemeKind}
    (hspells : Spells kind text) (hstops : StopsBefore kind after) :
    IsPieceOf (before ++ text ++ after)
      ⟨kind, text, .ofOffset (before ++ text ++ after) before.length⟩ := by
  have hstop : stop ⟨kind, text, .ofOffset (before ++ text ++ after) before.length⟩ =
      .ofOffset (before ++ text ++ after) (before.length + text.length) :=
    Position.advance_ofOffset before text after
  have hpositive := length_pos_of_ne_nil hspells.ne_nil
  constructor
  · rw [hstop]
    exact Nat.lt_add_of_pos_right hpositive
  · rw [hstop]
    simp [Position.ofOffset]
  · rfl
  · rw [hstop]
    rfl
  · rw [hstop]
    simp [Position.ofOffset, extract_eq_take_drop]
  · exact hspells
  · rw [hstop]
    simpa [Position.ofOffset] using hstops

theorem IsPieceOf.head?_text (hl : l.IsPieceOf source) :
    l.text.head? = (source.drop l.start.offset).head? := by
  have hpositive := hl.nonempty
  rw [hl.text_eq, extract_eq_take_drop, head?_take, if_neg (by omega)]

theorem IsPieceOf.separate {m : Lexeme} (hl : l.IsPieceOf source) (hm : m.IsPieceOf source)
    (hnext : m.start.offset = l.stop.offset) : Separate l m := by
  intro hblanks
  by_cases hcomment : l.kind = .lineComment
  · exact .inl hcomment
  · right
    apply hl.spells.not_isSpace_of_mem_getLast? _ hcomment
    intro hrun
    -- The run of blanks before it would have gone on.
    have hspells := hm.spells
    have hstops := hl.stops
    rw [hblanks] at hspells
    rw [hrun, ← hnext] at hstops
    cases htext : m.text with
    | nil => exact hm.spells.ne_nil htext
    | cons c cs =>
      have hhead := hm.head?_text
      rw [htext, head?_cons] at hhead
      have hother := hstops c hhead.symm
      rw [htext] at hspells
      cases hspells with
      | blanks _ hspace => exact Bool.noConfusion (hother.symm.trans (hspace c mem_cons_self))

end Lexeme

/-- Lexemes that cover a text from one offset to another: each begins where the
one before it ends. -/
structure Tiles (source : List Char) (start stop : Nat) (ls : List Lexeme) : Prop where
  consecutive : ls.map (·.start.offset) ++ [stop] = start :: ls.map (·.stop.offset)
  pieces : ∀ l ∈ ls, l.IsPieceOf source
  separate : ls.IsChain Lexeme.Separate

theorem tiles_nil (source : List Char) (offset : Nat) : Tiles source offset offset [] :=
  ⟨rfl, by simp, .nil⟩

theorem Tiles.cons {source : List Char} {l : Lexeme} {stop : Nat} {ls : List Lexeme}
    (hl : l.IsPieceOf source) (hls : Tiles source l.stop.offset stop ls) :
    Tiles source l.start.offset stop (l :: ls) where
  consecutive := congrArg (l.start.offset :: ·) hls.consecutive
  pieces := forall_mem_cons.mpr ⟨hl, hls.pieces⟩
  separate := by
    cases ls with
    | nil => exact .singleton l
    | cons m ls =>
      have hnext := (List.cons.inj hls.consecutive).1
      exact .cons_cons (hl.separate (hls.pieces m mem_cons_self) hnext) hls.separate

namespace Scan

def stopOffset (source : List Char) (s : Scan) : Nat :=
  s.stuck.elim source.length (·.1.offset)

structure IsStuckAt (source : List Char) (place : Position) (c : Char) : Prop where
  place_eq : place = .ofOffset source place.offset
  char_eq : source[place.offset]? = some c
  no_lexeme : ∀ kind text, Lexeme.Spells kind text → ¬text <+: source.drop place.offset

theorem isStuckAt_of_munch? {cs : List Char} (hnone : Lexeme.munch? c cs = none) :
    IsStuckAt (before ++ c :: cs) (.ofOffset (before ++ c :: cs) before.length) c where
  place_eq := rfl
  char_eq := by simp [Position.ofOffset]
  no_lexeme := by
    intro kind text hspells
    have hdrop : (before ++ c :: cs).drop before.length = c :: cs := by simp
    change ¬text <+: (before ++ c :: cs).drop before.length
    rw [hdrop]
    exact Lexeme.not_prefix_of_munch?_eq_none hnone hspells

theorem startingAt_of_munch?_eq_none {p : Position} {cs : List Char}
    (hnone : Lexeme.munch? c cs = none) : startingAt p (c :: cs) = ⟨[], some (p, c)⟩ := by
  rw [startingAt]
  split
  next => rfl
  next hsome => simp [hnone] at hsome

theorem tiles_startingAt :
    let scan := startingAt (.ofOffset (before ++ cs) before.length) cs
    Tiles (before ++ cs) before.length (scan.stopOffset (before ++ cs)) scan.lexemes ∧
      ∀ stuck ∈ scan.stuck, IsStuckAt (before ++ cs) stuck.1 stuck.2 := by
  -- The texts of the lexemes move from what is left to what is before.
  induction hlength : cs.length using Nat.strongRecOn generalizing before cs with
  | ind n ih =>
    cases cs with
    | nil =>
      rw [startingAt, append_nil]
      exact ⟨tiles_nil before before.length, by simp⟩
    | cons c cs =>
      cases hmunch : Lexeme.munch? c cs with
      | none =>
        rw [startingAt_of_munch?_eq_none hmunch]
        refine ⟨tiles_nil _ _, fun stuck hstuck => ?_⟩
        cases hstuck
        exact isStuckAt_of_munch? before hmunch
      | some lexeme =>
        obtain ⟨kind, cut⟩ := lexeme
        have hcs : cut.taken ++ cut.rest = cs := Lexeme.munch?_append hmunch
        have hsource : before ++ c :: cs = before ++ c :: cut.taken ++ cut.rest := by
          simp [hcs]
        have hshorter : cut.rest.length < n := by
          rw [← hlength, length_cons, ← hcs, length_append]
          omega
        have hspells := Lexeme.spells_munch? hmunch
        have hpiece := Lexeme.isPieceOf_of_spells before hspells.1 hspells.2
        have hstop := Position.advance_ofOffset before (c :: cut.taken) cut.rest
        rw [← length_append] at hstop
        rw [startingAt_cons hmunch, hsource, hstop]
        obtain ⟨htiles, hstuck⟩ := ih _ hshorter (before ++ c :: cut.taken) cut.rest rfl
        refine ⟨Tiles.cons hpiece ?_, hstuck⟩
        rw [Lexeme.stop, hstop]
        exact htiles

theorem tiles_of (source : List Char) :
    Tiles source 0 ((of source).stopOffset source) (of source).lexemes ∧
      ∀ stuck ∈ (of source).stuck, IsStuckAt source stuck.1 stuck.2 :=
  tiles_startingAt [] source

end Scan

/-! ## Marked tokens -/

namespace Token

/-- A token with another kind at most: a parenthesis may open a function literal
and a `const` may start an instance creation. -/
structure Retyped (t t' : Token) : Prop where
  text_eq : t'.text = t.text
  extent_eq : t'.extent = t.extent
  kind_eq : t'.kind = t.kind ∨ t.kind = .openParen ∧ t'.kind = .lambdaOpen ∨
    t.kind = .constWord ∧ t'.kind = .constCreation

theorem markedKind_cases (before : Option TokenKind) (t : Token) (after : List Token) :
    markedKind before t after = t.kind ∨
      t.kind = .openParen ∧ markedKind before t after = .lambdaOpen ∨
      t.kind = .constWord ∧ markedKind before t after = .constCreation := by
  unfold markedKind
  split
  next hkind =>
    split
    · exact .inr (.inl ⟨hkind, rfl⟩)
    · exact .inl hkind.symm
  next hkind =>
    split
    · exact .inr (.inr ⟨hkind, rfl⟩)
    · exact .inl hkind.symm
  next => exact .inl rfl

theorem retyped_mark (ts : List Token) : List.Forall₂ Retyped ts (mark ts) := by
  have hafter : ∀ before, List.Forall₂ Retyped ts (markAfter before ts) := by
    induction ts with
    | nil => exact fun _ => .nil
    | cons t ts ih =>
      exact fun before => .cons ⟨rfl, rfl, markedKind_cases before t ts⟩ (ih _)
  exact hafter none

end Token

/-! ## Comments -/

structure Comment.Describes (source : List Char) (l : Lexeme) (c : Comment) : Prop where
  text_eq : c.text = String.ofList l.text
  extent_eq : c.extent = l.extent
  ownLine_iff : c.ownLine = true ↔ ∀ i < l.start.offset,
    '\n' ∉ source.extract i l.start.offset → ∀ x ∈ source[i]?, isBlank x = true

theorem all_takeWhile_reverse_iff {p q : Char → Bool} :
    (cs.reverse.takeWhile p).all q = true ↔
      ∀ i < cs.length, (∀ x ∈ cs.drop i, p x = true) → ∀ x ∈ cs[i]?, q x = true := by
  induction cs using List.reverseRecOn with
  | nil => simp
  | append_singleton cs c ih =>
    rw [reverse_append, reverse_singleton, singleton_append,
      takeWhile_cons, length_append, length_singleton]
    by_cases hc : p c = true
    · rw [if_pos hc, all_cons, Bool.and_eq_true, ih]
      constructor
      · rintro ⟨hq, hbefore⟩ i hi hp x hx
        rcases Nat.lt_succ_iff_lt_or_eq.mp hi with hlt | rfl
        · rw [getElem?_append_left hlt] at hx
          refine hbefore i hlt (fun y hy => hp y ?_) x hx
          rw [drop_append_of_le_length hlt.le]
          exact mem_append_left _ hy
        · rw [getElem?_concat_length] at hx
          cases hx
          exact hq
      · intro hall
        constructor
        · exact hall cs.length (Nat.lt_succ_self _) (by simpa using hc) c (by simp)
        · intro i hi hp x hx
          refine hall i (Nat.lt_succ_of_lt hi) (fun y hy => ?_) x ?_
          · rw [drop_append_of_le_length hi.le, mem_append, mem_singleton] at hy
            rcases hy with hy | rfl
            · exact hp y hy
            · exact hc
          · rwa [getElem?_append_left hi]
    · rw [if_neg hc]
      refine iff_of_true rfl fun i hi hp => absurd (hp c ?_) hc
      rw [drop_append_of_le_length (Nat.lt_succ_iff.mp hi)]
      exact mem_append_right _ (mem_singleton_self c)

theorem Lexeme.describes_comment? (hl : l.IsPieceOf source) {c : Comment}
    (hc : l.comment? source = some c) : c.Describes source l := by
  unfold comment? at hc
  split at hc
  · cases hc
    refine ⟨rfl, rfl, ?_⟩
    have hinside : l.start.offset ≤ source.length := hl.nonempty.le.trans hl.bound
    rw [linePrefix, all_reverse, all_takeWhile_reverse_iff, length_take,
      Nat.min_eq_left hinside]
    refine forall₂_congr fun i hi => ?_
    rw [getElem?_take_of_lt hi, drop_take, extract_eq_take_drop]
    refine imp_congr_left ⟨fun hline hmem => ?_, fun hline x hx => ?_⟩
    · simpa using hline _ hmem
    · exact decide_eq_true fun heq => hline (heq ▸ hx)
  · cases hc

theorem Scan.describes_comments {ls : List Lexeme} (hls : ∀ l ∈ ls, l.IsPieceOf source) :
    List.Forall₂ (Comment.Describes source) (ls.filter (·.kind = .lineComment))
      (ls.filterMap (Lexeme.comment? source)) := by
  induction ls with
  | nil => exact .nil
  | cons l ls ih =>
    obtain ⟨hl, hls⟩ := forall_mem_cons.mp hls
    have hrest := ih hls
    by_cases hkind : l.kind = .lineComment
    · obtain ⟨c, hc⟩ : ∃ c, l.comment? source = some c := by simp [Lexeme.comment?, hkind]
      rw [filter_cons_of_pos (by simpa using hkind), filterMap_cons_some hc]
      exact .cons (Lexeme.describes_comment? hl hc) hrest
    · have hnone : l.comment? source = none := by
        unfold Lexeme.comment?
        split
        next hcomment => exact absurd hcomment hkind
        next => rfl
      rw [filter_cons_of_neg (by simpa using hkind), filterMap_cons_none hnone]
      exact hrest

/-! ## Source texts -/

namespace Source

theorem tokens_of_stuck {place : Position} (hstuck : (Scan.of s.chars).stuck = some (place, c)) :
    s.tokens = .error (.noLexeme c place) := by
  simp [tokens, hstuck]

theorem tokens_of_not_stuck (hstuck : (Scan.of s.chars).stuck = none) :
    s.tokens = .ok (Token.mark (Scan.of s.chars).tokens) := by
  simp [tokens, hstuck]

theorem comments_of_parseFrom {next after : NodeId} {u : CompilationUnit}
    (hparse : s.parseFrom next = .ok (.ok u, after)) : u.comments = s.comments := by
  obtain ⟨t, ht, hnumber⟩ := parseFrom_eq_ok_iff.mp hparse
  obtain ⟨d, -, rfl, -⟩ := exists_derivation_of_parse ht
  exact (congrArg (·.1.comments) hnumber).symm

/-- The lexemes tile the text up to its end or to where no lexeme starts.  Each token
has the text of its extent, each line comment becomes a comment of the tree, and
marking changes nothing but the types of tokens. -/
theorem lexing_lossless (s : Source) :
    let lexemes := (Scan.of s.chars).lexemes
    let emitted := lexemes.filterMap Lexeme.token?
    ((∃ place c, s.tokens = .error (.noLexeme c place) ∧ Scan.IsStuckAt s.chars place c ∧
        Tiles s.chars 0 place.offset lexemes) ∨
      s.tokens = .ok (Token.mark emitted) ∧ Tiles s.chars 0 s.chars.length lexemes) ∧
    (∀ t ∈ emitted, t.text.toList = s.chars.extract t.extent.start.offset t.extent.stop.offset) ∧
    (∀ next u after, s.parseFrom next = .ok (.ok u, after) →
      List.Forall₂ (Comment.Describes s.chars) (lexemes.filter (·.kind = .lineComment))
        u.comments) ∧
    ∀ ts, List.Forall₂ Token.Retyped ts (Token.mark ts) := by
  intro lexemes emitted
  obtain ⟨htiles, hstuck⟩ := Scan.tiles_of s.chars
  refine ⟨?_, ?_, ?_, Token.retyped_mark⟩
  · cases hend : (Scan.of s.chars).stuck with
    | none =>
      rw [Scan.stopOffset, hend] at htiles
      exact .inr ⟨tokens_of_not_stuck hend, htiles⟩
    | some stuck =>
      rw [Scan.stopOffset, hend] at htiles
      exact .inl ⟨stuck.1, stuck.2, tokens_of_stuck hend, hstuck stuck hend, htiles⟩
  · intro t ht
    obtain ⟨l, hl, htoken⟩ := mem_filterMap.mp ht
    unfold Lexeme.token? at htoken
    split at htoken
    · cases htoken
      rw [String.toList_ofList]
      exact (htiles.pieces l hl).text_eq
    · cases htoken
  · intro next u after hparse
    rw [comments_of_parseFrom hparse]
    exact Scan.describes_comments htiles.pieces

end Source

namespace CommentedFunction

def text : Source := ⟨"lib/a.dart", "// a\nf() {} // b\n"⟩

def comments : List Lexeme :=
  [⟨.lineComment, "// a".toList, ⟨1, 1, 0⟩⟩, ⟨.lineComment, "// b".toList, ⟨2, 8, 12⟩⟩]

theorem both_comments_kept :
    ∃ u after, text.parseFrom 0 = .ok (.ok u, after) ∧
      List.Forall₂ (Comment.Describes text.chars) comments u.comments := by
  have hlexemes : (Scan.of text.chars).lexemes.filter (·.kind = .lineComment) = comments := by
    decide +kernel
  have hparsed : (match text.parseFrom 0 with | .ok (.ok _, _) => true | _ => false) = true := by
    decide +kernel
  split at hparsed
  next u after hparse =>
    have hcomments := (Source.lexing_lossless text).2.2.1 0 u after hparse
    rw [hlexemes] at hcomments
    exact ⟨u, after, hparse, hcomments⟩
  next => cases hparsed

end CommentedFunction

end CheckedThrows
