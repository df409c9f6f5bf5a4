import CheckedThrows.Proofs.Tiling

/-!
# Scanning a text with something put at the end of a line

A lexeme that ends before a blank does not depend on what follows that blank,
and only runs of blanks and comments go over the end of a line.  So a text can
get a comment at the end of a line that has none, and is cut into the same
lexemes otherwise, runs of blanks apart.
-/

namespace CheckedThrows

open List

variable {p : Char → Bool} {first : Char} {blanks b : List Char}

namespace Lexeme

variable {b : List Char} {c : Char} {a : List Char}
variable {mark : Char} {cut : Cut}

def Divides (b : List Char) : Prop :=
  ∀ c ∈ b.head?, isSpace c = true

def Cut.extend (cut : Cut) (b : List Char) : Cut :=
  ⟨cut.taken, cut.rest ++ b⟩

theorem Cut.extend_cons (c : Char) (cut : Cut) (b : List Char) :
    (cut.cons c).extend b = (cut.extend b).cons c := rfl

theorem isSpace_cases (hc : isSpace c = true) :
    c = ' ' ∨ c = '\t' ∨ c = '\x0c' ∨ c = '\r' ∨ c = '\n' := by
  simpa [isSpace, or_assoc] using hc

theorem isDigit_of_isSpace (hc : isSpace c = true) : isDigit c = false := by
  rcases isSpace_cases hc with rfl | rfl | rfl | rfl | rfl <;> rfl

theorem isHexDigit_of_isSpace (hc : isSpace c = true) : isHexDigit c = false := by
  rcases isSpace_cases hc with rfl | rfl | rfl | rfl | rfl <;> rfl

theorem isNamePart_of_isSpace (hc : isSpace c = true) : isNamePart c = false := by
  rcases isSpace_cases hc with rfl | rfl | rfl | rfl | rfl <;> rfl

section Blank

variable {b : List Char} (hb : Divides b)

include hb

theorem Cut.whileTrue_divided (hp : ∀ c, isSpace c = true → p c = false)
    (a : List Char) : Cut.whileTrue p (a ++ b) = (Cut.whileTrue p a).extend b := by
  induction a with
  | nil =>
    cases b with
    | nil => rfl
    | cons c b =>
      have hc := hp c (hb c rfl)
      simp [Cut.whileTrue, Cut.extend, hc]
  | cons c a ih =>
    by_cases hc : p c = true
    · simp only [Cut.whileTrue, Cut.extend, Cut.mk.injEq] at ih
      simp [Cut.whileTrue, Cut.extend, hc, ih]
    · simp [Cut.whileTrue, Cut.extend, hc]

theorem exponent_divided (a : List Char) : exponent (a ++ b) = (exponent a).extend b := by
  have hdigits := Cut.whileTrue_divided hb fun c => isDigit_of_isSpace
  cases a with
  | nil =>
    cases b with
    | nil => rfl
    | cons c b =>
      rcases isSpace_cases (hb c rfl) with rfl | rfl | rfl | rfl | rfl <;> rfl
  | cons e a =>
    by_cases he : e = 'e' ∨ e = 'E'
    · cases a with
      | nil =>
        cases b with
        | nil => simp [exponent, Cut.extend]
        | cons c b =>
          rcases isSpace_cases (hb c rfl) with rfl | rfl | rfl | rfl | rfl <;>
            simp [exponent, Cut.extend, he, Cut.whileTrue, isDigit]
      | cons s a =>
        by_cases hs : s = '+' ∨ s = '-'
        · simp only [exponent, cons_append, he, hs, if_true, hdigits]
          by_cases htaken : (Cut.whileTrue isDigit a).taken = []
          · simp [Cut.extend, htaken]
          · simp [Cut.extend, Cut.cons, htaken]
        · have hwhole := hdigits (s :: a)
          rw [cons_append] at hwhole
          simp only [exponent, cons_append, he, hs, if_true, if_false, hwhole]
          by_cases htaken : (Cut.whileTrue isDigit (s :: a)).taken = []
          · simp [Cut.extend, htaken]
          · simp [Cut.extend, Cut.cons, htaken]
    · simp [exponent, Cut.extend, he]

theorem fraction?_divided (a : List Char) :
    fraction? (a ++ b) = (fraction? a).map fun cut => cut.extend b := by
  cases a with
  | nil =>
    cases b with
    | nil => rfl
    | cons c b =>
      rcases isSpace_cases (hb c rfl) with rfl | rfl | rfl | rfl | rfl <;> rfl
  | cons c a =>
    by_cases hc : c = '.'
    · subst hc
      simp only [fraction?, cons_append, Cut.whileTrue_divided hb fun c => isDigit_of_isSpace]
      by_cases htaken : (Cut.whileTrue isDigit a).taken = []
      · simp [Cut.extend, htaken]
      · have hscale := exponent_divided hb (Cut.whileTrue isDigit a).rest
        simp [Cut.extend, htaken, hscale]
    · simp [fraction?, hc]

theorem hexTail?_divided (a : List Char) :
    hexTail? (a ++ b) = (hexTail? a).map fun cut => cut.extend b := by
  cases a with
  | nil =>
    cases b with
    | nil => rfl
    | cons c b =>
      rcases isSpace_cases (hb c rfl) with rfl | rfl | rfl | rfl | rfl <;> rfl
  | cons x a =>
    by_cases hx : x = 'x' ∨ x = 'X'
    · simp only [hexTail?, cons_append, hx, if_true,
        Cut.whileTrue_divided hb fun c => isHexDigit_of_isSpace]
      by_cases htaken : (Cut.whileTrue isHexDigit a).taken = []
      · simp [Cut.extend, htaken]
      · simp [Cut.extend, Cut.cons, htaken]
    · simp [hexTail?, hx]

theorem numberTail_divided (first : Char) (a : List Char) :
    numberTail first (a ++ b) = ((numberTail first a).1, (numberTail first a).2.extend b) := by
  have hdigits := Cut.whileTrue_divided hb (fun c => isDigit_of_isSpace) a
  have hfraction := fraction?_divided hb (Cut.whileTrue isDigit a).rest
  have hhex : (if first = '0' then hexTail? (a ++ b) else none) =
      (if first = '0' then hexTail? a else none).map fun cut => cut.extend b := by
    by_cases hzero : first = '0'
    · simp only [hzero, if_true, hexTail?_divided hb]
    · simp only [hzero, if_false, Option.map_none]
  unfold numberTail
  rw [hdigits, hhex]
  simp only [Cut.extend] at hfraction ⊢
  rw [hfraction]
  cases fraction? (Cut.whileTrue isDigit a).rest with
  | some cut => rfl
  | none => cases (if first = '0' then hexTail? a else none) <;> rfl

theorem isPrefixOf_divided {text : List Char} (htext : ∀ c ∈ text, isSpace c = false)
    (a : List Char) : text.isPrefixOf (a ++ b) = text.isPrefixOf a := by
  rw [Bool.eq_iff_iff, List.isPrefixOf_iff_prefix, List.isPrefixOf_iff_prefix]
  refine ⟨fun hfits => ?_, fun hfits => hfits.trans (prefix_append a b)⟩
  rcases prefix_or_prefix_of_prefix hfits (prefix_append a b) with hshort | hlong
  · exact hshort
  · -- Otherwise the text would go on with the blank after `a`.
    obtain ⟨more, rfl⟩ := hlong
    have hmore := (prefix_append_right_inj a).mp hfits
    cases more with
    | nil => simp
    | cons c more =>
      obtain ⟨rest, rfl⟩ := hmore
      have hc := htext c (by simp)
      rw [hb c rfl] at hc
      cases hc

theorem mark?_divided (a : List Char) : mark? (a ++ b) = mark? a := by
  have hmarks : ∀ m ∈ TokenKind.marks, ∀ c ∈ m.1.toList, isSpace c = false := by
    simp [TokenKind.marks, isSpace]
  have hfind : (TokenKind.marks.find? fun m => m.1.toList.isPrefixOf (a ++ b)) =
      TokenKind.marks.find? fun m => m.1.toList.isPrefixOf a := by
    revert hmarks
    generalize TokenKind.marks = marks
    intro hmarks
    induction marks with
    | nil => rfl
    | cons m marks ih =>
      obtain ⟨hm, hmarks⟩ := forall_mem_cons.mp hmarks
      rw [find?_cons, find?_cons, isPrefixOf_divided hb hm, ih hmarks]
  rw [mark?, mark?, hfind]

theorem markTail?_divided (first : Char) (a : List Char) :
    markTail? first (a ++ b) =
      (markTail? first a).map fun lexeme => (lexeme.1, lexeme.2.extend b) := by
  have hmark := mark?_divided hb (first :: a)
  rw [cons_append] at hmark
  rw [markTail?, markTail?, hmark]
  cases hfound : mark? (first :: a) with
  | none => rfl
  | some m =>
    obtain ⟨⟨text, kind⟩, hfind, rfl⟩ := Option.map_eq_some_iff.mp hfound
    have hfits := find?_some hfind
    rw [List.isPrefixOf_iff_prefix] at hfits
    have hlength : text.length ≤ a.length + 1 := by
      simpa [← String.length_toList] using hfits.length_le
    have hinside : text.length - 1 ≤ a.length := by omega
    simp [Cut.extend, take_append_of_le_length hinside, drop_append_of_le_length hinside]

end Blank

/-! ## The end of a line -/

/-- What ends a line: a line feed or the end of the text, with carriage returns
before it or none. -/
inductive EndsLine : List Char → Prop
  | done : EndsLine []
  | feed (rest : List Char) : EndsLine ('\n' :: rest)
  | back {rest : List Char} (ends : EndsLine rest) : EndsLine ('\r' :: rest)

theorem EndsLine.divides (hb : EndsLine b) : Divides b := by
  cases hb with
  | done => exact fun c hc => nomatch hc
  | feed rest => exact fun c hc => by cases hc; rfl
  | back hrest => exact fun c hc => by cases hc; rfl

theorem EndsLine.stringTail? (hb : EndsLine b) (hmark : mark = '\'' ∨ mark = '"') :
    stringTail? mark b = none := by
  induction hb with
  | done => rfl
  | feed rest => rcases hmark with rfl | rfl <;> rfl
  | back hrest ih =>
    rw [stringTail?_cons (by decide), ih]
    rcases hmark with rfl | rfl <;> rfl

theorem ne_escape {rest : List Char} (hend : c = '\\' → rest = [] → False)
    (hescape : ∀ d more, c = '\\' → rest = d :: more → False) : c ≠ '\\' := by
  intro hc
  cases rest with
  | nil => exact hend hc rfl
  | cons d more => exact hescape d more hc rfl

theorem stringTail?_extend (hcut : stringTail? mark a = some cut) (b : List Char) :
    stringTail? mark (a ++ b) = some (cut.extend b) := by
  fun_induction stringTail? mark a generalizing cut with
  | case1 | case2 | case3 | case6 => cases hcut
  | case4 c rest hc ih =>
    obtain ⟨inner, hinner, rfl⟩ := Option.map_eq_some_iff.mp hcut
    simp [stringTail?, hc, ih hinner, Cut.extend_cons]
  | case5 rest hend hescape =>
    cases hcut
    rw [List.cons_append, stringTail?_cons (ne_escape hend hescape), if_pos rfl]
    rfl
  | case7 c rest hend hescape hmark hfeed ih =>
    obtain ⟨inner, hinner, rfl⟩ := Option.map_eq_some_iff.mp hcut
    rw [List.cons_append, stringTail?_cons (ne_escape hend hescape), if_neg hmark,
      if_neg hfeed, ih hinner]
    rfl

theorem stringTail?_endsLine (hb : EndsLine b) (hmark : mark = '\'' ∨ mark = '"')
    (hnone : stringTail? mark a = none) : stringTail? mark (a ++ b) = none := by
  fun_induction stringTail? mark a with
  | case1 => exact hb.stringTail? hmark
  | case2 =>
    cases hb with
    | done => rfl
    | feed rest => rfl
    | back hrest => simp [stringTail?, hrest.stringTail? hmark]
  | case3 rest => rfl
  | case4 c rest hc ih =>
    simp [stringTail?, hc, ih (Option.map_eq_none_iff.mp hnone)]
  | case5 => cases hnone
  | case6 rest hend hescape hother =>
    rw [cons_append, stringTail?_cons (by decide), if_neg hother, if_pos rfl]
  | case7 c rest hend hescape hother hfeed ih =>
    rw [cons_append, stringTail?_cons (ne_escape hend hescape), if_neg hother,
      if_neg hfeed, ih (Option.map_eq_none_iff.mp hnone)]
    rfl

theorem blockTail?_divided (hb : Divides b) (a : List Char) :
    blockTail? (a ++ b) =
      ((blockTail? a).map fun cut => cut.extend b).or
        ((blockTail? b).map fun cut => ⟨a ++ cut.taken, cut.rest⟩) := by
  fun_induction blockTail? a with
  | case1 => simp
  | case2 rest => rfl
  | case3 c rest hopen ih =>
    have hstep : blockTail? (c :: (rest ++ b)) = (blockTail? (rest ++ b)).map (Cut.cons c) := by
      rw [blockTail?]
      intro more hc hrest
      cases rest with
      | nil =>
        have hslash := hb '/' (by rw [← nil_append b, hrest]; rfl)
        cases hslash
      | cons d rest =>
        cases hrest
        exact hopen rest hc rfl
    rw [cons_append, hstep, ih]
    cases blockTail? rest with
    | some cut => rfl
    | none => cases blockTail? b <;> rfl

theorem Cut.whileTrue_of_mem (ha : ∃ c ∈ a, p c = false)
    (b : List Char) : Cut.whileTrue p (a ++ b) = (Cut.whileTrue p a).extend b := by
  induction a with
  | nil => simp at ha
  | cons c a ih =>
    by_cases hc : p c = true
    · have hrest : ∃ d ∈ a, p d = false := by
        obtain ⟨d, hd, hfalse⟩ := ha
        rcases mem_cons.mp hd with rfl | hd
        · rw [hc] at hfalse
          cases hfalse
        · exact ⟨d, hd, hfalse⟩
      have hih := ih hrest
      simp only [Cut.whileTrue, Cut.extend, Cut.mk.injEq] at hih
      simp [Cut.whileTrue, Cut.extend, hc, hih]
    · simp [Cut.whileTrue, Cut.extend, hc]

/-! ## The first lexeme of two texts -/

theorem Divides.commentTail? (hb : Divides b) : commentTail? b = none := by
  cases b with
  | nil => rfl
  | cons c b => rcases isSpace_cases (hb c rfl) with rfl | rfl | rfl | rfl | rfl <;> rfl

section Splice

variable {a : List Char} {kind : LexemeKind}
variable {b b' : List Char} (hb : EndsLine b) (hb' : Divides b')
  (hopen : blockTail? b = none → blockTail? b' = none)

include hb hb' hopen

theorem commentTail?_splice_of_none (hnone : commentTail? (a ++ b) = none) :
    commentTail? (a ++ b') = none := by
  cases a with
  | nil => exact hb'.commentTail?
  | cons c a =>
    by_cases hstar : c = '*'
    · subst hstar
      have hunclosed : blockTail? (a ++ b) = none := Option.map_eq_none_iff.mp hnone
      rw [blockTail?_divided hb.divides, Option.or_eq_none_iff, Option.map_eq_none_iff,
        Option.map_eq_none_iff] at hunclosed
      change (blockTail? (a ++ b')).map _ = none
      rw [blockTail?_divided hb', hunclosed.1, hopen hunclosed.2]
      rfl
    · by_cases hslash : c = '/'
      · subst hslash
        cases hnone
      · simp [commentTail?, hstar, hslash]

omit hopen in
theorem commentTail?_splice (hsome : commentTail? (a ++ b) = some (kind, cut))
    (hline : kind = .lineComment → '\n' ∈ a)
    (hblock : kind = .blockComment → cut.taken.length ≤ a.length) :
    ∃ inner : Cut, cut = inner.extend b ∧
      commentTail? (a ++ b') = some (kind, inner.extend b') := by
  cases a with
  | nil =>
    rw [nil_append, hb.divides.commentTail?] at hsome
    cases hsome
  | cons c a =>
    rw [cons_append] at hsome
    by_cases hstar : c = '*'
    · subst hstar
      obtain ⟨tail, htail, heq⟩ := Option.map_eq_some_iff.mp hsome
      cases heq
      have hshort : tail.taken.length ≤ a.length := by simpa [Cut.cons] using hblock rfl
      rw [blockTail?_divided hb.divides] at htail
      cases hclosed : blockTail? a with
      | some inner =>
        rw [hclosed] at htail
        cases htail
        refine ⟨inner.cons '*', rfl, ?_⟩
        change (blockTail? (a ++ b')).map _ = _
        rw [blockTail?_divided hb', hclosed]
        rfl
      | none =>
        -- The comment is closed in the rest, so it is too long.
        rw [hclosed, Option.map_none, Option.none_or] at htail
        obtain ⟨late, hlate, rfl⟩ := Option.map_eq_some_iff.mp htail
        have hnonempty : late.taken ≠ [] := by
          obtain ⟨cs, htaken, -⟩ := blockTail?_spells hlate
          simp [htaken]
        have hpositive := length_pos_of_ne_nil hnonempty
        rw [length_append] at hshort
        omega
    · by_cases hslash : c = '/'
      · subst hslash
        cases hsome
        have hfeed : '\n' ∈ a := by simpa using hline rfl
        have hends : ∃ d ∈ a, (decide (d ≠ '\n')) = false := ⟨'\n', hfeed, by simp⟩
        refine ⟨(Cut.whileTrue (· ≠ '\n') a).cons '/', ?_, ?_⟩
        · rw [Cut.whileTrue_of_mem hends]
          rfl
        · change some (_, (Cut.whileTrue (· ≠ '\n') (a ++ b')).cons '/') = _
          rw [Cut.whileTrue_of_mem hends]
          rfl
      · simp [commentTail?, hstar, hslash] at hsome

omit hopen in
theorem markTail?_splice (hsome : markTail? first (a ++ b) = some (kind, cut)) :
    ∃ inner : Cut, cut = inner.extend b ∧
      markTail? first (a ++ b') = some (kind, inner.extend b') := by
  rw [markTail?_divided hb.divides] at hsome
  obtain ⟨lexeme, hlexeme, heq⟩ := Option.map_eq_some_iff.mp hsome
  cases heq
  exact ⟨lexeme.2, rfl, by rw [markTail?_divided hb', hlexeme]; rfl⟩

/-- The first lexeme of a text that ends before the end of a line is that of
every text that goes on with a blank there. -/
theorem munch?_splice (hmunch : munch? first (a ++ b) = some (kind, cut))
    (hblanks : kind = .blanks → ∃ c ∈ a, isSpace c = false)
    (hline : kind = .lineComment → '\n' ∈ a)
    (hblock : kind = .blockComment → cut.taken.length ≤ a.length) :
    ∃ inner : Cut, cut = inner.extend b ∧ munch? first (a ++ b') = some (kind, inner.extend b') := by
  unfold munch? at hmunch ⊢
  split at hmunch
  next hquote =>
    rw [if_pos hquote]
    obtain ⟨tail, htail, heq⟩ := Option.map_eq_some_iff.mp hmunch
    cases heq
    cases hinner : stringTail? first a with
    | none =>
      rw [stringTail?_endsLine hb hquote hinner] at htail
      cases htail
    | some inner =>
      rw [stringTail?_extend hinner] at htail ⊢
      cases htail
      exact ⟨inner, rfl, rfl⟩
  next hquote =>
    rw [if_neg hquote]
    split at hmunch
    next hdigit =>
      rw [if_pos hdigit]
      rw [numberTail_divided hb.divides] at hmunch
      cases hmunch
      exact ⟨(numberTail first a).2, rfl, by rw [numberTail_divided hb']⟩
    next hdigit =>
      rw [if_neg hdigit]
      split at hmunch
      next hname =>
        rw [if_pos hname]
        rw [Cut.whileTrue_divided hb.divides fun c => isNamePart_of_isSpace] at hmunch
        cases hmunch
        exact ⟨Cut.whileTrue isNamePart a, rfl, by
          rw [Cut.whileTrue_divided hb' fun c => isNamePart_of_isSpace]
          rfl⟩
      next hname =>
        rw [if_neg hname]
        split at hmunch
        next hspace =>
          rw [if_pos hspace]
          cases hmunch
          refine ⟨Cut.whileTrue isSpace a, ?_, ?_⟩
          · rw [Cut.whileTrue_of_mem (hblanks rfl)]
          · rw [Cut.whileTrue_of_mem (hblanks rfl)]
        next hspace =>
          rw [if_neg hspace]
          by_cases hslash : first = '/'
          · rw [if_pos hslash] at hmunch ⊢
            cases hcomment : commentTail? (a ++ b) with
            | some lexeme =>
              rw [hcomment] at hmunch
              cases hmunch
              obtain ⟨inner, hinner, hspliced⟩ :=
                commentTail?_splice hb hb' hcomment hline hblock
              exact ⟨inner, hinner, by rw [hspliced]⟩
            | none =>
              rw [hcomment] at hmunch
              rw [commentTail?_splice_of_none hb hb' hopen hcomment]
              exact markTail?_splice hb hb' hmunch
          · rw [if_neg hslash] at hmunch ⊢
            exact markTail?_splice hb hb' hmunch

end Splice

end Lexeme

namespace Position

theorem line_advance (p : Position) (cs : List Char) :
    (p.advance cs).line = p.line + cs.count '\n' := by
  induction cs generalizing p with
  | nil => rfl
  | cons c cs ih =>
    change ((p.next c).advance cs).line = _
    rw [ih, count_cons]
    by_cases hc : c = '\n'
    · simp [next, hc]
      omega
    · simp [next, hc]

theorem advance_append (p : Position) (a b : List Char) :
    p.advance (a ++ b) = (p.advance a).advance b :=
  foldl_append

def shift (k : Nat) (p : Position) : Position :=
  { p with offset := p.offset + k }

theorem advance_shift (k : Nat) (p : Position) (cs : List Char) :
    (p.shift k).advance cs = (p.advance cs).shift k := by
  induction cs generalizing p with
  | nil => rfl
  | cons c cs ih =>
    have hnext : (p.shift k).next c = (p.next c).shift k := by
      by_cases hc : c = '\n' <;> simp [next, shift, hc] <;> omega
    change ((p.shift k).next c).advance cs = _
    rw [hnext, ih]
    rfl

end Position

namespace Lexeme

def shift (k : Nat) (l : Lexeme) : Lexeme :=
  { l with start := l.start.shift k }

variable {p q : Position} {c : Char} {a cs : List Char} {kind : LexemeKind} {cut : Cut}

theorem exists_solid_of_blanks (hmunch : munch? c cs = some (kind, cut))
    (hsolid : ∃ d ∈ c :: a, isSpace d = false) (hkind : kind = .blanks) :
    ∃ d ∈ a, isSpace d = false := by
  have hspells := (spells_munch? hmunch).1
  rw [hkind] at hspells
  obtain ⟨d, hd, hfalse⟩ := hsolid
  rcases mem_cons.mp hd with rfl | hd
  · cases hspells with
    | blanks _ hspace =>
      rw [hspace d mem_cons_self] at hfalse
      cases hfalse
  · exact ⟨d, hd, hfalse⟩

theorem feed_mem_of_lineComment (hmunch : munch? c cs = some (kind, cut))
    (hline : kind = .lineComment → p.line ≠ (p.advance (c :: a)).line)
    (hkind : kind = .lineComment) : '\n' ∈ a := by
  have hspells : Spells kind (c :: cut.taken) := (spells_munch? hmunch).1
  rw [hkind] at hspells
  generalize htext : c :: cut.taken = text at hspells
  cases hspells with
  | lineComment =>
    by_contra hfeed
    refine hline hkind ?_
    rw [(List.cons.inj htext).1, Position.line_advance, count_eq_zero.mpr, Nat.add_zero]
    simpa using hfeed

theorem length_le_of_blockComment (hblock : kind = .blockComment →
      ¬(p.offset < (p.advance (c :: a)).offset ∧
        (p.advance (c :: a)).offset < (p.advance (c :: cut.taken)).offset))
    (hkind : kind = .blockComment) : cut.taken.length ≤ a.length := by
  have hinside := hblock hkind
  simp only [Position.offset_advance, length_cons] at hinside
  omega

end Lexeme

namespace Scan

def after (ls : List Lexeme) (s : Scan) : Scan :=
  { s with lexemes := ls ++ s.lexemes }

section Splice

open Lexeme

variable {b b' : List Char} (hb : EndsLine b) (hb' : Divides b')
  (hopen : blockTail? b = none → blockTail? b' = none)

include hb hb' hopen

/-- Two texts that begin alike are cut into the same lexemes up to the blanks
before the end of a line, where the first has no comment at that end. -/
theorem startingAt_splice (p : Position) (a : List Char)
    (hstuck : (startingAt p (a ++ b)).stuck = none)
    (hlines : ∀ l ∈ (startingAt p (a ++ b)).lexemes, l.kind = .lineComment →
      l.start.line ≠ (p.advance a).line)
    (hblocks : ∀ l ∈ (startingAt p (a ++ b)).lexemes, l.kind = .blockComment →
      ¬(l.start.offset < (p.advance a).offset ∧ (p.advance a).offset < l.stop.offset)) :
    ∃ ls solid blanks, a = solid ++ blanks ∧ (∀ c ∈ blanks, isSpace c = true) ∧
      startingAt p (a ++ b) = (startingAt (p.advance solid) (blanks ++ b)).after ls ∧
      startingAt p (a ++ b') = (startingAt (p.advance solid) (blanks ++ b')).after ls ∧
      ∀ l ∈ ls, l.start.offset < (p.advance a).offset := by
  induction hlength : a.length using Nat.strongRecOn generalizing p a with
  | ind n ih =>
    by_cases hsolid : ∃ c ∈ a, isSpace c = false
    · cases a with
      | nil => simp at hsolid
      | cons c a =>
        rw [cons_append] at hstuck hlines hblocks ⊢
        cases hmunch : munch? c (a ++ b) with
        | none =>
          rw [startingAt_of_munch?_eq_none hmunch] at hstuck
          cases hstuck
        | some lexeme =>
          obtain ⟨kind, cut⟩ := lexeme
          rw [startingAt_cons hmunch] at hstuck hlines hblocks ⊢
          obtain ⟨hline, hlines⟩ := forall_mem_cons.mp hlines
          obtain ⟨hblock, hblocks⟩ := forall_mem_cons.mp hblocks
          obtain ⟨inner, rfl, hspliced⟩ := munch?_splice hb hb' hopen hmunch
            (exists_solid_of_blanks hmunch hsolid) (feed_mem_of_lineComment hmunch hline)
            (length_le_of_blockComment hblock)
          have ha : a = inner.taken ++ inner.rest := by
            have hwhole : inner.taken ++ (inner.rest ++ b) = a ++ b := munch?_append hmunch
            rw [← append_assoc] at hwhole
            exact (append_cancel_right hwhole).symm
          have hstop : p.advance (c :: a) = (p.advance (c :: inner.taken)).advance inner.rest := by
            rw [ha, ← Position.advance_append, cons_append]
          rw [hstop] at hlines hblocks ⊢
          have hshorter : inner.rest.length < n := by
            rw [← hlength, ha, length_cons, length_append]
            omega
          obtain ⟨ls, solid, blanks, hrest, hblanks, hold, hnew, hoffsets⟩ :=
            ih _ hshorter (p.advance (c :: inner.taken)) inner.rest hstuck hlines hblocks rfl
          refine ⟨⟨kind, c :: inner.taken, p⟩ :: ls, c :: inner.taken ++ solid, blanks,
            ?_, hblanks, ?_, ?_, forall_mem_cons.mpr ⟨?_, hoffsets⟩⟩
          · rw [ha, hrest]
            simp
          · rw [Position.advance_append]
            exact congrArg (Scan.cons _) hold
          · rw [cons_append, startingAt_cons hspliced, Position.advance_append]
            exact congrArg (Scan.cons _) hnew
          · simp only [Position.offset_advance, length_cons]
            omega
    · refine ⟨[], [], a, rfl, ?_, rfl, rfl, fun l hl => nomatch hl⟩
      simpa using hsolid

end Splice

/-! ## Scans without blanks -/

def solid (s : Scan) : Scan :=
  { s with lexemes := s.lexemes.filter (·.kind ≠ .blanks) }

theorem solid_after (ls : List Lexeme) (s : Scan) :
    (s.after ls).solid = s.solid.after (ls.filter (·.kind ≠ .blanks)) := by
  simp [solid, after]

theorem solid_cons {l : Lexeme} (hl : l.kind ≠ .blanks) (s : Scan) :
    (s.cons l).solid = s.solid.cons l := by
  simp [solid, cons, hl]

theorem munch?_of_isSpace {c : Char} (hc : Lexeme.isSpace c = true) (cs : List Char) :
    Lexeme.munch? c cs = some (.blanks, .whileTrue Lexeme.isSpace cs) := by
  rcases Lexeme.isSpace_cases hc with rfl | rfl | rfl | rfl | rfl <;>
    simp [Lexeme.munch?, Lexeme.isDigit, Lexeme.isNameStart, Lexeme.isSpace]

theorem solid_startingAt (p : Position) (cs : List Char) :
    (startingAt p cs).solid =
      (startingAt (p.advance (cs.takeWhile Lexeme.isSpace))
        (cs.dropWhile Lexeme.isSpace)).solid := by
  cases cs with
  | nil => rfl
  | cons c cs =>
    by_cases hc : Lexeme.isSpace c = true
    · rw [startingAt_cons (munch?_of_isSpace hc cs), takeWhile_cons_of_pos hc,
        dropWhile_cons_of_pos hc]
      simp [solid, cons, Lexeme.Cut.whileTrue]
    · rw [takeWhile_cons_of_neg hc, dropWhile_cons_of_neg hc]
      rfl

theorem solid_startingAt_append (p : Position)
    (hblanks : ∀ c ∈ blanks, Lexeme.isSpace c = true) (cs : List Char) :
    (startingAt p (blanks ++ cs)).solid = (startingAt (p.advance blanks) cs).solid := by
  rw [solid_startingAt p, solid_startingAt (p.advance blanks),
    takeWhile_append_of_pos hblanks, dropWhile_append_of_pos hblanks,
    Position.advance_append]

theorem munch?_lineComment (cs : List Char) :
    Lexeme.munch? '/' ('/' :: cs) =
      some (.lineComment, (Lexeme.Cut.whileTrue (· ≠ '\n') cs).cons '/') := by
  simp [Lexeme.munch?, Lexeme.isDigit, Lexeme.isNameStart, Lexeme.isSpace, Lexeme.commentTail?]

/-! ## Scans that begin further on -/

def shift (k : Nat) (s : Scan) : Scan where
  lexemes := s.lexemes.map (Lexeme.shift k)
  stuck := s.stuck.map fun place => (place.1.shift k, place.2)

theorem startingAt_shift (k : Nat) (p : Position) (cs : List Char) :
    startingAt (p.shift k) cs = (startingAt p cs).shift k := by
  induction hlength : cs.length using Nat.strongRecOn generalizing p cs with
  | ind n ih =>
    cases cs with
    | nil => simp [startingAt, shift]
    | cons c cs =>
      cases hmunch : Lexeme.munch? c cs with
      | none =>
        rw [startingAt_of_munch?_eq_none hmunch, startingAt_of_munch?_eq_none hmunch]
        rfl
      | some lexeme =>
        obtain ⟨kind, cut⟩ := lexeme
        have hshorter : cut.rest.length < n := by
          have hcut : cut.taken ++ cut.rest = cs := Lexeme.munch?_append hmunch
          rw [← hlength, length_cons, ← hcut, length_append]
          omega
        rw [startingAt_cons hmunch, startingAt_cons hmunch, Position.advance_shift,
          ih _ hshorter _ _ rfl]
        rfl

theorem solid_shift (k : Nat) (s : Scan) : (s.shift k).solid = s.solid.shift k := by
  simp only [solid, shift, filter_map]
  rfl

end Scan

/-! ## A remark at the end of a line -/

namespace Lexeme

theorem EndsLine.isSpace_of_mem (hb : EndsLine b) :
    ∀ c ∈ b.takeWhile (· ≠ '\n'), isSpace c = true := by
  induction hb with
  | done => simp
  | feed rest => simp
  | back hrest ih => simpa [isSpace] using ih

def remark (words : List Char) : List Char :=
  ' ' :: '/' :: '/' :: words

end Lexeme

namespace Scan

open Lexeme
variable (p : Position) {words : List Char}

theorem solid_startingAt_remark (hblanks : ∀ c ∈ blanks, isSpace c = true)
    (hwords : '\n' ∉ words) :
    (startingAt p (blanks ++ (remark words ++ b))).solid =
      ((startingAt ((p.advance blanks).advance (remark words ++ b.takeWhile (· ≠ '\n')))
        (b.dropWhile (· ≠ '\n'))).solid).cons
        ⟨.lineComment, '/' :: '/' :: (words ++ b.takeWhile (· ≠ '\n')),
          (p.advance blanks).next ' '⟩ := by
  have hrun : ∀ c ∈ words, decide (c ≠ '\n') = true := by
    intro c hc
    exact decide_eq_true fun heq => hwords (heq ▸ hc)
  have hcut : Cut.whileTrue (· ≠ '\n') (words ++ b) =
      ⟨words ++ b.takeWhile (· ≠ '\n'), b.dropWhile (· ≠ '\n')⟩ := by
    rw [Cut.whileTrue, takeWhile_append_of_pos hrun, dropWhile_append_of_pos hrun]
  have hspace : ∀ c ∈ [' '], isSpace c = true := by simp [isSpace]
  have hmunch := munch?_lineComment (words ++ b)
  rw [hcut] at hmunch
  have hfirst := solid_startingAt_append (p.advance blanks) hspace ('/' :: '/' :: (words ++ b))
  rw [startingAt_cons hmunch, solid_cons (by simp)] at hfirst
  rw [solid_startingAt_append p hblanks]
  exact hfirst

theorem advance_remark_feed (hwords : '\n' ∉ words) (before : List Char) :
    (p.advance (remark words ++ before)).advance ['\n'] =
      ((p.advance before).advance ['\n']).shift (remark words).length := by
  have hcount : (remark words).count '\n' = 0 :=
    count_eq_zero.mpr (by simpa [remark] using hwords)
  change (p.advance (remark words ++ before)).next '\n' =
    ((p.advance before).next '\n').shift (remark words).length
  simp only [Position.next, if_true, Position.shift, Position.line_advance,
    Position.offset_advance, count_append, hcount, length_append, Position.mk.injEq,
    true_and, Nat.zero_add]
  omega

theorem solid_startingAt_dropWhile (hb : EndsLine b) (hwords : '\n' ∉ words) :
    (startingAt (p.advance (remark words ++ b.takeWhile (· ≠ '\n')))
        (b.dropWhile (· ≠ '\n'))).solid =
      ((startingAt p b).solid).shift (remark words).length ∧
    ∀ l ∈ (startingAt p b).solid.lexemes, ∃ before rest, b = before ++ '\n' :: rest ∧
      p.offset + before.length < l.start.offset := by
  have hblank := hb.isSpace_of_mem
  have hsplit := takeWhile_append_dropWhile (p := (· ≠ '\n')) (l := b)
  have hold : (startingAt p b).solid =
      (startingAt (p.advance (b.takeWhile (· ≠ '\n'))) (b.dropWhile (· ≠ '\n'))).solid := by
    rw [← solid_startingAt_append p hblank, hsplit]
  rw [hold]
  cases hrest : b.dropWhile (· ≠ '\n') with
  | nil => simp [startingAt, solid, shift]
  | cons c rest =>
    have hc : c = '\n' := by
      have hstop := head?_dropWhile_not (· ≠ '\n') b
      rw [hrest] at hstop
      simpa using hstop
    subst hc
    have hspace : ∀ c ∈ ['\n'], isSpace c = true := by simp [isSpace]
    have hfeed := fun q => solid_startingAt_append q hspace rest
    simp only [singleton_append] at hfeed
    rw [hfeed, hfeed, advance_remark_feed p hwords, startingAt_shift, solid_shift]
    refine ⟨rfl, fun l hl => ⟨b.takeWhile (· ≠ '\n'), rest, by rw [← hrest, hsplit], ?_⟩⟩
    have hfrom := (increasing_startingAt _ rest).1 l (mem_of_mem_filter hl)
    simp only [Position.offset_advance, length_singleton] at hfrom
    omega

section OfRemark

variable {a b words : List Char} (hb : EndsLine b) (hwords : '\n' ∉ words)
  (hclosed : blockTail? (remark words) = none) (hstuck : (of (a ++ b)).stuck = none)
  (hlines : ∀ l ∈ (of (a ++ b)).lexemes, l.kind = .lineComment →
    l.start.line ≠ (Position.start.advance a).line)
  (hblocks : ∀ l ∈ (of (a ++ b)).lexemes, l.kind = .blockComment →
    ¬(l.start.offset < a.length ∧ a.length < l.stop.offset))

include hb hwords hclosed hstuck hlines hblocks

theorem solid_of_remark :
    ∃ ls rest, (of (a ++ b)).solid = after ls rest ∧
      (of (a ++ (remark words ++ b))).solid =
        ((rest.shift (remark words).length).cons
          ⟨.lineComment, '/' :: '/' :: (words ++ b.takeWhile (· ≠ '\n')),
            (Position.start.advance a).next ' '⟩).after ls ∧
      (∀ l ∈ ls, l.start.offset < a.length) ∧
      ∀ l ∈ rest.lexemes, ∃ before more, b = before ++ '\n' :: more ∧
        a.length + before.length < l.start.offset := by
  have hoffset : (Position.start.advance a).offset = a.length := by
    simp [Position.offset_advance, Position.start]
  have hopen : blockTail? b = none → blockTail? (remark words ++ b) = none := by
    intro hnone
    rw [blockTail?_divided hb.divides, hclosed, hnone]
    rfl
  have hdivides : Divides (remark words ++ b) := fun c hc => by
    cases hc
    rfl
  rw [← hoffset] at hblocks
  obtain ⟨ls, before, blanks, ha, hblanks, hold, hnew, hoffsets⟩ :=
    startingAt_splice hb hdivides hopen Position.start a hstuck hlines hblocks
  have hplace : (Position.start.advance before).advance blanks = Position.start.advance a := by
    rw [ha, Position.advance_append]
  obtain ⟨hmoved, hlater⟩ :=
    solid_startingAt_dropWhile (Position.start.advance a) hb hwords
  refine ⟨ls.filter (·.kind ≠ .blanks), (startingAt (Position.start.advance a) b).solid,
    ?_, ?_, fun l hl => ?_, fun l hl => ?_⟩
  · rw [of, hold, solid_after, solid_startingAt_append _ hblanks, hplace]
  · rw [of, hnew, solid_after, solid_startingAt_remark _ hblanks hwords, hplace, hmoved]
  · rw [← hoffset]
    exact hoffsets l (mem_of_mem_filter hl)
  · rw [← hoffset]
    exact hlater l hl

end OfRemark

theorem tokens_solid (s : Scan) : s.solid.tokens = s.tokens := by
  rw [tokens, tokens, solid, filterMap_filter]
  refine filterMap_congr fun l _ => ?_
  cases hkind : l.kind <;> simp [token?, hkind]

theorem comments_solid (source : List Char) (s : Scan) :
    s.solid.comments source = s.comments source := by
  rw [comments, comments, solid, filterMap_filter]
  refine filterMap_congr fun l _ => ?_
  cases hkind : l.kind <;> simp [comment?, hkind]

end Scan

end CheckedThrows
