import CheckedThrows.Token.Scan
import Mathlib.Data.Bool.Basic
import Mathlib.Data.List.Basic
import Mathlib.Data.List.TakeWhile

/-!
# What lexemes are spelled like

`Spells kind cs` says which texts a lexeme of each kind can have.  The first
lexeme of a text has such a text, and it cannot be longer if it is a run of
blanks or a line comment.  Where no lexeme is found, no beginning of the text
is spelled like one.
-/

namespace CheckedThrows

open List

variable {c mark : Char}

namespace Lexeme

variable {cs : List Char} {first : Char} {lexeme : LexemeKind × Cut} {kind : LexemeKind} {cut : Cut}

inductive StringTail (mark : Char) : List Char → Prop
  | close : StringTail mark [mark]
  | escaped {c : Char} {cs : List Char} (onLine : c ≠ '\n') (rest : StringTail mark cs) :
      StringTail mark ('\\' :: c :: cs)
  | plain {c : Char} {cs : List Char} (notMark : c ≠ mark) (onLine : c ≠ '\n')
      (notEscape : c ≠ '\\') (rest : StringTail mark cs) : StringTail mark (c :: cs)

def Digits (cs : List Char) : Prop :=
  cs ≠ [] ∧ ∀ c ∈ cs, isDigit c = true

inductive Scale : List Char → Prop
  | none : Scale []
  | exponent {e : Char} {sign digits : List Char} (isMark : e = 'e' ∨ e = 'E')
      (isSign : sign = [] ∨ sign = ['+'] ∨ sign = ['-']) (isNumber : Digits digits) :
      Scale (e :: (sign ++ digits))

inductive Spells : LexemeKind → List Char → Prop
  | string {mark : Char} {cs : List Char} (isMark : mark = '\'' ∨ mark = '"')
      (tail : StringTail mark cs) : Spells (.token .stringLiteral) (mark :: cs)
  | double {whole fraction scale : List Char} (isWhole : Digits whole)
      (isFraction : Digits fraction) (isScale : Scale scale) :
      Spells (.token .doubleLiteral) (whole ++ '.' :: (fraction ++ scale))
  | decimal {digits : List Char} (isNumber : Digits digits) : Spells (.token .intLiteral) digits
  | hexadecimal {x : Char} {digits : List Char} (isMark : x = 'x' ∨ x = 'X')
      (nonempty : digits ≠ []) (isNumber : ∀ c ∈ digits, isHexDigit c = true) :
      Spells (.token .intLiteral) ('0' :: x :: digits)
  | keyword {word : String} {kind : TokenKind} (isWord : (word, kind) ∈ TokenKind.keywords) :
      Spells (.token kind) word.toList
  | name {c : Char} {cs : List Char} (isStart : isNameStart c = true)
      (isPart : ∀ x ∈ cs, isNamePart x = true) : Spells (.token .name) (c :: cs)
  | mark {text : String} {kind : TokenKind} (isMark : (text, kind) ∈ TokenKind.marks) :
      Spells (.token kind) text.toList
  | blanks {cs : List Char} (nonempty : cs ≠ []) (isBlank : ∀ c ∈ cs, isSpace c = true) :
      Spells .blanks cs
  | lineComment {cs : List Char} (onLine : '\n' ∉ cs) : Spells .lineComment ('/' :: '/' :: cs)
  | blockComment {cs : List Char} (isOpen : ¬['*', '/'] <:+: cs ++ ['*']) :
      Spells .blockComment ('/' :: '*' :: (cs ++ ['*', '/']))

/-- A run of blanks and a line comment go on as long as they can. -/
def StopsBefore : LexemeKind → List Char → Prop
  | .blanks, rest => ∀ c ∈ rest.head?, isSpace c = false
  | .lineComment, rest => ∀ c ∈ rest.head?, c = '\n'
  | _, _ => True

/-! ## The first lexeme of a text -/

theorem Cut.not_of_mem_head?_whileTrue {p : Char → Bool}
    (hc : c ∈ (Cut.whileTrue p cs).rest.head?) : p c = false := by
  have hstop := head?_dropWhile_not p cs
  rw [Option.mem_def] at hc
  change (cs.dropWhile p).head? = some c at hc
  rw [hc] at hstop
  exact hstop

theorem stringTail?_cons (hc : c ≠ '\\') (cs : List Char) :
    stringTail? mark (c :: cs) =
      if c = mark then some ⟨[c], cs⟩
      else if c = '\n' then none
      else (stringTail? mark cs).map (Cut.cons c) := by
  rw [stringTail?]
  · exact fun h => absurd h hc
  · exact fun _ _ h => absurd h hc

theorem stringTail_of_stringTail?
    (hcut : stringTail? mark cs = some cut) : StringTail mark cut.taken := by
  fun_induction stringTail? mark cs generalizing cut with
  | case1 | case2 | case3 | case6 => cases hcut
  | case4 c rest hline ih =>
    obtain ⟨inner, hinner, rfl⟩ := Option.map_eq_some_iff.mp hcut
    exact .escaped hline (ih hinner)
  | case5 rest =>
    cases hcut
    exact .close
  | case7 c rest hend hescape hmark hline ih =>
    obtain ⟨inner, hinner, rfl⟩ := Option.map_eq_some_iff.mp hcut
    have hplain : c ≠ '\\' := by
      rintro rfl
      cases rest with
      | nil => exact hend rfl rfl
      | cons d rest => exact hescape d rest rfl rfl
    exact .plain hmark hline hplain (ih hinner)

theorem isSome_stringTail? (hmark : mark ≠ '\\') (htail : StringTail mark cs) (rest : List Char) :
    (stringTail? mark (cs ++ rest)).isSome := by
  induction htail with
  | close => simp [stringTail?_cons hmark]
  | escaped hline _ ih => simpa [stringTail?, hline] using ih
  | plain hnot hline hescape _ ih =>
    simpa [stringTail?_cons hescape, hnot, hline] using ih

theorem blockTail?_spells (hcut : blockTail? cs = some cut) :
    ∃ inner, cut.taken = inner ++ ['*', '/'] ∧ ¬['*', '/'] <:+: inner ++ ['*'] := by
  fun_induction blockTail? cs generalizing cut with
  | case1 => cases hcut
  | case2 rest =>
    cases hcut
    exact ⟨[], rfl, by decide⟩
  | case3 c rest hopen ih =>
    obtain ⟨tail, htail, rfl⟩ := Option.map_eq_some_iff.mp hcut
    obtain ⟨inner, htaken, hinner⟩ := ih htail
    refine ⟨c :: inner, congrArg (c :: ·) htaken, fun hclosed => ?_⟩
    rw [cons_append, infix_cons_iff] at hclosed
    rcases hclosed with hfirst | hlater
    · -- The comment would end here, before the rest of it.
      rw [← blockTail?_append htail, htaken] at hopen
      cases inner with
      | nil => simp at hfirst
      | cons d inner =>
        simp only [cons_append, cons_prefix_cons] at hfirst
        exact hopen _ hfirst.1.symm (by rw [← hfirst.2.1]; rfl)
    · exact hinner hlater

theorem digits_whileTrue (htaken : (Cut.whileTrue isDigit cs).taken ≠ []) :
    Digits (Cut.whileTrue isDigit cs).taken :=
  ⟨htaken, fun _ hc => mem_takeWhile_imp hc⟩

theorem scale_exponent (cs : List Char) : Scale (exponent cs).taken := by
  unfold exponent
  split
  next e rest =>
    split
    next he =>
      split
      next s rest' =>
        split
        next hs =>
          dsimp only
          split
          next => exact .none
          next htaken =>
            have hsign : [s] = [] ∨ [s] = ['+'] ∨ [s] = ['-'] := by simpa using hs
            exact .exponent he hsign (digits_whileTrue htaken)
        next =>
          dsimp only
          split
          next => exact .none
          next htaken => exact .exponent he (.inl rfl) (digits_whileTrue htaken)
      next => exact .none
    next => exact .none
  next => exact .none

theorem fraction?_spells (hcut : fraction? cs = some cut) :
    ∃ fraction scale, Digits fraction ∧ Scale scale ∧ cut.taken = '.' :: (fraction ++ scale) := by
  unfold fraction? at hcut
  split at hcut
  next rest =>
    dsimp only at hcut
    split at hcut
    next => cases hcut
    next htaken =>
      cases hcut
      exact ⟨_, _, digits_whileTrue htaken, scale_exponent _, rfl⟩
  next => cases hcut

theorem spells_hexTail? (hcut : hexTail? cs = some cut) :
    Spells (.token .intLiteral) ('0' :: cut.taken) := by
  unfold hexTail? at hcut
  split at hcut
  next x rest =>
    split at hcut
    next hx =>
      dsimp only at hcut
      split at hcut
      next => cases hcut
      next htaken =>
        cases hcut
        exact .hexadecimal hx htaken fun _ hc => mem_takeWhile_imp hc
    next => cases hcut
  next => cases hcut

theorem spells_numberTail (hfirst : isDigit first = true) (cs : List Char) :
    Spells (.token (numberTail first cs).1) (first :: (numberTail first cs).2.taken) := by
  have hdigits : Digits (first :: (Cut.whileTrue isDigit cs).taken) :=
    ⟨cons_ne_nil _ _, forall_mem_cons.mpr ⟨hfirst, fun _ hc => mem_takeWhile_imp hc⟩⟩
  unfold numberTail
  dsimp only
  split
  next cut hcut =>
    obtain ⟨fraction, scale, hfraction, hscale, htaken⟩ := fraction?_spells hcut
    rw [htaken, ← cons_append]
    exact .double hdigits hfraction hscale
  next =>
    split
    next cut hcut =>
      split at hcut
      next hzero =>
        subst hzero
        exact spells_hexTail? hcut
      next => cases hcut
    next => exact .decimal hdigits

theorem spells_nameKind (hfirst : isNameStart first = true) (hcs : ∀ c ∈ cs, isNamePart c = true) :
    Spells (.token (nameKind (first :: cs))) (first :: cs) := by
  unfold nameKind
  cases hlookup : TokenKind.keywords.lookup (String.ofList (first :: cs)) with
  | none => exact .name hfirst hcs
  | some kind =>
    obtain ⟨before, after, hkeywords, -⟩ := lookup_eq_some_iff.mp hlookup
    have hword : (String.ofList (first :: cs), kind) ∈ TokenKind.keywords := by
      rw [hkeywords]
      exact mem_append_right _ mem_cons_self
    have hspells := Spells.keyword hword
    rwa [String.toList_ofList] at hspells

theorem spells_commentTail? (hlexeme : commentTail? cs = some lexeme) :
    Spells lexeme.1 ('/' :: lexeme.2.taken) ∧ StopsBefore lexeme.1 lexeme.2.rest := by
  unfold commentTail? at hlexeme
  split at hlexeme
  next rest =>
    obtain ⟨cut, hcut, rfl⟩ := Option.map_eq_some_iff.mp hlexeme
    obtain ⟨inner, htaken, hinner⟩ := blockTail?_spells hcut
    refine ⟨?_, trivial⟩
    change Spells .blockComment ('/' :: '*' :: cut.taken)
    rw [htaken]
    exact .blockComment hinner
  next rest =>
    cases hlexeme
    constructor
    · refine .lineComment fun hmem => ?_
      simpa using mem_takeWhile_imp hmem
    · intro c hc
      simpa using Cut.not_of_mem_head?_whileTrue hc
  next => cases hlexeme

theorem markText_ne_nil {text : String} {kind : TokenKind} (hmark : (text, kind) ∈ TokenKind.marks) :
    text.toList ≠ [] := by
  have hall : ∀ m ∈ TokenKind.marks, m.1.toList ≠ [] := by decide
  exact hall _ hmark

theorem spells_markTail? (hlexeme : markTail? first cs = some lexeme) :
    Spells lexeme.1 (first :: lexeme.2.taken) ∧ StopsBefore lexeme.1 lexeme.2.rest := by
  obtain ⟨found, hfound, rfl⟩ := Option.map_eq_some_iff.mp hlexeme
  obtain ⟨⟨text, kind⟩, hfind, rfl⟩ := Option.map_eq_some_iff.mp hfound
  have hmark := mem_of_find?_eq_some hfind
  have hfits := find?_some hfind
  rw [List.isPrefixOf_iff_prefix, prefix_iff_eq_take, String.length_toList] at hfits
  have hpositive : 0 < text.length := by
    exact length_pos_of_ne_nil (markText_ne_nil hmark)
  have htext : first :: cs.take (text.length - 1) = text.toList := by
    rw [hfits, ← Nat.succ_pred_eq_of_pos hpositive]
    rfl
  refine ⟨?_, trivial⟩
  change Spells (.token kind) (first :: cs.take (text.length - 1))
  rw [htext]
  exact .mark hmark

theorem spells_munch? (hlexeme : munch? first cs = some lexeme) :
    Spells lexeme.1 (first :: lexeme.2.taken) ∧ StopsBefore lexeme.1 lexeme.2.rest := by
  unfold munch? at hlexeme
  split at hlexeme
  next hquote =>
    obtain ⟨cut, hcut, rfl⟩ := Option.map_eq_some_iff.mp hlexeme
    exact ⟨.string hquote (stringTail_of_stringTail? hcut), trivial⟩
  next =>
    split at hlexeme
    next hdigit =>
      cases hlexeme
      exact ⟨spells_numberTail hdigit cs, trivial⟩
    next =>
      split at hlexeme
      next hname =>
        cases hlexeme
        exact ⟨spells_nameKind hname fun _ hc => mem_takeWhile_imp hc, trivial⟩
      next =>
        split at hlexeme
        next hspace =>
          cases hlexeme
          refine ⟨.blanks (cons_ne_nil _ _) (forall_mem_cons.mpr ⟨hspace, ?_⟩), ?_⟩
          · exact fun _ hc => mem_takeWhile_imp hc
          · exact fun _ hc => Cut.not_of_mem_head?_whileTrue hc
        next =>
          split at hlexeme
          next found hfound =>
            cases hlexeme
            split at hfound
            next hslash =>
              subst hslash
              exact spells_commentTail? hfound
            next => cases hfound
          next => exact spells_markTail? hlexeme

/-! ## Where no lexeme fits -/

/-- No lexeme is found at a quotation mark that is not closed on its line, and
at a character that begins none. -/
theorem munch?_eq_none_cases (hnone : munch? first cs = none) :
    (first = '\'' ∨ first = '"') ∧ stringTail? first cs = none ∨
      (first ≠ '\'' ∧ first ≠ '"') ∧ isDigit first = false ∧ isNameStart first = false ∧
        isSpace first = false ∧ mark? (first :: cs) = none := by
  unfold munch? at hnone
  split at hnone
  next hquote => exact .inl ⟨hquote, Option.map_eq_none_iff.mp hnone⟩
  next hquote =>
    split at hnone
    next => cases hnone
    next hdigit =>
      split at hnone
      next => cases hnone
      next hname =>
        split at hnone
        next => cases hnone
        next hspace =>
          split at hnone
          · cases hnone
          · exact .inr ⟨not_or.mp hquote, Bool.eq_false_of_not_eq_true hdigit,
              Bool.eq_false_of_not_eq_true hname, Bool.eq_false_of_not_eq_true hspace,
              Option.map_eq_none_iff.mp hnone⟩

theorem Spells.beginning (hspells : Spells kind (first :: cs)) :
    (first = '\'' ∨ first = '"') ∧ StringTail first cs ∨ isDigit first = true ∨
      isNameStart first = true ∨ isSpace first = true ∨
      ∃ m ∈ TokenKind.marks, m.1.toList <+: first :: cs := by
  have hslash : ∀ rest, ∃ m ∈ TokenKind.marks, m.1.toList <+: '/' :: rest :=
    fun rest => ⟨("/", .product), by decide, rest, rfl⟩
  generalize htext : first :: cs = text at hspells
  cases hspells with
  | string hmark htail =>
    cases htext
    exact .inl ⟨hmark, htail⟩
  | @double whole _ _ hwhole _ _ =>
    cases whole with
    | nil => exact absurd rfl hwhole.1
    | cons c whole =>
      cases htext
      exact .inr (.inl (hwhole.2 _ mem_cons_self))
  | decimal hnumber =>
    subst htext
    exact .inr (.inl (hnumber.2 _ mem_cons_self))
  | hexadecimal =>
    cases htext
    exact .inr (.inl rfl)
  | @keyword word kind hword =>
    have hstart : TokenKind.keywords.all (·.1.toList.head?.all isNameStart) = true := by
      decide
    have hfirst := all_eq_true.mp hstart _ hword
    rw [← htext] at hfirst
    exact .inr (.inr (.inl hfirst))
  | name hstart =>
    cases htext
    exact .inr (.inr (.inl hstart))
  | @mark text kind hmark => exact .inr (.inr (.inr (.inr ⟨_, hmark, htext ▸ prefix_rfl⟩)))
  | blanks _ hblank =>
    subst htext
    exact .inr (.inr (.inr (.inl (hblank _ mem_cons_self))))
  | lineComment =>
    cases htext
    exact .inr (.inr (.inr (.inr (hslash _))))
  | blockComment =>
    cases htext
    exact .inr (.inr (.inr (.inr (hslash _))))

theorem Spells.ne_nil (hspells : Spells kind cs) : cs ≠ [] := by
  cases hspells with
  | decimal hnumber => exact hnumber.1
  | @keyword word kind hword =>
    have hall : ∀ w ∈ TokenKind.keywords, w.1.toList ≠ [] := by decide
    exact hall _ hword
  | mark hmark => exact markText_ne_nil hmark
  | blanks hnonempty => exact hnonempty
  | _ => simp

theorem no_quote_begins (hquote : c = '\'' ∨ c = '"') :
    isDigit c = false ∧ isNameStart c = false ∧ isSpace c = false ∧
      ∀ m ∈ TokenKind.marks, m.1.toList.head? ≠ some c := by
  rcases hquote with rfl | rfl <;> decide

theorem not_prefix_of_munch?_eq_none (hnone : munch? first cs = none) {text : List Char}
    (hspells : Spells kind text) : ¬text <+: first :: cs := by
  rintro ⟨rest, happend⟩
  cases text with
  | nil => exact hspells.ne_nil rfl
  | cons c text =>
    rw [cons_append] at happend
    obtain ⟨rfl, rfl⟩ := List.cons.inj happend
    rcases munch?_eq_none_cases hnone with ⟨hquote, htail⟩ | ⟨hquote, hdigit, hname, hspace, hmark⟩
    · have hother := no_quote_begins hquote
      rcases hspells.beginning with ⟨-, hstring⟩ | hbegin | hbegin | hbegin | ⟨m, hm, hbegin⟩
      · have hclosed : c ≠ '\\' := by rcases hquote with rfl | rfl <;> decide
        have hsome := isSome_stringTail? hclosed hstring rest
        rw [htail] at hsome
        cases hsome
      · exact Bool.noConfusion (hother.1.symm.trans hbegin)
      · exact Bool.noConfusion (hother.2.1.symm.trans hbegin)
      · exact Bool.noConfusion (hother.2.2.1.symm.trans hbegin)
      · cases hchars : m.1.toList with
        | nil => exact markText_ne_nil hm hchars
        | cons d rest =>
          rw [hchars, cons_prefix_cons] at hbegin
          refine hother.2.2.2 m hm ?_
          rw [hchars, hbegin.1]
          rfl
    · rcases hspells.beginning with ⟨hstring, -⟩ | hbegin | hbegin | hbegin | ⟨m, hm, hbegin⟩
      · exact hstring.elim hquote.1 hquote.2
      · exact Bool.noConfusion (hdigit.symm.trans hbegin)
      · exact Bool.noConfusion (hname.symm.trans hbegin)
      · exact Bool.noConfusion (hspace.symm.trans hbegin)
      · have hfits := find?_eq_none.mp (Option.map_eq_none_iff.mp hmark) m hm
        rw [List.isPrefixOf_iff_prefix] at hfits
        exact hfits (hbegin.trans (prefix_append (c :: text) rest))

/-! ## Where a lexeme ends -/

theorem isSpace_eq_false_of_mem {p : Char → Bool}
    (hp : [' ', '\t', '\x0c', '\r', '\n'].all (fun c => !p c) = true)
    (hcs : ∀ c ∈ cs, p c = true) : ∀ c ∈ cs, isSpace c = false := by
  intro c hc
  cases hspace : isSpace c with
  | false => rfl
  | true =>
    have hmem : c ∈ [' ', '\t', '\x0c', '\r', '\n'] := by
      simpa [isSpace, or_assoc] using hspace
    have hnot := all_eq_true.mp hp c hmem
    rw [hcs c hc] at hnot
    cases hnot

theorem StringTail.getLast?_eq (htail : StringTail mark cs) :
    cs.getLast? = some mark := by
  induction htail with
  | close => rfl
  | escaped _ _ ih => simp [getLast?_cons, ih]
  | plain _ _ _ _ ih => simp [getLast?_cons, ih]

theorem Digits.not_isSpace (hcs : Digits cs) : ∀ c ∈ cs, isSpace c = false :=
  isSpace_eq_false_of_mem rfl hcs.2

theorem Scale.not_isSpace (hcs : Scale cs) : ∀ c ∈ cs, isSpace c = false := by
  cases hcs with
  | none => simp
  | exponent he hsign hnumber =>
    rw [forall_mem_cons, forall_mem_append]
    refine ⟨?_, ?_, hnumber.not_isSpace⟩
    · rcases he with rfl | rfl <;> rfl
    · rcases hsign with rfl | rfl | rfl <;> simp [isSpace]

theorem Spells.not_isSpace_of_mem_getLast?
    (hspells : Spells kind cs) (hblanks : kind ≠ .blanks) (hcomment : kind ≠ .lineComment) :
    ∀ c ∈ cs.getLast?, isSpace c = false := by
  intro c hc
  have hmem := mem_of_getLast? hc
  cases hspells with
  | string hmark htail =>
    rw [getLast?_cons, htail.getLast?_eq] at hc
    cases hc
    rcases hmark with rfl | rfl <;> rfl
  | double hwhole hfraction hscale =>
    rw [mem_append, mem_cons, mem_append] at hmem
    rcases hmem with hmem | rfl | hmem | hmem
    · exact hwhole.not_isSpace c hmem
    · rfl
    · exact hfraction.not_isSpace c hmem
    · exact hscale.not_isSpace c hmem
  | decimal hnumber => exact hnumber.not_isSpace c hmem
  | hexadecimal hmark _ hnumber =>
    rcases mem_cons.mp hmem with rfl | hmem
    · rfl
    · rcases mem_cons.mp hmem with rfl | hmem
      · rcases hmark with rfl | rfl <;> rfl
      · exact isSpace_eq_false_of_mem rfl hnumber c hmem
  | @keyword word kind hword =>
    have hall : TokenKind.keywords.all (·.1.toList.all fun c => !isSpace c) = true := by decide
    have hword := all_eq_true.mp (all_eq_true.mp hall _ hword) c hmem
    simpa using hword
  | @name first cs hstart hpart =>
    have hfirst : isNamePart first = true := by simp [isNamePart, hstart]
    exact isSpace_eq_false_of_mem rfl (forall_mem_cons.mpr ⟨hfirst, hpart⟩) c hmem
  | mark hmark =>
    have hall : TokenKind.marks.all (·.1.toList.all fun c => !isSpace c) = true := by decide
    have hmark := all_eq_true.mp (all_eq_true.mp hall _ hmark) c hmem
    simpa using hmark
  | blanks => exact absurd rfl hblanks
  | lineComment => exact absurd rfl hcomment
  | blockComment =>
    rw [getLast?_cons, getLast?_cons, getLast?_append] at hc
    cases hc
    rfl

end Lexeme

end CheckedThrows
