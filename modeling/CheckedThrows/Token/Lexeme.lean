import CheckedThrows.Text.Hex
import CheckedThrows.Token.Basic

/-!
# Lexemes

A source text is cut into lexemes: tokens, runs of blanks and comments.  What
a lexeme can be is decided by its first character, the slash apart: `/*` opens
a comment only if the comment is closed somewhere, and is an operator
otherwise.  `munch?` takes the first lexeme off a text, and `munch?_append`
says that what it takes and what it leaves make up the text again.
-/

namespace CheckedThrows

variable {cs : List Char}

inductive LexemeKind
  | token (kind : TokenKind)
  | blanks
  | lineComment
  | blockComment
  deriving DecidableEq, Repr

structure Lexeme where
  kind : LexemeKind
  text : List Char
  start : Position
  deriving DecidableEq, Repr

namespace Lexeme

def isSpace (c : Char) : Bool :=
  c = ' ' || c = '\t' || c = '\x0c' || c = '\r' || c = '\n'

def isDigit (c : Char) : Bool :=
  '0' ≤ c && c ≤ '9'

def isNameStart (c : Char) : Bool :=
  ('A' ≤ c && c ≤ 'Z') || ('a' ≤ c && c ≤ 'z') || c = '_' || c = '$'

def isNamePart (c : Char) : Bool :=
  isNameStart c || isDigit c

/-- A cut of a text into what is taken and what is left. -/
structure Cut where
  taken : List Char
  rest : List Char

namespace Cut

def cons (c : Char) (cut : Cut) : Cut :=
  ⟨c :: cut.taken, cut.rest⟩

def whileTrue (p : Char → Bool) (cs : List Char) : Cut :=
  ⟨cs.takeWhile p, cs.dropWhile p⟩

end Cut

/-- The part of a string literal after its opening mark: up to the next such
mark that no backslash precedes, all on one line. -/
def stringTail? (mark : Char) : List Char → Option Cut
  | [] => none
  | '\\' :: [] => none
  | '\\' :: c :: rest =>
    if c = '\n' then none
    else (stringTail? mark rest).map fun cut => (cut.cons c).cons '\\'
  | c :: rest =>
    if c = mark then some ⟨[c], rest⟩
    else if c = '\n' then none
    else (stringTail? mark rest).map (Cut.cons c)

def blockTail? : List Char → Option Cut
  | [] => none
  | '*' :: '/' :: rest => some ⟨['*', '/'], rest⟩
  | c :: rest => (blockTail? rest).map (Cut.cons c)

def exponent (cs : List Char) : Cut :=
  match cs with
  | e :: rest =>
    if e = 'e' ∨ e = 'E' then
      match rest with
      | s :: rest' =>
        if s = '+' ∨ s = '-' then
          let digits := Cut.whileTrue isDigit rest'
          if digits.taken = [] then ⟨[], cs⟩ else (digits.cons s).cons e
        else
          let digits := Cut.whileTrue isDigit rest
          if digits.taken = [] then ⟨[], cs⟩ else digits.cons e
      | [] => ⟨[], cs⟩
    else ⟨[], cs⟩
  | [] => ⟨[], cs⟩

def fraction? : List Char → Option Cut
  | '.' :: rest =>
    let digits := Cut.whileTrue isDigit rest
    if digits.taken = [] then none
    else
      let scale := exponent digits.rest
      some ⟨'.' :: digits.taken ++ scale.taken, scale.rest⟩
  | _ => none

def hexTail? : List Char → Option Cut
  | x :: rest =>
    if x = 'x' ∨ x = 'X' then
      let digits := Cut.whileTrue isHexDigit rest
      if digits.taken = [] then none else some (digits.cons x)
    else none
  | [] => none

def numberTail (first : Char) (cs : List Char) : TokenKind × Cut :=
  let digits := Cut.whileTrue isDigit cs
  match fraction? digits.rest with
  | some cut => (.doubleLiteral, ⟨digits.taken ++ cut.taken, cut.rest⟩)
  | none =>
    match if first = '0' then hexTail? cs else none with
    | some cut => (.intLiteral, cut)
    | none => (.intLiteral, digits)

def nameKind (word : List Char) : TokenKind :=
  (TokenKind.keywords.lookup (String.ofList word)).getD .name

def mark? (cs : List Char) : Option (TokenKind × Nat) :=
  (TokenKind.marks.find? fun m => m.1.toList.isPrefixOf cs).map fun m =>
    (m.2, m.1.length)

/-- The part after a slash of the comment that it opens, if it opens one. -/
def commentTail? : List Char → Option (LexemeKind × Cut)
  | '*' :: rest => (blockTail? rest).map fun cut => (.blockComment, cut.cons '*')
  | '/' :: rest => some (.lineComment, (Cut.whileTrue (· ≠ '\n') rest).cons '/')
  | _ => none

def markTail? (first : Char) (cs : List Char) : Option (LexemeKind × Cut) :=
  (mark? (first :: cs)).map fun m =>
    (.token m.1, ⟨cs.take (m.2 - 1), cs.drop (m.2 - 1)⟩)

/-- The first lexeme of a text, given as its kind and the part of it after the
text's first character. -/
def munch? (first : Char) (cs : List Char) : Option (LexemeKind × Cut) :=
  if first = '\'' ∨ first = '"' then
    (stringTail? first cs).map fun cut => (.token .stringLiteral, cut)
  else if isDigit first then
    let (kind, cut) := numberTail first cs
    some (.token kind, cut)
  else if isNameStart first then
    let cut := Cut.whileTrue isNamePart cs
    some (.token (nameKind (first :: cut.taken)), cut)
  else if isSpace first then
    some (.blanks, Cut.whileTrue isSpace cs)
  else
    match if first = '/' then commentTail? cs else none with
    | some lexeme => some lexeme
    | none => markTail? first cs

theorem Cut.whileTrue_append (p : Char → Bool) (cs : List Char) :
    (Cut.whileTrue p cs).taken ++ (Cut.whileTrue p cs).rest = cs :=
  List.takeWhile_append_dropWhile

theorem stringTail?_append {mark : Char} {cut : Cut}
    (h : stringTail? mark cs = some cut) : cut.taken ++ cut.rest = cs := by
  fun_induction stringTail? mark cs generalizing cut with
  | case1 | case2 | case3 | case6 => simp at h
  | case4 c rest _ ih =>
    obtain ⟨inner, hinner, rfl⟩ := Option.map_eq_some_iff.1 h
    simp [Cut.cons, ih hinner]
  | case5 rest => cases h; simp
  | case7 c rest _ _ _ _ ih =>
    obtain ⟨inner, hinner, rfl⟩ := Option.map_eq_some_iff.1 h
    simp [Cut.cons, ih hinner]

theorem blockTail?_append {cut : Cut}
    (h : blockTail? cs = some cut) : cut.taken ++ cut.rest = cs := by
  fun_induction blockTail? cs generalizing cut with
  | case1 => simp at h
  | case2 rest => cases h; simp
  | case3 c rest _ ih =>
    obtain ⟨inner, hinner, rfl⟩ := Option.map_eq_some_iff.1 h
    simp [Cut.cons, ih hinner]

theorem exponent_append (cs : List Char) :
    (exponent cs).taken ++ (exponent cs).rest = cs := by
  unfold exponent
  split
  · rename_i e rest
    split
    · split
      · rename_i s rest'
        split
        · dsimp only
          split
          · rfl
          · simp [Cut.cons, Cut.whileTrue_append]
        · dsimp only
          split
          · rfl
          · simp [Cut.cons, Cut.whileTrue_append]
      · rfl
    · rfl
  · rfl

theorem fraction?_append {cut : Cut}
    (h : fraction? cs = some cut) : cut.taken ++ cut.rest = cs := by
  unfold fraction? at h
  split at h
  · rename_i rest
    dsimp only at h
    split at h
    · simp at h
    · cases h
      simp [exponent_append, Cut.whileTrue_append]
  · simp at h

theorem hexTail?_append {cut : Cut} (h : hexTail? cs = some cut) : cut.taken ++ cut.rest = cs := by
  unfold hexTail? at h
  split at h
  · rename_i x rest
    split at h
    · dsimp only at h
      split at h
      · simp at h
      · cases h
        simp [Cut.cons, Cut.whileTrue_append]
    · simp at h
  · simp at h

theorem numberTail_append (first : Char) (cs : List Char) :
    (numberTail first cs).2.taken ++ (numberTail first cs).2.rest = cs := by
  unfold numberTail
  dsimp only
  split
  · rename_i cut hcut
    simp [fraction?_append hcut, Cut.whileTrue_append]
  · split
    · rename_i cut hcut
      split at hcut
      · exact hexTail?_append hcut
      · simp at hcut
    · exact Cut.whileTrue_append _ _

theorem commentTail?_append {lexeme : LexemeKind × Cut} (h : commentTail? cs = some lexeme) :
    lexeme.2.taken ++ lexeme.2.rest = cs := by
  unfold commentTail? at h
  split at h
  · obtain ⟨cut, hcut, rfl⟩ := Option.map_eq_some_iff.1 h
    simp [Cut.cons, blockTail?_append hcut]
  · cases h
    simp [Cut.cons, Cut.whileTrue_append]
  · simp at h

theorem markTail?_append {first : Char} {lexeme : LexemeKind × Cut}
    (h : markTail? first cs = some lexeme) :
    lexeme.2.taken ++ lexeme.2.rest = cs := by
  obtain ⟨m, _, rfl⟩ := Option.map_eq_some_iff.1 h
  simp

/-- Nothing of a text is lost when its first lexeme is taken off. -/
theorem munch?_append {first : Char} {lexeme : LexemeKind × Cut}
    (h : munch? first cs = some lexeme) :
    lexeme.2.taken ++ lexeme.2.rest = cs := by
  unfold munch? at h
  split at h
  · obtain ⟨cut, hcut, rfl⟩ := Option.map_eq_some_iff.1 h
    exact stringTail?_append hcut
  · split at h
    · cases h
      exact numberTail_append first cs
    · split at h
      · cases h
        exact Cut.whileTrue_append _ _
      · split at h
        · cases h
          exact Cut.whileTrue_append _ _
        · split at h
          · rename_i found hfound
            cases h
            split at hfound
            · exact commentTail?_append hfound
            · simp at hfound
          · exact markTail?_append h

end Lexeme

end CheckedThrows
