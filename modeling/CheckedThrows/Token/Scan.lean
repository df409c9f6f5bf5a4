import CheckedThrows.Text.Blank
import CheckedThrows.Token.Lexeme

/-!
# Scanning a source text

A scan cuts a text into lexemes until the text ends or no lexeme fits.  Tokens
and comments are read off the lexemes.
-/

namespace CheckedThrows

namespace Lexeme

def stop (l : Lexeme) : Position :=
  l.start.advance l.text

def extent (l : Lexeme) : Extent :=
  ⟨l.start, l.stop⟩

def token? (l : Lexeme) : Option Token :=
  match l.kind with
  | .token kind => some ⟨kind, String.ofList l.text, l.extent⟩
  | _ => none

end Lexeme

def linePrefix (source : List Char) (p : Position) : List Char :=
  ((source.take p.offset).reverse.takeWhile (· ≠ '\n')).reverse

def Lexeme.comment? (source : List Char) (l : Lexeme) : Option Comment :=
  match l.kind with
  | .lineComment =>
    some ⟨String.ofList l.text, l.extent, (linePrefix source l.start).all isBlank⟩
  | _ => none

/-- The lexemes of a text, and the character at which the scan is stuck with
its position, if there is one. -/
structure Scan where
  lexemes : List Lexeme
  stuck : Option (Position × Char)

namespace Scan

def cons (l : Lexeme) (s : Scan) : Scan :=
  { s with lexemes := l :: s.lexemes }

def startingAt (p : Position) : List Char → Scan
  | [] => ⟨[], none⟩
  | c :: cs =>
    match h : Lexeme.munch? c cs with
    | none => ⟨[], some (p, c)⟩
    | some (kind, cut) =>
      have : cut.rest.length < (c :: cs).length := by
        have := congrArg List.length (Lexeme.munch?_append h)
        simp only [List.length_cons, List.length_append] at this ⊢
        omega
      let text := c :: cut.taken
      (Scan.startingAt (p.advance text) cut.rest).cons ⟨kind, text, p⟩
termination_by cs => cs.length
decreasing_by exact this

theorem startingAt_cons {p : Position} {c : Char} {cs : List Char} {kind : LexemeKind}
    {cut : Lexeme.Cut} (h : Lexeme.munch? c cs = some (kind, cut)) :
    startingAt p (c :: cs) =
      (startingAt (p.advance (c :: cut.taken)) cut.rest).cons ⟨kind, c :: cut.taken, p⟩ := by
  rw [startingAt]
  split
  next hnone => simp [h] at hnone
  next kind' cut' hsome =>
    rw [h] at hsome
    cases hsome
    rfl

def of (source : List Char) : Scan :=
  Scan.startingAt Position.start source

def tokens (s : Scan) : List Token :=
  s.lexemes.filterMap Lexeme.token?

def comments (source : List Char) (s : Scan) : List Comment :=
  s.lexemes.filterMap (Lexeme.comment? source)

end Scan

end CheckedThrows
