import CheckedThrows.Text.Quoted
import CheckedThrows.Token.Scan

/-!
# Syntax errors and their messages

A message names what was met and where, and shows the line around it: at most
forty characters on either side, with a caret below the place.
-/

namespace CheckedThrows

inductive SyntaxError
  /-- No lexeme begins with this character. -/
  | noLexeme (c : Char) (place : Position)
  /-- This token cannot continue the text before it. -/
  | unexpectedToken (token : Token)
  /-- The text cannot end here; the place is that of its last token. -/
  | unexpectedEnd (place : Position)
  deriving DecidableEq, Repr

namespace SyntaxError

def place : SyntaxError → Position
  | .noLexeme _ place => place
  | .unexpectedToken token => token.extent.start
  | .unexpectedEnd place => place

def endsHeadline (c : Char) : Bool :=
  c = '\x0b' || c = '\x1c' || c = '\x1d' || c = '\x1e' || c = '\x85' ||
    c = '\u2028' || c = '\u2029'

def unexpected (label text : String) (place : Position) : Text :=
  ("Unexpected token Token('" : Text) ++ (label : Text) ++ ("', " : Text) ++
    (Text.ofString text).quoted ++ (") at line " : Text) ++ Text.ofNat place.line ++
    (", column " : Text) ++ Text.ofNat place.column ++ ("." : Text)

def headline : SyntaxError → Text
  | .noLexeme c place =>
    if endsHeadline c then "No terminal matches '"
    else
      ("No terminal matches '" : Text) ++ Text.ofChars [c] ++
        ("' in the current parser context, at line " : Text) ++
        Text.ofNat place.line ++ (" col " : Text) ++ Text.ofNat place.column
  | .unexpectedToken t => unexpected t.kind.label t.text t.extent.start
  | .unexpectedEnd place => unexpected "$END" "" place

/-- How far a text reaches when printed with tab stops at every eighth column,
as the reached column and the number of characters printed. -/
def tabbedWidth (cs : List Char) : Nat :=
  (cs.foldl (fun (column, width) c =>
    if c = '\t' then
      let gap := 8 - column % 8
      (column + gap, width + gap)
    else if c = '\r' then (0, width + 1)
    else (column + 1, width + 1)) (0, 0)).2

def context (source : List Char) (offset : Nat) : List Char :=
  let before := ((source.take offset).drop (offset - 40)).reverse.takeWhile (· ≠ '\n')
  let after := ((source.drop offset).take 40).takeWhile (· ≠ '\n')
  before.reverse ++ after ++ '\n' :: List.replicate (tabbedWidth before.reverse) ' ' ++ ['^']

def message (source : List Char) (e : SyntaxError) : Text :=
  e.headline ++ ("\n" : Text) ++ Text.ofChars (context source e.place.offset)

end SyntaxError

end CheckedThrows
