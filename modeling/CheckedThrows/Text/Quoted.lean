import CheckedThrows.Text.Hex
import CheckedThrows.Text.Printable

/-!
# Quoted form

How messages show a text unambiguously: between single quotes, or between
double quotes when it holds a single quote and no double one.  The backslash,
the chosen quote and the three common controls have short escapes; everything
else that cannot be printed is written by its code.
-/

namespace CheckedThrows.Text

def quoteMark (t : Text) : CodePoint :=
  let single := CodePoint.ofChar '\''
  let double := CodePoint.ofChar '"'
  if single ∈ t ∧ double ∉ t then double else single

def codeEscape (n : Nat) : Text :=
  if n ≤ 0xFF then ofChars ('\\' :: 'x' :: hexDigits 2 n)
  else if n ≤ 0xFFFF then ofChars ('\\' :: 'u' :: hexDigits 4 n)
  else ofChars ('\\' :: 'U' :: hexDigits 8 n)

def quotedPoint (mark p : CodePoint) : Text :=
  if p = mark ∨ p = CodePoint.ofChar '\\' then [CodePoint.ofChar '\\', p]
  else if p = CodePoint.ofChar '\t' then "\\t"
  else if p = CodePoint.ofChar '\n' then "\\n"
  else if p = CodePoint.ofChar '\r' then "\\r"
  else if p.isPrintable then [p]
  else codeEscape p.val

def quoted (t : Text) : Text :=
  let mark := quoteMark t
  mark :: t.flatMap (quotedPoint mark) ++ [mark]

end CheckedThrows.Text
