/-!
# Text as code points

Source texts and names are ordinary strings.  A string literal, however, may
name a surrogate by an escape (`'\ud800'`), and so may a string of a JSON
document; such a value is a sequence of code points and not of characters.
`Text` holds these values, and every message that may quote one.
-/

namespace CheckedThrows

/-- A Unicode code point, surrogates included. -/
abbrev CodePoint := Fin 0x110000

abbrev Text := List CodePoint

theorem toNat_lt_of_char (c : Char) : c.toNat < 0x110000 := by
  have h := c.valid
  simp only [UInt32.isValidChar, Nat.isValidChar] at h
  simp only [Char.toNat]
  omega

def CodePoint.ofChar (c : Char) : CodePoint :=
  ⟨c.toNat, toNat_lt_of_char c⟩

/-- The character of a code point; a surrogate has none. -/
def CodePoint.toChar? (p : CodePoint) : Option Char :=
  if h : p.val.isValidChar then some (Char.ofNatAux p.val h) else none

/-- The code point with a number; numbers past the last one wrap around. -/
def CodePoint.ofNat (n : Nat) : CodePoint :=
  Fin.ofNat 0x110000 n

def CodePoint.isSurrogate (p : CodePoint) : Bool :=
  0xD800 ≤ p.val && p.val ≤ 0xDFFF

namespace Text

def ofChars (cs : List Char) : Text :=
  cs.map CodePoint.ofChar

def ofString (s : String) : Text :=
  ofChars s.toList

def toString? (t : Text) : Option String :=
  (t.mapM CodePoint.toChar?).map String.ofList

def intercalate (sep : Text) (parts : List Text) : Text :=
  (parts.intersperse sep).flatten

end Text

instance : Coe String Text := ⟨Text.ofString⟩

def Text.ofNat (n : Nat) : Text :=
  Text.ofChars (Nat.toDigits 10 n)

/-- The text of an integer in decimal, with a sign only below zero. -/
def Text.ofInt : Int → Text
  | .ofNat n => Text.ofNat n
  | .negSucc n => ("-" : Text) ++ Text.ofNat (n + 1)

end CheckedThrows
