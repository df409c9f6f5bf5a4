import CheckedThrows.Text.Ranges

/-!
# Blank characters

The characters that count as white space in any script: Unicode `White_Space`
together with the four information separators.
-/

namespace CheckedThrows

def blankRanges : CodeRanges := [
  (9,13), (28,32), (133,133), (160,160), (5760,5760), (8192,8202), (8232,8233), (8239,8239),
  (8287,8287), (12288,12288)]

def isBlank (c : Char) : Bool :=
  blankRanges.contains c.toNat

def dropBlanks (cs : List Char) : List Char :=
  cs.dropWhile isBlank

def trimBlanks (cs : List Char) : List Char :=
  (dropBlanks (dropBlanks cs).reverse).reverse

end CheckedThrows
