import CheckedThrows.Literal.Binary64
import CheckedThrows.Literal.StringContent

/-!
# Literals

A literal of the source text keeps its spelling.  Its value is a number, a
text, a truth value or nothing; whole numbers are unbounded, but a decimal
spelling has at most `maxDigits` digits, leading zeros counted.
-/

namespace CheckedThrows

inductive Value
  | null
  | bool (b : Bool)
  | int (n : Nat)
  /-- A binary64 number by its bit pattern. -/
  | double (bits : Nat)
  | string (t : Text)
  deriving DecidableEq, Repr

inductive Literal
  | null
  | bool (b : Bool)
  | int (spelling : String)
  | double (spelling : String)
  | string (spelling : String)
  deriving DecidableEq, Repr

/-- The greatest number of digits that a decimal may have to be read. -/
def maxDigits : Nat := 4300

structure OverlongInteger where
  digits : Nat
  deriving DecidableEq, Repr

def OverlongInteger.message (e : OverlongInteger) : String :=
  let limit := maxDigits
  let count := e.digits
  s!"Exceeds the limit ({limit} digits) for integer string conversion: " ++
    s!"value has {count} digits; use sys.set_int_max_str_digits() to increase the limit"

namespace Literal

def isHex (spelling : List Char) : Bool :=
  spelling.take 2 = ['0', 'x'] || spelling.take 2 = ['0', 'X']

def excessDigits? : Literal → Option Nat
  | .int spelling =>
    let cs := spelling.toList
    if !isHex cs && maxDigits < cs.length then some cs.length else none
  | _ => none

def intValue (spelling : String) : Nat :=
  let cs := spelling.toList
  if isHex cs then digitsValue 16 (cs.drop 2) else digitsValue 10 cs

def exponentValue (cs : List Char) : Int :=
  match cs with
  | '-' :: digits => -(digitsValue 10 digits : Int)
  | '+' :: digits => digitsValue 10 digits
  | digits => digitsValue 10 digits

def doubleBits (spelling : String) : Nat :=
  let isMark := fun c => c = 'e' || c = 'E'
  let significand := spelling.toList.takeWhile (!isMark ·)
  let exponent := (spelling.toList.dropWhile (!isMark ·)).drop 1
  let whole := significand.takeWhile (· ≠ '.')
  let fraction := (significand.dropWhile (· ≠ '.')).drop 1
  Binary64.ofDecimal (digitsValue 10 (whole ++ fraction))
    (exponentValue exponent - fraction.length)

def content (spelling : String) : List Char :=
  (spelling.toList.drop 1).dropLast

def valueWith (names : CharacterNames) : Literal → Value
  | .null => .null
  | .bool b => .bool b
  | .int spelling => .int (intValue spelling)
  | .double spelling => .double (doubleBits spelling)
  | .string spelling => .string (StringContent.decode names (content spelling))

def value : Literal → Value := valueWith .ruled

end Literal

end CheckedThrows
