import CheckedThrows.Json.Basic
import CheckedThrows.Literal.Basic
import CheckedThrows.Position

/-!
# Reading JSON documents

The reader accepts the numbers `NaN`, `Infinity` and `-Infinity` besides those
of the standard, and escapes of lone surrogates.  A fault is told with its
offset in the document; in a message the offset is also given as line and
column.  A whole number with too many digits is refused as such.
-/

namespace CheckedThrows.Json

structure SyntaxFault where
  reason : String
  offset : Nat
  deriving DecidableEq, Repr

def SyntaxFault.message (document : List Char) (f : SyntaxFault) : String :=
  let place := Position.start.advance (document.take f.offset)
  let line := place.line
  let column := place.column
  let offset := f.offset
  f.reason ++ s!": line {line} column {column} (char {offset})"

inductive ReadFault
  | malformed (fault : SyntaxFault)
  | overlong (fault : OverlongInteger)
  deriving DecidableEq, Repr

/-- The characters not yet read, and the offset of the first of them. -/
structure Cursor where
  rest : List Char
  offset : Nat

abbrev Reader := StateT Cursor (Except ReadFault)

namespace Reader

def failAt {α : Type} (reason : String) (offset : Nat) : Reader α := fun _ =>
  .error (.malformed ⟨reason, offset⟩)

def offset : Reader Nat := fun c => .ok (c.offset, c)

def peek : Reader (Option Char) := fun c => .ok (c.rest.head?, c)

def skip (n : Nat) : Reader Unit := fun c =>
  .ok ((), ⟨c.rest.drop n, c.offset + n⟩)

def isSpace (c : Char) : Bool :=
  c = ' ' || c = '\t' || c = '\n' || c = '\r'

def isDigit (c : Char) : Bool :=
  '0' ≤ c && c ≤ '9'

def skipSpaces : Reader Unit := fun c =>
  .ok ((), ⟨c.rest.dropWhile isSpace, c.offset + (c.rest.takeWhile isSpace).length⟩)

def shortEscape? : Char → Option Char
  | '"' => some '"'
  | '\\' => some '\\'
  | '/' => some '/'
  | 'b' => some '\x08'
  | 'f' => some '\x0c'
  | 'n' => some '\n'
  | 'r' => some '\r'
  | 't' => some '\t'
  | _ => none

/-- The code of four hexadecimal digits after which the document goes on. -/
def unitCode? (cs : List Char) : Option Nat :=
  let digits := cs.take 4
  if digits.length = 4 ∧ digits.all isHexDigit ∧ 4 < cs.length then
    some (digitsValue 16 digits)
  else none

def isHighSurrogate (n : Nat) : Bool := 0xD800 ≤ n && n ≤ 0xDBFF

def isLowSurrogate (n : Nat) : Bool := 0xDC00 ≤ n && n ≤ 0xDFFF

def joinSurrogates (high low : Nat) : CodePoint :=
  CodePoint.ofNat (0x10000 + (high - 0xD800) * 0x400 + (low - 0xDC00))

def badUnit {α : Type} (offset : Nat) : Reader α :=
  failAt "Invalid \\uXXXX escape" offset

/-- What an escape denotes, given the characters after its backslash, with how
many of them it takes; the backslash is at `offset`. -/
def escape (offset : Nat) (cs : List Char) : Reader (CodePoint × Nat) :=
  match cs with
  | 'u' :: digits =>
    match unitCode? digits with
    | none => badUnit (offset + 1)
    | some high =>
      match digits.drop 4 with
      | '\\' :: 'u' :: more =>
        if isHighSurrogate high && 4 < more.length then
          match unitCode? more with
          | none => badUnit (offset + 7)
          | some low =>
            if isLowSurrogate low then return (joinSurrogates high low, 11)
            else return (CodePoint.ofNat high, 5)
        else return (CodePoint.ofNat high, 5)
      | _ => return (CodePoint.ofNat high, 5)
  | c :: _ =>
    match shortEscape? c with
    | some e => return (CodePoint.ofChar e, 1)
    | none => failAt "Invalid \\escape" offset
  | [] => failAt "Invalid \\escape" offset

/-- The rest of a string after its opening quote, which is at `start`. -/
def stringTail : Nat → Nat → Reader Text
  | 0, start => failAt "Unterminated string starting at" start
  | fuel + 1, start => do
    let cursor ← get
    match cursor.rest with
    | [] => failAt "Unterminated string starting at" start
    | '"' :: _ => do
      skip 1
      return []
    | '\\' :: [] => failAt "Unterminated string starting at" start
    | '\\' :: after => do
      let (point, taken) ← escape cursor.offset after
      skip (taken + 1)
      return point :: (← stringTail fuel start)
    | c :: _ =>
      if c.toNat ≤ 0x1F then failAt "Invalid control character at" cursor.offset
      else do
        skip 1
        return CodePoint.ofChar c :: (← stringTail fuel start)

def string : Reader Text := do
  let cursor ← get
  skip 1
  stringTail cursor.rest.length cursor.offset

/-- Cuts a number off a text: its whole part with the sign, and whether a
fraction or an exponent follows, with the length of all of it. -/
def numberParts? (cs : List Char) : Option (List Char × Bool × Nat) :=
  let sign := cs.takeWhile (· = '-') |>.take 1
  let afterSign := cs.drop sign.length
  let whole :=
    match afterSign with
    | '0' :: _ => ['0']
    | digits => digits.takeWhile isDigit
  if whole.isEmpty then none
  else
    let afterWhole := afterSign.drop whole.length
    let fraction :=
      match afterWhole with
      | '.' :: digits =>
        let taken := digits.takeWhile isDigit
        if taken.isEmpty then 0 else taken.length + 1
      | _ => 0
    let exponent :=
      match afterWhole.drop fraction with
      | e :: rest =>
        if e = 'e' ∨ e = 'E' then
          let mark := (rest.take 1).filter fun c => c = '+' || c = '-'
          let taken := (rest.drop mark.length).takeWhile isDigit
          if taken.isEmpty then 0 else 1 + mark.length + taken.length
        else 0
      | [] => 0
    some (whole, 0 < fraction + exponent,
      sign.length + whole.length + fraction + exponent)

def number : Reader Json := do
  let cursor ← get
  match numberParts? cursor.rest with
  | none => failAt "Expecting value" cursor.offset
  | some (whole, isReal, length) =>
    if !isReal && maxDigits < whole.length then
      fun _ => .error (.overlong ⟨whole.length⟩)
    else do
      skip length
      return .number (String.ofList (cursor.rest.take length))

def words : List (String × Json) := [
  ("null", .null), ("true", .bool true), ("false", .bool false),
  ("NaN", .number "NaN"), ("Infinity", .number "Infinity"),
  ("-Infinity", .number "-Infinity")]

def word? : Reader (Option (String × Json)) := fun c =>
  .ok (words.find? fun w => w.1.toList.isPrefixOf c.rest, c)

mutual

def value : Nat → Reader Json
  | 0 => do failAt "Expecting value" (← offset)
  | fuel + 1 => do
    match ← peek with
    | some '"' => return .string (← string)
    | some '[' =>
      skip 1
      skipSpaces
      if (← peek) = some ']' then
        skip 1
        return .array []
      else
        return .array (← items fuel)
    | some c =>
      if c = '\x7b' then
        skip 1
        skipSpaces
        if (← peek) = some '\x7d' then
          skip 1
          return .object []
        else
          return .object (← members fuel [])
      else
        match ← word? with
        | some (spelling, v) =>
          skip spelling.length
          return v
        | none => number
    | none => failAt "Expecting value" (← offset)

def items : Nat → Reader (List Json)
  | 0 => do failAt "Expecting value" (← offset)
  | fuel + 1 => do
    let first ← value fuel
    skipSpaces
    match ← peek with
    | some ']' =>
      skip 1
      return [first]
    | some ',' =>
      skip 1
      skipSpaces
      return first :: (← items fuel)
    | _ => failAt "Expecting ',' delimiter" (← offset)

def members : Nat → List (Text × Json) → Reader (List (Text × Json))
  | 0, _ => do failAt "Expecting value" (← offset)
  | fuel + 1, soFar => do
    if (← peek) ≠ some '"' then
      failAt "Expecting property name enclosed in double quotes" (← offset)
    else
      let key ← string
      skipSpaces
      if (← peek) ≠ some ':' then failAt "Expecting ':' delimiter" (← offset)
      else
        skip 1
        skipSpaces
        let soFar := setMember key (← value fuel) soFar
        skipSpaces
        match ← peek with
        | some ',' =>
          skip 1
          skipSpaces
          members fuel soFar
        | some c =>
          if c = '\x7d' then
            skip 1
            return soFar
          else failAt "Expecting ',' delimiter" (← offset)
        | none => failAt "Expecting ',' delimiter" (← offset)

end

def document (fuel : Nat) : Reader Json := do
  if (← peek) = some '\ufeff' then
    failAt "Unexpected UTF-8 BOM (decode using utf-8-sig)" 0
  else
    skipSpaces
    let v ← value fuel
    skipSpaces
    if (← peek).isSome then failAt "Extra data" (← offset) else return v

end Reader

/-- Reads a document; one call is made for each value and each member, so
twice the length is fuel enough. -/
def read (text : List Char) : Except ReadFault Json := do
  let (v, _) ← (Reader.document (2 * text.length + 2)).run ⟨text, 0⟩
  return v

end CheckedThrows.Json
