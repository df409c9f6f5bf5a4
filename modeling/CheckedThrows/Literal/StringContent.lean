import CheckedThrows.Text.CharacterName

/-!
# The value of a string literal

Content without a backslash denotes itself.  Otherwise the content is taken as
the sequence of its UTF-8 bytes, each byte denotes the code point of its
number, and escapes are replaced by what they denote; an escape that is not
known denotes itself.  If an escape by code or by name is cut short or denotes no
code point, the whole content denotes itself.
-/

namespace CheckedThrows.StringContent

def byteChars (cs : List Char) : List Char :=
  cs.flatMap fun c => (String.utf8EncodeChar c).map fun b => Char.ofNat b.toNat

def isOctalDigit (c : Char) : Bool :=
  '0' ≤ c && c ≤ '7'

def simpleEscape? : Char → Option Char
  | '\\' => some '\\'
  | '\'' => some '\''
  | '"' => some '"'
  | 'a' => some '\x07'
  | 'b' => some '\x08'
  | 'f' => some '\x0c'
  | 'n' => some '\n'
  | 'r' => some '\r'
  | 't' => some '\t'
  | 'v' => some '\x0b'
  | _ => none

def codeWidth? : Char → Option Nat
  | 'x' => some 2
  | 'u' => some 4
  | 'U' => some 8
  | _ => none

def codePoint? (digits : List Char) (width : Nat) : Option CodePoint :=
  let n := digitsValue 16 digits
  if digits.length = width ∧ digits.all isHexDigit then
    if h : n < 0x110000 then some ⟨n, h⟩ else none
  else none

/-- The character that is named between braces, with how many characters that takes. -/
def braced? (names : CharacterNames) : List Char → Option (CodePoint × Nat)
  | '\x7b' :: rest =>
    let name := rest.takeWhile (· ≠ '\x7d')
    if name ≠ [] ∧ name.length < rest.length then
      (names.named? name).map fun p => (p, name.length + 2)
    else none
  | _ => none

/-- What an escape denotes, given the characters after its backslash, with how
many of them it takes. -/
def escape? (names : CharacterNames) : List Char → Option (Text × Nat)
  | [] => none
  | c :: rest =>
    match simpleEscape? c with
    | some e => some ([CodePoint.ofChar e], 1)
    | none =>
      if isOctalDigit c then
        let digits := c :: (rest.take 2).takeWhile isOctalDigit
        some ([CodePoint.ofNat (digitsValue 8 digits)], digits.length)
      else
        match codeWidth? c with
        | some width => (codePoint? (rest.take width) width).map fun p => ([p], width + 1)
        | none =>
          if c = 'N' then (braced? names rest).map fun (p, taken) => ([p], taken + 1)
          else some ([CodePoint.ofChar '\\', CodePoint.ofChar c], 1)

/-- The text that a content denotes if all its escapes are well formed. -/
def unescape? (names : CharacterNames) : List Char → Option Text
  | [] => some []
  | c :: rest =>
    if c = '\\' then
      match escape? names rest with
      | some (denoted, taken) => (unescape? names (rest.drop taken)).map (denoted ++ ·)
      | none => none
    else (unescape? names rest).map (CodePoint.ofChar c :: ·)
termination_by cs => cs.length
decreasing_by all_goals simp only [List.length_drop, List.length_cons]; omega

def decode (names : CharacterNames) (cs : List Char) : Text :=
  if '\\' ∈ cs then (unescape? names (byteChars cs)).getD (Text.ofChars cs)
  else Text.ofChars cs

end CheckedThrows.StringContent
