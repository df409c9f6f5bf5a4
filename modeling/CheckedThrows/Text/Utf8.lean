import CheckedThrows.Text.Hex

/-!
# Decoding UTF-8

Bytes are decoded strictly: overlong forms, surrogates and numbers past the
last code point are refused at the first byte that shows it.  A fault covers
the bytes of the sequence that are well formed so far.
-/

namespace CheckedThrows.Utf8

inductive Reason
  | startByte
  | continuation
  | truncated
  deriving DecidableEq, Repr

def Reason.text : Reason → String
  | .startByte => "invalid start byte"
  | .continuation => "invalid continuation byte"
  | .truncated => "unexpected end of data"

structure Fault where
  reason : Reason
  /-- Where the sequence starts, its first byte, and how many bytes it has. -/
  offset : Nat
  byte : UInt8
  length : Nat
  deriving DecidableEq, Repr

def Fault.message (f : Fault) : String :=
  let what :=
    if f.length = 1 then
      "byte 0x" ++ String.ofList (hexDigits 2 f.byte.toNat) ++ " in position " ++
        toString f.offset
    else
      "bytes in position " ++ toString f.offset ++ "-" ++ toString (f.offset + f.length - 1)
  "'utf-8' codec can't decode " ++ what ++ ": " ++ f.reason.text

def following? (first : Nat) : Option Nat :=
  if first < 0x80 then some 0
  else if first < 0xC2 then none
  else if first < 0xE0 then some 1
  else if first < 0xF0 then some 2
  else if first < 0xF5 then some 3
  else none

def allowsSecond (first second : Nat) : Bool :=
  let least := if first = 0xE0 then 0xA0 else if first = 0xF0 then 0x90 else 0x80
  let greatest := if first = 0xED then 0x9F else if first = 0xF4 then 0x8F else 0xBF
  least ≤ second && second ≤ greatest

def isContinuation (byte : Nat) : Bool :=
  0x80 ≤ byte && byte ≤ 0xBF

def leadingBits (first following : Nat) : Nat :=
  match following with
  | 0 => first
  | 1 => first % 0x20
  | 2 => first % 0x10
  | _ => first % 0x08

/-- Reads continuation bytes: `needed` of them are missing, `taken` bytes of
the sequence are read and give the number `value`. -/
def continuations (value taken : Nat) : (needed : Nat) → List UInt8 → Except (Reason × Nat) Nat
  | 0, _ => .ok value
  | _ + 1, [] => .error (.truncated, taken)
  | needed + 1, b :: rest =>
    if isContinuation b.toNat then
      continuations (value * 0x40 + b.toNat % 0x40) (taken + 1) needed rest
    else .error (.continuation, taken)

/-- The number of the code point at the front, and how many bytes follow the
first one; a fault is told with the number of bytes it covers. -/
def sequence (first : UInt8) (rest : List UInt8) : Except (Reason × Nat) (Nat × Nat) :=
  match following? first.toNat with
  | none => .error (.startByte, 1)
  | some following =>
    match rest with
    | second :: _ =>
      if following ≠ 0 && isContinuation second.toNat &&
          !allowsSecond first.toNat second.toNat then
        .error (.continuation, 1)
      else do
        let n ← continuations (leadingBits first.toNat following) 1 following rest
        return (n, following)
    | [] => do
      let n ← continuations (leadingBits first.toNat following) 1 following rest
      return (n, following)

def decodeFrom (offset : Nat) : List UInt8 → Except Fault (List Char)
  | [] => .ok []
  | b :: rest =>
    match sequence b rest with
    | .error (reason, length) => .error ⟨reason, offset, b, length⟩
    | .ok (n, following) => do
      return Char.ofNat n :: (← decodeFrom (offset + following + 1) (rest.drop following))
termination_by bytes => bytes.length
decreasing_by rw [List.length_drop, List.length_cons]; omega

def decode (bytes : List UInt8) : Except Fault (List Char) :=
  decodeFrom 0 bytes

end CheckedThrows.Utf8
