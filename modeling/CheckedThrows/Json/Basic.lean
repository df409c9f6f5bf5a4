import CheckedThrows.Text.Hex
import CheckedThrows.Text.CodePoint

/-!
# JSON documents

Members of an object are in document order and have different keys: a key that
is repeated keeps its first place and its last value.  Numbers keep their
spelling.  `Json.render` writes a document on one line in ASCII.
-/

namespace CheckedThrows

inductive Json
  | null
  | bool (b : Bool)
  | number (spelling : String)
  | string (t : Text)
  | array (items : List Json)
  | object (members : List (Text × Json))
  deriving Inhabited

namespace Json

def ofNat (n : Nat) : Json := .number (toString n)

def ofInt (n : Int) : Json := .number (toString n)

def ofString (s : String) : Json := .string s

def ofOption {α : Type} (f : α → Json) : Option α → Json
  | none => .null
  | some a => f a

/-- Sets the value of a key: in its place if it is there, and at the end
otherwise. -/
def setMember (key : Text) (value : Json) : List (Text × Json) → List (Text × Json)
  | [] => [(key, value)]
  | (k, v) :: rest =>
    if k = key then (k, value) :: rest else (k, v) :: setMember key value rest

def unitEscape (n : Nat) : List Char :=
  '\\' :: 'u' :: hexDigits 4 n

/-- A code point inside a written string.  One beyond the first plane is
written as a pair of surrogates. -/
def escapedPoint (p : CodePoint) : List Char :=
  let n := p.val
  if n = 0x22 then ['\\', '"']
  else if n = 0x5C then ['\\', '\\']
  else if n = 0x0A then ['\\', 'n']
  else if n = 0x0D then ['\\', 'r']
  else if n = 0x09 then ['\\', 't']
  else if n = 0x08 then ['\\', 'b']
  else if n = 0x0C then ['\\', 'f']
  else if 0x20 ≤ n ∧ n ≤ 0x7E then [Char.ofNat n]
  else if n < 0x10000 then unitEscape n
  else
    let offset := n - 0x10000
    unitEscape (0xD800 + offset / 0x400) ++ unitEscape (0xDC00 + offset % 0x400)

def renderText (t : Text) : String :=
  String.ofList ('"' :: t.flatMap escapedPoint ++ ['"'])

mutual

def render : Json → String
  | .null => "null"
  | .bool true => "true"
  | .bool false => "false"
  | .number spelling => spelling
  | .string t => renderText t
  | .array items => "[" ++ renderItems items ++ "]"
  | .object members => "\x7b" ++ renderMembers members ++ "\x7d"

def renderItems : List Json → String
  | [] => ""
  | [item] => item.render
  | item :: rest => item.render ++ ", " ++ renderItems rest

def renderMembers : List (Text × Json) → String
  | [] => ""
  | [(key, value)] => renderText key ++ ": " ++ value.render
  | (key, value) :: rest =>
    renderText key ++ ": " ++ value.render ++ ", " ++ renderMembers rest

end

end Json

end CheckedThrows
