import CheckedThrows.Grammar.Reading
import CheckedThrows.Grammar.Starts

/-!
# Parsing by the grammar

A parser reads tokens from the front of a list.  It decides by the tokens in
front only and never goes back, so when it fails, the token in front is the
first one that no program can have after the tokens before it.  All symbols
are read by one function, which follows their readings and takes fuel: the
number of calls between two tokens that are read is bounded.
-/

namespace CheckedThrows

/-- The token in front when parsing failed; none at the end of the text. -/
abbrev Unexpected := Option Token

abbrev Parser := StateT (List Token) (Except Unexpected)

namespace Grammar

namespace Starts

def leads (a : Starts) : List Token → Bool
  | [] => false
  | t :: _ => a.heads.contains t.kind

/-- Whether to read the first of two alternatives.  The second token matters
only if both can start with a name. -/
def leadsBefore (a b : Starts) : List Token → Bool
  | [] => false
  | t :: ts =>
    a.heads.contains t.kind &&
      (t.kind ≠ .name || !b.heads.contains .name || a.kinds.contains .name ||
        ts.head?.any fun u => a.names.contains u.kind)

end Starts

namespace Parser

def fail {α : Type} : Parser α := fun ts => .error ts.head?

def token (kinds : List TokenKind) : Parser { t : Token // t.kind ∈ kinds }
  | [] => .error none
  | t :: ts => if h : t.kind ∈ kinds then .ok (⟨t, h⟩, ts) else .error (some t)

section Parts

variable {α β : Type}

def both (p : Parser α) (q : Parser β) : Parser (α × β) := do
  let x ← p
  let y ← q
  return (x, y)

def either (a b : Starts) (p : Parser α) (q : Parser β) : Parser (α ⊕ β) := do
  if a.leadsBefore b (← get) then return .inl (← p) else return .inr (← q)

def atMostOne (a : Starts) (p : Parser α) : Parser (Option α) := do
  if a.leads (← get) then return some (← p) else return none

def many (a : Starts) (p : Parser α) : Nat → Parser (List α)
  | 0 => pure []
  | fuel + 1 => do
    if a.leads (← get) then
      let x ← p
      return x :: (← many a p fuel)
    else return []

end Parts

def rhs (symbol : (s : Symbol) → Parser (Derivation s)) (fuel : Nat) :
    (r : Rhs) → Parser (Parts Derivation r)
  | .tok kinds => token kinds
  | .nt s => symbol s
  | .seq a b => both (rhs symbol fuel a) (rhs symbol fuel b)
  | .alt a b => either a.starts b.starts (rhs symbol fuel a) (rhs symbol fuel b)
  | .opt a => atMostOne a.starts (rhs symbol fuel a)
  | .star a => many a.starts (rhs symbol fuel a) fuel

def symbol : Nat → (s : Symbol) → Parser (Derivation s)
  | 0, _ => fail
  | fuel + 1, s => do
    let v ← rhs (symbol fuel) fuel (reading s)
    return Tree.node s (reshape s v)

/-- More than the greatest number of calls between two tokens that are read. -/
def callsPerToken : Nat := 32

def unit (tokens : List Token) : Except Unexpected (Derivation .unit) :=
  match symbol (callsPerToken * (tokens.length + 1)) .unit tokens with
  | .ok (d, []) => .ok d
  | .ok (_, t :: _) => .error (some t)
  | .error e => .error e

end Parser

end Grammar

end CheckedThrows
