import CheckedThrows.Grammar.Basic

/-!
# Derivations

A `Tree` says how a sequence of tokens follows from a right-hand side, and its
`yield` is that sequence.  What a tree has at its top can also be had as its
`Parts`, an ordinary tuple with a tree for every symbol; functions that look at
one rule at a time are written on those.
-/

namespace CheckedThrows.Grammar

inductive Tree : Rhs → Type
  | tok {kinds : List TokenKind} (t : Token) (isKind : t.kind ∈ kinds) : Tree (.tok kinds)
  | nt {s : Symbol} (body : Tree (rule s)) : Tree (.nt s)
  | seq {a b : Rhs} (x : Tree a) (y : Tree b) : Tree (.seq a b)
  | inl {a b : Rhs} (x : Tree a) : Tree (.alt a b)
  | inr {a b : Rhs} (y : Tree b) : Tree (.alt a b)
  | none {a : Rhs} : Tree (.opt a)
  | some {a : Rhs} (x : Tree a) : Tree (.opt a)
  | nil {a : Rhs} : Tree (.star a)
  | cons {a : Rhs} (x : Tree a) (xs : Tree (.star a)) : Tree (.star a)

abbrev Derivation (s : Symbol) : Type := Tree (.nt s)

def Tree.yield : {r : Rhs} → Tree r → List Token
  | _, .tok t _ => [t]
  | _, .nt body => body.yield
  | _, .seq x y => x.yield ++ y.yield
  | _, .inl x | _, .some x => x.yield
  | _, .inr y => y.yield
  | _, .none | _, .nil => []
  | _, .cons x xs => x.yield ++ xs.yield

/-- What matches a right-hand side, where a symbol `s` is matched by an
`M s`. -/
abbrev Parts (M : Symbol → Type) : Rhs → Type
  | .tok kinds => { t : Token // t.kind ∈ kinds }
  | .nt s => M s
  | .seq a b => Parts M a × Parts M b
  | .alt a b => Parts M a ⊕ Parts M b
  | .opt a => Option (Parts M a)
  | .star a => List (Parts M a)

namespace Tree

def parts : {r : Rhs} → Tree r → Parts Derivation r
  | _, .tok t isKind => (⟨t, isKind⟩ : { t : Token // t.kind ∈ _ })
  | _, .nt body => Tree.nt body
  | _, .seq x y => (x.parts, y.parts)
  | _, .inl x => Sum.inl x.parts
  | _, .inr y => Sum.inr y.parts
  | _, .none => Option.none
  | _, .some x => Option.some x.parts
  | _, .nil => List.nil
  | _, .cons x xs => List.cons x.parts xs.parts

def ofList {a : Rhs} {α : Type} (f : α → Tree a) : List α → Tree (.star a)
  | [] => .nil
  | x :: xs => .cons (f x) (ofList f xs)

def ofParts : (r : Rhs) → Parts Derivation r → Tree r
  | .tok _, t => .tok t.1 t.2
  | .nt _, d => d
  | .seq a b, v => .seq (ofParts a v.1) (ofParts b v.2)
  | .alt a _, Sum.inl v => .inl (ofParts a v)
  | .alt _ b, Sum.inr v => .inr (ofParts b v)
  | .opt _, Option.none => .none
  | .opt a, Option.some v => .some (ofParts a v)
  | .star a, vs => ofList (ofParts a) vs

def node (s : Symbol) (v : Parts Derivation (rule s)) : Derivation s :=
  .nt (ofParts (rule s) v)

end Tree

end CheckedThrows.Grammar
