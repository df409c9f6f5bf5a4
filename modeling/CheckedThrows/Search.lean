/-!
# Breadth-first search

A search starts from a queue and passes over what it has seen.  Every step
takes one item off the queue, so the length of the first queue plus the number
of edges is fuel enough.
-/

namespace CheckedThrows

def breadthFirst {α : Type} [DecidableEq α] (next : α → List α) :
    (fuel : Nat) → (seen queue : List α) → List α
  | 0, _, _ => []
  | _ + 1, _, [] => []
  | fuel + 1, seen, a :: queue =>
    if a ∈ seen then breadthFirst next fuel seen queue
    else a :: breadthFirst next fuel (a :: seen) (queue ++ next a)

end CheckedThrows
