/-!
# Totals

The sum of a measure over the items of a list.
-/

namespace CheckedThrows

def total {α : Type} (measure : α → Nat) : List α → Nat
  | [] => 0
  | a :: rest => measure a + total measure rest

theorem total_append {α : Type} (measure : α → Nat) (l l' : List α) :
    total measure (l ++ l') = total measure l + total measure l' := by
  induction l with
  | nil => exact (Nat.zero_add _).symm
  | cons a rest ih =>
    rw [List.cons_append, total, total, ih, Nat.add_assoc]

end CheckedThrows
