/-!
# Recursions that end

A recursion is given by its body, which asks for the answers it needs; it ends if
every chain of questions does.  Where the questions are of lower rank, any fuel
above the rank gives the answer.
-/

namespace CheckedThrows

/-- The recursion with this body ends at `a` with the answer `b`: it ends at
finitely many inputs, and what it ends with there settles what the body gives. -/
inductive Ends {α β : Type} (body : (α → β) → α → β) : α → β → Prop
  | answer {a : α} {b : β} (asked : List α) (answers : α → β)
      (ends : ∀ a' ∈ asked, Ends body a' (answers a'))
      (settles : ∀ f : α → β, (∀ a' ∈ asked, f a' = answers a') → body f a = b) :
      Ends body a b

/-- A body asks for nothing but what is listed, and that is of lower rank. -/
structure Descends {α β : Type} (body : (α → β) → α → β) (asked : α → List α) (rank : α → Nat) :
    Prop where
  lower : ∀ a, ∀ a' ∈ asked a, rank a' < rank a
  settles : ∀ a (f g : α → β), (∀ a' ∈ asked a, f a' = g a') → body f a = body g a

section
variable {α β : Type} {body : (α → β) → α → β} {asked : α → List α} {rank : α → Nat}
  {a : α} {b : β}

theorem Ends.eq_of_fixed {f : α → β} (hfixed : ∀ a, f a = body f a) (hends : Ends body a b) :
    b = f a := by
  induction hends with
  | @answer a b asked answers _ settles ih =>
    rw [hfixed a]
    exact (settles f fun a' ha' => (ih a' ha').symm).symm

namespace Descends

theorem congr_fuel (hbody : Descends body asked rank) (within : Nat → α → β)
    (hsucc : ∀ fuel a, within (fuel + 1) a = body (within fuel) a) {fuel fuel' : Nat}
    (hfuel : rank a < fuel) (hfuel' : rank a < fuel') : within fuel a = within fuel' a := by
  induction fuel generalizing fuel' a with
  | zero => exact absurd hfuel (Nat.not_lt_zero _)
  | succ fuel ih =>
    obtain ⟨fuel', rfl⟩ : ∃ n, fuel' = n + 1 := ⟨fuel' - 1, by omega⟩
    rw [hsucc, hsucc]
    apply hbody.settles
    intro a' ha'
    have hlower := hbody.lower a a' ha'
    exact ih (by omega) (by omega)

theorem ends_iff (hbody : Descends body asked rank) (within : Nat → α → β)
    (hsucc : ∀ fuel a, within (fuel + 1) a = body (within fuel) a) {fuel : Nat} (a : α) (b : β)
    (hfuel : rank a < fuel) : Ends body a b ↔ b = within fuel a := by
  -- With one unit of fuel more than its rank, every input has fuel enough.
  let f : α → β := fun a => within (rank a + 1) a
  have hfixed : ∀ a, f a = body f a := by
    intro a
    rw [show f a = within (rank a + 1) a from rfl, hsucc]
    apply hbody.settles
    intro a' ha'
    exact hbody.congr_fuel within hsucc (hbody.lower a a' ha') (Nat.lt_succ_self _)
  have hends : ∀ a, Ends body a (f a) := by
    intro a
    induction hrank : rank a using Nat.strongRecOn generalizing a with
    | _ n ih =>
      subst hrank
      refine .answer (asked a) f (fun a' ha' => ih _ (hbody.lower a a' ha') a' rfl) ?_
      intro g hg
      rw [hfixed a]
      exact hbody.settles a g f hg
  have hanswer : f a = within fuel a := hbody.congr_fuel within hsucc (Nat.lt_succ_self _) hfuel
  rw [← hanswer]
  constructor
  · exact fun h => h.eq_of_fixed hfixed
  · rintro rfl
    exact hends a

end Descends

end

end CheckedThrows
