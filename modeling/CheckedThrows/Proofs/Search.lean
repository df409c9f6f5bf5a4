import CheckedThrows.Proofs.Recursions
import CheckedThrows.Search
import Mathlib.Data.List.Basic
import Mathlib.Logic.Relation

/-!
# What a breadth-first search finds

A search that has fuel enough finds exactly what can be reached from its queue
over items it has not seen.  Fuel is measured against `pending`, a bound on the
edges of the items not seen yet: expanding an item moves its edges from there
to the queue, and every other step shortens the queue.
-/

namespace CheckedThrows

open List

section

variable {fuel : Nat}
variable {α : Type} [DecidableEq α] {next : α → List α} {pending : List α → Nat}
  {seen queue : List α}

def Edge (next : α → List α) (a b : α) : Prop := b ∈ next a

def BoundsEdges (next : α → List α) (pending : List α → Nat) : Prop :=
  ∀ seen a, a ∉ seen → pending (a :: seen) + (next a).length ≤ pending seen

theorem not_mem_seen_of_mem_breadthFirst {a : α}
    (hmem : a ∈ breadthFirst next fuel seen queue) : a ∉ seen := by
  induction fuel generalizing seen queue with
  | zero => simp [breadthFirst] at hmem
  | succ fuel ih =>
    cases queue with
    | nil => simp [breadthFirst] at hmem
    | cons b queue =>
      rw [breadthFirst] at hmem
      split at hmem
      next => exact ih hmem
      next hfresh =>
        rcases mem_cons.mp hmem with rfl | htail
        · exact hfresh
        · exact fun hseen => ih htail (mem_cons_of_mem b hseen)

theorem exists_reaches_of_mem_breadthFirst {a : α}
    (hmem : a ∈ breadthFirst next fuel seen queue) :
    ∃ b ∈ queue, Relation.ReflTransGen (Edge next) b a := by
  induction fuel generalizing seen queue with
  | zero => simp [breadthFirst] at hmem
  | succ fuel ih =>
    cases queue with
    | nil => simp [breadthFirst] at hmem
    | cons b queue =>
      rw [breadthFirst] at hmem
      split at hmem
      · obtain ⟨c, hc, hreach⟩ := ih hmem
        exact ⟨c, mem_cons_of_mem b hc, hreach⟩
      · rcases mem_cons.mp hmem with rfl | htail
        · exact ⟨a, mem_cons_self, .refl⟩
        · obtain ⟨c, hc, hreach⟩ := ih htail
          rcases mem_append.mp hc with hold | hnew
          · exact ⟨c, mem_cons_of_mem b hold, hreach⟩
          · exact ⟨b, mem_cons_self, .head hnew hreach⟩

/-- With fuel enough, the queue is worked off, and so are the edges of all that
is found. -/
theorem breadthFirst_closed (hbound : BoundsEdges next pending)
    (hfuel : queue.length + pending seen ≤ fuel) :
    (∀ a ∈ queue, a ∈ seen ∨ a ∈ breadthFirst next fuel seen queue) ∧
      ∀ a ∈ breadthFirst next fuel seen queue, ∀ b ∈ next a,
        b ∈ seen ∨ b ∈ breadthFirst next fuel seen queue := by
  induction fuel generalizing seen queue with
  | zero =>
    have hempty : queue = [] := eq_nil_of_length_eq_zero (by omega)
    subst queue
    simp [breadthFirst]
  | succ fuel ih =>
    cases queue with
    | nil => simp [breadthFirst]
    | cons c queue =>
      rw [breadthFirst]
      rw [length_cons] at hfuel
      split
      next hseen =>
        obtain ⟨hqueue, hedges⟩ := @ih seen queue (by omega)
        refine ⟨?_, hedges⟩
        intro a ha
        rcases mem_cons.mp ha with rfl | htail
        · exact .inl hseen
        · exact hqueue a htail
      next hfresh =>
        have hspent := hbound seen c hfresh
        obtain ⟨hqueue, hedges⟩ :=
          @ih (c :: seen) (queue ++ next c) (by rw [length_append]; omega)
        -- what is seen in the rest of the search is seen before or found first
        have hshift : ∀ a, a ∈ c :: seen ∨
            a ∈ breadthFirst next fuel (c :: seen) (queue ++ next c) →
            a ∈ seen ∨ a ∈ c :: breadthFirst next fuel (c :: seen) (queue ++ next c) := by
          rintro a (hold | hfound)
          · rcases mem_cons.mp hold with rfl | hseen
            · exact .inr mem_cons_self
            · exact .inl hseen
          · exact .inr (mem_cons_of_mem c hfound)
        constructor
        · intro a ha
          rcases mem_cons.mp ha with rfl | htail
          · exact .inr mem_cons_self
          · exact hshift a (hqueue a (mem_append_left _ htail))
        · intro a ha b hb
          rcases mem_cons.mp ha with rfl | htail
          · exact hshift b (hqueue b (mem_append_right _ hb))
          · exact hshift b (hedges a htail b hb)

/-- One step of a search, from what it has seen and its queue. -/
def searchStep (next : α → List α) (search : List α × List α → List α) :
    List α × List α → List α
  | (_, []) => []
  | (seen, a :: queue) =>
    if a ∈ seen then search (seen, queue) else a :: search (a :: seen, queue ++ next a)

theorem breadthFirst_succ (fuel : Nat) (s : List α × List α) :
    breadthFirst next (fuel + 1) s.1 s.2 =
      searchStep next (fun s => breadthFirst next fuel s.1 s.2) s := by
  obtain ⟨seen, queue⟩ := s
  cases queue <;> rfl

def searched (next : α → List α) : List α × List α → List (List α × List α)
  | (_, []) => []
  | (seen, a :: queue) =>
    if a ∈ seen then [(seen, queue)] else [(a :: seen, queue ++ next a)]

theorem descends_searchStep (hbound : BoundsEdges next pending) :
    Descends (searchStep next) (searched next) fun s => s.2.length + pending s.1 where
  lower := by
    rintro ⟨seen, queue⟩ s hs
    cases queue with
    | nil => cases hs
    | cons a queue =>
      rw [searched] at hs
      split at hs
      next =>
        obtain rfl := mem_singleton.mp hs
        simp only [length_cons]
        omega
      next hfresh =>
        have hspent := hbound seen a hfresh
        obtain rfl := mem_singleton.mp hs
        simp only [length_cons, length_append]
        omega
  settles := by
    rintro ⟨seen, queue⟩ f g heq
    cases queue with
    | nil => rfl
    | cons a queue =>
      rw [searched] at heq
      rw [searchStep, searchStep]
      split at heq
      next hseen => rw [if_pos hseen, if_pos hseen, heq _ mem_cons_self]
      next hfresh => rw [if_neg hfresh, if_neg hfresh, heq _ mem_cons_self]

theorem breadthFirst_congr_fuel (hbound : BoundsEdges next pending) {fuel fuel' : Nat}
    {seen queue : List α} (hfuel : queue.length + pending seen < fuel)
    (hfuel' : queue.length + pending seen < fuel') :
    breadthFirst next fuel seen queue = breadthFirst next fuel' seen queue :=
  (descends_searchStep hbound).congr_fuel (a := (seen, queue))
    (fun fuel s => breadthFirst next fuel s.1 s.2) breadthFirst_succ hfuel hfuel'

theorem breadthFirst_map {β : Type} [DecidableEq β] {next' : β → List β} {rename : α → β}
    (hinj : Function.Injective rename) (hnext : ∀ a, next' (rename a) = (next a).map rename)
    (fuel : Nat) (seen queue : List α) :
    breadthFirst next' fuel (seen.map rename) (queue.map rename) =
      (breadthFirst next fuel seen queue).map rename := by
  induction fuel generalizing seen queue with
  | zero => rfl
  | succ fuel ih =>
    cases queue with
    | nil => rfl
    | cons a queue =>
      rw [map_cons, breadthFirst, breadthFirst]
      simp only [mem_map_of_injective hinj]
      split
      · exact ih seen queue
      · rw [hnext, ← map_cons, ← map_append, ih, map_cons]

theorem mem_breadthFirst_iff (hbound : BoundsEdges next pending) {a b : α}
    (hfuel : (next a).length + pending [a] ≤ fuel) :
    b ∈ breadthFirst next fuel [a] (next a) ↔ b ≠ a ∧ Relation.TransGen (Edge next) a b := by
  constructor
  · intro hmem
    constructor
    · have hnot := not_mem_seen_of_mem_breadthFirst hmem
      simpa using hnot
    · obtain ⟨c, hc, hreach⟩ := exists_reaches_of_mem_breadthFirst hmem
      exact .head' hc hreach
  · rintro ⟨hne, hreach⟩
    obtain ⟨hqueue, hedges⟩ := breadthFirst_closed hbound hfuel
    have hclosed : b ∈ [a] ∨ b ∈ breadthFirst next fuel [a] (next a) := by
      clear hne
      induction hreach with
      | single hedge => exact hqueue _ hedge
      | @tail b c _ hedge ih =>
        rcases ih with hstart | hfound
        · have heq : b = a := by simpa using hstart
          subst b
          exact hqueue c hedge
        · exact hedges b hfound c hedge
    rcases hclosed with hstart | hfound
    · exact absurd (by simpa using hstart) hne
    · exact hfound

theorem breadthFirst_filter (hbound : BoundsEdges next pending)
    (hfuel : queue.length + pending seen < fuel) :
    breadthFirst next fuel seen (queue.filter (· ∉ seen)) = breadthFirst next fuel seen queue := by
  induction fuel generalizing seen queue with
  | zero => rfl
  | succ fuel ih =>
    cases queue with
    | nil => rfl
    | cons a queue =>
      rw [length_cons] at hfuel
      have hless := length_filter_le (fun b => decide (b ∉ seen)) queue
      by_cases hseen : a ∈ seen
      · have hstep : breadthFirst next (fuel + 1) seen (a :: queue) =
            breadthFirst next fuel seen queue := if_pos hseen
        rw [filter_cons_of_neg (by simpa using hseen), hstep, ← ih (by omega)]
        exact breadthFirst_congr_fuel hbound (by omega) (by omega)
      · have hspent := hbound seen a hseen
        rw [filter_cons_of_pos (by simpa using hseen), breadthFirst, breadthFirst,
          if_neg hseen, if_neg hseen, ← ih (by rw [length_append]; omega),
          ← @ih _ (queue ++ next a) (by rw [length_append]; omega), filter_append,
          filter_append, filter_filter]
        congr 3
        apply filter_congr
        intro b _
        simp

theorem breadthFirst_irreflexive (hbound : BoundsEdges next pending)
    (hfuel : queue.length + pending seen < fuel) :
    breadthFirst (fun a => (next a).filter (· ≠ a)) fuel seen queue =
      breadthFirst next fuel seen queue := by
  induction fuel generalizing seen queue with
  | zero => rfl
  | succ fuel ih =>
    cases queue with
    | nil => rfl
    | cons a queue =>
      rw [length_cons] at hfuel
      rw [breadthFirst, breadthFirst]
      by_cases hseen : a ∈ seen
      · rw [if_pos hseen, if_pos hseen]
        exact ih (by omega)
      · have hspent := hbound seen a hseen
        have hless := length_filter_le (fun b => decide (b ≠ a)) (next a)
        have hqueue : ((queue ++ (next a).filter (· ≠ a)).filter (· ∉ a :: seen)) =
            (queue ++ next a).filter (· ∉ a :: seen) := by
          rw [filter_append, filter_append, filter_filter]
          congr 1
          apply filter_congr
          intro b _
          grind
        rw [if_neg hseen, if_neg hseen, ih (by rw [length_append]; omega),
          ← breadthFirst_filter hbound (by rw [length_append]; omega), hqueue,
          breadthFirst_filter hbound (by rw [length_append]; omega)]

end

end CheckedThrows
