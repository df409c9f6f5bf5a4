import CheckedThrows.Proofs.Subtyping
import Mathlib.Data.ENat.Lattice

/-!
# Supertypes, nearest first

A breadth-first search lists what it finds by growing distance from its start:
its queue consists of items of one level and, after them, of items of the next
one.  The supertypes of a class come from such a search, so they are listed by
their distance, with the topmost class at the end if no edges lead to it.
-/

namespace CheckedThrows

open List

section
variable {α : Type} {next : α → List α} {start a b : α}

def LeadsIn (next : α → List α) (start : α) : Nat → α → Prop
  | 0, a => a = start
  | n + 1, b => ∃ a, LeadsIn next start n a ∧ Edge next a b

noncomputable def distance (next : α → List α) (start a : α) : ℕ∞ :=
  ⨅ (n : ℕ) (_ : LeadsIn next start n a), (n : ℕ∞)

theorem distance_le {n : Nat} (hleads : LeadsIn next start n a) :
    distance next start a ≤ n :=
  iInf₂_le n hleads

theorem le_distance {depth : Nat} (hfar : ∀ n < depth, ¬LeadsIn next start n a) :
    depth ≤ distance next start a := by
  refine le_iInf₂ fun n hleads => ?_
  by_contra hlt
  exact hfar n (by simpa using hlt) hleads

theorem reaches_of_leadsIn {n : Nat} (hleads : LeadsIn next start n a) :
    Relation.ReflTransGen (Edge next) start a := by
  induction n generalizing a with
  | zero =>
    obtain rfl : a = start := hleads
    exact .refl
  | succ n ih =>
    obtain ⟨b, hb, hedge⟩ := hleads
    exact (ih hb).tail hedge

theorem distance_eq_top (hnot : ¬Relation.ReflTransGen (Edge next) start a) :
    distance next start a = ⊤ :=
  iInf₂_eq_top.mpr fun _ hleads => absurd (reaches_of_leadsIn hleads) hnot

/-! ## The levels of a search -/

/-- A search that has come to the level `depth`: the queue is `near ++ far`. -/
structure Frontier (next : α → List α) (start : α) (depth : Nat) (seen near far : List α) :
    Prop where
  near_level : ∀ a ∈ near, LeadsIn next start depth a
  far_level : ∀ a ∈ far, LeadsIn next start (depth + 1) a
  nearer_seen : ∀ n < depth, ∀ a, LeadsIn next start n a → a ∈ seen
  level_met : ∀ a, LeadsIn next start depth a → a ∈ seen ∨ a ∈ near
  edges_met : ∀ a ∈ seen, ∀ b ∈ next a, b ∈ seen ∨ b ∈ near ∨ b ∈ far

namespace Frontier

variable {depth : Nat} {seen near far : List α}

theorem first (next : α → List α) (start : α) :
    Frontier next start 1 [start] (next start) [] := by
  have hedge : ∀ a, LeadsIn next start 1 a ↔ a ∈ next start := by
    intro a
    simp [LeadsIn, Edge]
  constructor
  · exact fun a ha => (hedge a).mpr ha
  · simp
  · intro n hn a hleads
    obtain rfl : n = 0 := by omega
    exact mem_singleton.mpr hleads
  · exact fun a hleads => .inr ((hedge a).mp hleads)
  · intro a ha b hb
    rw [mem_singleton.mp ha] at hb
    exact .inr (.inl hb)

theorem pass (hfront : Frontier next start depth seen (a :: near) far) (hseen : a ∈ seen) :
    Frontier next start depth seen near far := by
  obtain ⟨hnear, hfar, hnearer, hlevel, hedges⟩ := hfront
  constructor
  · exact fun b hb => hnear b (mem_cons_of_mem a hb)
  · exact hfar
  · exact hnearer
  · intro b hleads
    rcases hlevel b hleads with hb | hb
    · exact .inl hb
    · rcases mem_cons.mp hb with rfl | hb
      · exact .inl hseen
      · exact .inr hb
  · intro b hb c hc
    rcases hedges b hb c hc with hc | hc | hc
    · exact .inl hc
    · rcases mem_cons.mp hc with rfl | hc
      · exact .inl hseen
      · exact .inr (.inl hc)
    · exact .inr (.inr hc)

theorem expand (hfront : Frontier next start depth seen (a :: near) far) :
    Frontier next start depth (a :: seen) near (far ++ next a) := by
  obtain ⟨hnear, hfar, hnearer, hlevel, hedges⟩ := hfront
  constructor
  · exact fun b hb => hnear b (mem_cons_of_mem a hb)
  · intro b hb
    rcases mem_append.mp hb with hb | hb
    · exact hfar b hb
    · exact ⟨a, hnear a mem_cons_self, hb⟩
  · exact fun n hn b hleads => mem_cons_of_mem a (hnearer n hn b hleads)
  · intro b hleads
    rcases hlevel b hleads with hb | hb
    · exact .inl (mem_cons_of_mem a hb)
    · rcases mem_cons.mp hb with rfl | hb
      · exact .inl mem_cons_self
      · exact .inr hb
  · intro b hb c hc
    rcases mem_cons.mp hb with rfl | hb
    · exact .inr (.inr (mem_append_right far hc))
    · rcases hedges b hb c hc with hc | hc | hc
      · exact .inl (mem_cons_of_mem a hc)
      · rcases mem_cons.mp hc with rfl | hc
        · exact .inl mem_cons_self
        · exact .inr (.inl hc)
      · exact .inr (.inr (mem_append_left _ hc))

theorem advance (hfront : Frontier next start depth seen [] far) :
    Frontier next start (depth + 1) seen far [] := by
  obtain ⟨-, hfar, hnearer, hlevel, hedges⟩ := hfront
  have hseen : ∀ a, LeadsIn next start depth a → a ∈ seen :=
    fun a hleads => (hlevel a hleads).resolve_right not_mem_nil
  constructor
  · exact hfar
  · simp
  · intro n hn a hleads
    rcases Nat.lt_succ_iff_lt_or_eq.mp hn with hlt | rfl
    · exact hnearer n hlt a hleads
    · exact hseen a hleads
  · rintro b ⟨a, hleads, hedge⟩
    rcases hedges a (hseen a hleads) b hedge with hb | hb | hb
    · exact .inl hb
    · exact absurd hb not_mem_nil
    · exact .inr hb
  · intro a ha b hb
    rcases hedges a ha b hb with hb | hb | hb
    · exact .inl hb
    · exact absurd hb not_mem_nil
    · exact .inr (.inl hb)

theorem le_distance_of_not_mem (hfront : Frontier next start depth seen near far)
    (hfresh : a ∉ seen) : depth ≤ distance next start a :=
  le_distance fun n hn hleads => hfresh (hfront.nearer_seen n hn a hleads)

end Frontier

/-! ## The order of a search -/

variable [DecidableEq α]

theorem nodup_breadthFirst (next : α → List α) (fuel : Nat) (seen queue : List α) :
    (breadthFirst next fuel seen queue).Nodup := by
  induction fuel generalizing seen queue with
  | zero => exact nodup_nil
  | succ fuel ih =>
    cases queue with
    | nil => exact nodup_nil
    | cons a queue =>
      rw [breadthFirst]
      split
      · exact ih seen queue
      · refine nodup_cons.mpr ⟨fun hmem => ?_, ih (a :: seen) (queue ++ next a)⟩
        exact not_mem_seen_of_mem_breadthFirst hmem mem_cons_self

theorem Frontier.pairwise_breadthFirst {depth : Nat} {seen near far : List α}
    (hfront : Frontier next start depth seen near far) (fuel : Nat) :
    (breadthFirst next fuel seen (near ++ far)).Pairwise fun a b =>
      distance next start a ≤ distance next start b := by
  induction fuel generalizing depth seen near far with
  | zero => exact List.Pairwise.nil
  | succ fuel ih =>
    -- The search looks at the front of the queue only, wherever its level ends.
    have hstep : ∀ {depth : Nat} {a : α} {near far : List α},
        Frontier next start depth seen (a :: near) far →
        (breadthFirst next (fuel + 1) seen (a :: (near ++ far))).Pairwise fun a b =>
          distance next start a ≤ distance next start b := by
      intro depth a near far hfront
      rw [breadthFirst]
      split
      next hseen => exact ih (hfront.pass hseen)
      next hfresh =>
        rw [append_assoc]
        refine pairwise_cons.mpr ⟨fun b hb => ?_, ih hfront.expand⟩
        calc
          distance next start a ≤ depth := distance_le (hfront.near_level a mem_cons_self)
          _ ≤ distance next start b :=
            hfront.expand.le_distance_of_not_mem (not_mem_seen_of_mem_breadthFirst hb)
    cases near with
    | cons a near => exact hstep hfront
    | nil =>
      cases far with
      | nil => exact List.Pairwise.nil
      | cons a far => simpa using hstep hfront.advance

end

namespace TypeTable

variable {t : TypeTable} {ty : TypeId}

theorem pairwise_reachable (t : TypeTable) (ty : TypeId) :
    (t.reachable ty).Pairwise fun a b =>
      distance t.supertypes ty a ≤ distance t.supertypes ty b := by
  have hpairwise := (Frontier.first t.supertypes ty).pairwise_breadthFirst
    ((t.supertypes ty).length + t.edgeCount + 1)
  rwa [append_nil] at hpairwise

theorem reaches_iff_mem_reachable {sup : TypeId} :
    Relation.ReflTransGen (Edge t.supertypes) ty sup ↔ sup ∈ ty :: t.reachable ty := by
  rw [mem_cons, mem_reachable_iff, Relation.reflTransGen_iff_eq_or_transGen]
  tauto

def farObject (t : TypeTable) (ty : TypeId) : Option TypeId :=
  t.object.filter (· ∉ ty :: t.reachable ty)

theorem farObject_eq_some_iff {sup : TypeId} :
    t.farObject ty = some sup ↔
      t.object = some sup ∧ ¬Relation.ReflTransGen (Edge t.supertypes) ty sup := by
  rw [farObject, Option.filter_eq_some_iff, decide_eq_true_eq, reaches_iff_mem_reachable]

theorem allSupertypes_eq (hclass : t.HasClass ty) :
    t.allSupertypes ty = .ok (t.reachable ty ++ (t.farObject ty).toList) := by
  obtain ⟨name, library, hdef⟩ := hclass
  rw [allSupertypes, farObject]
  cases t.object with
  | none => simp
  | some object =>
    by_cases hfound : object ∈ ty :: t.reachable ty
    · simp only [Option.filter_some, hfound, not_true, decide_false]
      simp
    · simp only [get, hdef, Option.filter_some, hfound, not_false_eq_true, decide_true]
      rfl

/-- The supertypes of a class are what its edges lead to and the topmost class, each
once, without the class itself, and by growing distance. -/
theorem allSupertypes_exact (hclass : t.HasClass ty) :
    ∃ found, t.allSupertypes ty = .ok found ∧ found.Nodup ∧ ty ∉ found ∧
      (∀ sup, sup ∈ found ↔ sup ≠ ty ∧
        (Relation.TransGen (Edge t.supertypes) ty sup ∨ t.object = some sup)) ∧
      found.Pairwise fun near far =>
        distance t.supertypes ty near ≤ distance t.supertypes ty far := by
  have hmem : ∀ sup, sup ∈ t.reachable ty ++ (t.farObject ty).toList ↔
      sup ≠ ty ∧ (Relation.TransGen (Edge t.supertypes) ty sup ∨ t.object = some sup) := by
    intro sup
    rw [mem_append, Option.mem_toList, farObject_eq_some_iff, mem_reachable_iff,
      Relation.reflTransGen_iff_eq_or_transGen]
    tauto
  refine ⟨_, allSupertypes_eq hclass, ?_, ?_, hmem, ?_⟩
  · refine nodup_append.mpr ⟨nodup_breadthFirst .., Option.pairwise_toList, ?_⟩
    rintro sup hfound _ hadded rfl
    have hfar := (farObject_eq_some_iff.mp (Option.mem_toList.mp hadded)).2
    exact hfar (reaches_iff_mem_reachable.mpr (mem_cons_of_mem ty hfound))
  · exact fun hself => ((hmem ty).mp hself).1 rfl
  · refine pairwise_append.mpr ⟨t.pairwise_reachable ty, Option.pairwise_toList, ?_⟩
    intro near _ far hadded
    have hfar := (farObject_eq_some_iff.mp (Option.mem_toList.mp hadded)).2
    calc
      distance t.supertypes ty near ≤ ⊤ := le_top
      _ = distance t.supertypes ty far := (distance_eq_top hfar).symm

/-! Classes in circles: two ways of two edges lead from the first class to the fourth,
one of them twice, and none leads to the topmost class. -/

def circles : TypeTable where
  defs := #[.class "A" none, .class "B" none, .class "C" none, .class "D" none,
    .class "Object" none]
  edges := [(1, [2, 3, 2]), (2, [4, 1]), (3, [4, 4, 2]), (4, [1, 3])]
  object := some 5

theorem allSupertypes_circles :
    circles.allSupertypes 1 = .ok [2, 3, 4, 5] ∧
      (∀ sup, sup ∈ [2, 3, 4, 5] ↔ sup ≠ 1 ∧
        (Relation.TransGen (Edge circles.supertypes) 1 sup ∨ circles.object = some sup)) ∧
      [2, 3, 4, 5].Pairwise fun near far =>
        distance circles.supertypes 1 near ≤ distance circles.supertypes 1 far := by
  have hclass : circles.HasClass 1 := ⟨"A", none, rfl⟩
  obtain ⟨found, hfound, -, -, hmem, hnearest⟩ := allSupertypes_exact hclass
  obtain rfl : [2, 3, 4, 5] = found := Except.ok.inj hfound
  exact ⟨hfound, hmem, hnearest⟩

end TypeTable

end CheckedThrows
