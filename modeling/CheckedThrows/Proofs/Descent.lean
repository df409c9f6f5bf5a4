import CheckedThrows.Ast.Node
import Mathlib.Data.List.Nodup

/-!
# Descent to a place

A walk visits exactly the places that can be reached from its root through the
children it keeps.  This file turns the stack of the walk into that relation,
and records how the places on one way down are told apart by their depth.
-/

namespace CheckedThrows

open List

variable {p q r : Place}

namespace Node

theorem weight_le_totalWeight {c : Slot × Node} {ns : List (Slot × Node)} (hmem : c ∈ ns) :
    c.2.weight ≤ totalWeight ns := by
  induction ns with
  | nil => simp at hmem
  | cons n ns ih =>
    rw [totalWeight_cons]
    rcases mem_cons.mp hmem with heq | htail
    · subst n
      omega
    · have := ih htail
      omega

theorem weight_lt_of_mem_children {n : Node} {c : Slot × Node} (hmem : c ∈ n.children) :
    c.2.weight < n.weight :=
  Nat.lt_of_le_of_lt (weight_le_totalWeight hmem) (totalWeight_children_lt n)

end Node

namespace Place

variable {p q : Place} {keep : Node → Bool}

@[simp]
theorem node_child (p : Place) (slot : Slot) (n : Node) : (child p slot n).node = n := rfl

@[simp]
theorem slot_child (p : Place) (slot : Slot) (n : Node) : (child p slot n).slot = slot := rfl

theorem mem_children_iff : q ∈ p.children ↔ ∃ c ∈ p.node.children, q = .child p c.1 c.2 := by
  simp only [children, mem_map]
  constructor
  · rintro ⟨c, hc, rfl⟩
    exact ⟨c, hc, rfl⟩
  · rintro ⟨c, hc, rfl⟩
    exact ⟨c, hc, rfl⟩

theorem weight_lt_of_mem_children (hmem : q ∈ p.children) : q.node.weight < p.node.weight := by
  obtain ⟨c, hc, rfl⟩ := mem_children_iff.mp hmem
  exact Node.weight_lt_of_mem_children hc

/-- The places below a place that are reached through children to be kept; the
place itself is one of them. -/
inductive Reaches (keep : Node → Bool) (p : Place) : Place → Prop
  | self : Reaches keep p p
  | child {q r : Place} (above : Reaches keep p q) (isChild : r ∈ q.children)
      (isKept : keep r.node = true) : Reaches keep p r

theorem Reaches.trans (hpq : Reaches keep p q) (hqr : Reaches keep q r) : Reaches keep p r := by
  induction hqr with
  | self => exact hpq
  | child _ hchild hkept ih => exact .child ih hchild hkept

theorem Reaches.mono {keep keep' : Node → Bool} (hreach : Reaches keep p q)
    (hkeep : ∀ n, keep n = true → keep' n = true) : Reaches keep' p q := by
  induction hreach with
  | self => exact .self
  | child _ hchild hkept ih => exact .child ih hchild (hkeep _ hkept)

theorem Reaches.eq_or_child (hreach : Reaches keep p q) :
    q = p ∨ ∃ c ∈ p.children, keep c.node = true ∧ Reaches keep c q := by
  induction hreach with
  | self => exact .inl rfl
  | @child q r _ hchild hkept ih =>
    rcases ih with heq | ⟨c, hc, hkeep, hbelow⟩
    · subst q
      exact .inr ⟨r, hchild, hkept, .self⟩
    · exact .inr ⟨c, hc, hkeep, .child hbelow hchild hkept⟩

theorem mem_walkFrom_iff (keep : Node → Bool) (stack : List Place) (q : Place) :
    q ∈ walkFrom keep stack ↔ ∃ p ∈ stack, Reaches keep p q := by
  induction stack using walkFrom.induct keep with
  | case1 => simp [walkFrom]
  | case2 p stack ih =>
    rw [walkFrom, mem_cons, ih]
    constructor
    · rintro (rfl | ⟨r, hr, hreach⟩)
      · exact ⟨q, mem_cons_self, .self⟩
      · rcases mem_append.mp hr with hchild | hrest
        · obtain ⟨hmem, hkept⟩ := mem_filter.mp hchild
          exact ⟨p, mem_cons_self, (Reaches.child .self hmem hkept).trans hreach⟩
        · exact ⟨r, mem_cons_of_mem p hrest, hreach⟩
    · rintro ⟨r, hr, hreach⟩
      rcases mem_cons.mp hr with heq | hrest
      · subst r
        rcases hreach.eq_or_child with heq | ⟨c, hc, hkept, hbelow⟩
        · exact .inl heq
        · exact .inr ⟨c, mem_append_left _ (mem_filter.mpr ⟨hc, hkept⟩), hbelow⟩
      · exact .inr ⟨r, mem_append_right _ hrest, hreach⟩

theorem mem_walk_iff (root : Node) (q : Place) :
    q ∈ walk root ↔ Reaches (fun _ => true) (.root root) q := by
  simp [walk, mem_walkFrom_iff]

theorem mem_walkCode_iff (root : Node) (q : Place) :
    q ∈ walkCode root ↔ Reaches (fun n => !n.isMetadatum) (.root root) q := by
  simp [walkCode, mem_walkFrom_iff]

theorem mem_walk_of_mem_walkCode {root : Node} (hmem : q ∈ walkCode root) :
    q ∈ walk root := by
  rw [mem_walkCode_iff] at hmem
  rw [mem_walk_iff]
  exact hmem.mono fun _ _ => rfl

def follow? (keep : Node → Bool) (p : Place) : List Nat → Option Place
  | [] => some p
  | i :: way => ((p.children.filter fun c => keep c.node)[i]?).bind fun c => c.follow? keep way

theorem reaches_of_follow? {way : List Nat}
    (hq : p.follow? keep way = some q) : Reaches keep p q := by
  induction way generalizing p with
  | nil => exact Option.some.inj hq ▸ .self
  | cons i way ih =>
    obtain ⟨c, hc, hrest⟩ := Option.bind_eq_some_iff.mp hq
    obtain ⟨hchild, hkeep⟩ := mem_filter.mp (mem_of_getElem? hc)
    exact (Reaches.child .self hchild hkeep).trans (ih hrest)

/-! ## Places on one way down -/

def depth : Place → Nat
  | .root _ => 0
  | .child parent _ _ => parent.depth + 1

inductive Under (p : Place) : Place → Prop
  | self : Under p p
  | child {q : Place} (slot : Slot) (n : Node) (above : Under p q) : Under p (.child q slot n)

theorem depth_of_mem_children (hmem : q ∈ p.children) : q.depth = p.depth + 1 := by
  obtain ⟨c, _, rfl⟩ := mem_children_iff.mp hmem
  rfl

theorem Under.depth_le (hunder : Under p q) : p.depth ≤ q.depth := by
  induction hunder with
  | self => exact Nat.le_refl _
  | child slot n _ ih => exact Nat.le_succ_of_le ih

theorem Under.of_mem_children (hmem : q ∈ p.children) (hunder : Under q r) : Under p r := by
  induction hunder with
  | self =>
    obtain ⟨c, _, rfl⟩ := mem_children_iff.mp hmem
    exact .child c.1 c.2 .self
  | child slot n _ ih => exact .child slot n ih

theorem Under.eq_of_depth_eq
    (hp : Under p r) (hq : Under q r) (hdepth : p.depth = q.depth) : p = q := by
  induction hp with
  | self =>
    cases hq with
    | self => rfl
    | child slot n above =>
      have hle := above.depth_le
      simp only [depth] at hdepth
      omega
  | @child r slot n above ih =>
    cases hq with
    | self =>
      have hle := above.depth_le
      simp only [depth] at hdepth
      omega
    | child _ _ above' => exact ih above'

end Place

end CheckedThrows
