import CheckedThrows.Proofs.Contents
import CheckedThrows.Proofs.SiteFindings

/-!
# Traversals

A walk keeps the places that it has still to visit on a stack, and yet it visits
a tree in the order of the recursion over its children.  Nodes that look alike
are told apart by the way down to them, the indices of the children to go to:
there is one visit for each way, and the ways come in lexicographic order.

The walk over code leaves out metadata and what is below it, and nothing else.
-/

namespace CheckedThrows

open List

namespace Place

section
variable {keep : Node → Bool} {p : Place}

/-! ## Ways down -/

/-- A pre-order, described by the ways down to the places it visits. -/
structure WaysInOrder (keep : Node → Bool) (p : Place) (ways : List (List Nat)) : Prop where
  increasing : ways.Pairwise (· < ·)
  mem_iff : ∀ way, way ∈ ways ↔ (p.follow? keep way).isSome = true
  visited : ways.map (p.follow? keep) = (preorder keep p).map some

theorem pairwise_index_zipIdx {α : Type} (l : List α) :
    l.zipIdx.Pairwise fun a b => a.2 < b.2 := by
  rw [← pairwise_map (f := Prod.snd) (R := (· < ·)), zipIdx_map_snd]
  exact pairwise_lt_range'

theorem WaysInOrder.of_children {ways : Place → List (List Nat)}
    (hways : ∀ c ∈ p.children.filter fun c => keep c.node, WaysInOrder keep c (ways c)) :
    WaysInOrder keep p ([] :: (p.children.filter fun c => keep c.node).zipIdx.flatMap fun c =>
      (ways c.1).map (c.2 :: ·)) := by
  have hfollow : ∀ c ∈ (p.children.filter fun c => keep c.node).zipIdx, ∀ way,
      p.follow? keep (c.2 :: way) = c.1.follow? keep way := by
    intro c hc way
    rw [follow?, mem_zipIdx_iff_getElem?.mp hc, Option.bind_some]
  have hchild : ∀ c ∈ (p.children.filter fun c => keep c.node).zipIdx,
      WaysInOrder keep c.1 (ways c.1) := by
    intro c hc
    exact hways c.1 (mem_of_getElem? (mem_zipIdx_iff_getElem?.mp hc))
  constructor
  · refine pairwise_cons.mpr ⟨?_, pairwise_flatMap.mpr ⟨?_, ?_⟩⟩
    · intro way hway
      obtain ⟨c, -, hc⟩ := mem_flatMap.mp hway
      obtain ⟨rest, -, rfl⟩ := mem_map.mp hc
      exact nil_lt_cons c.2 rest
    · intro c hc
      refine pairwise_map.mpr ((hchild c hc).increasing.imp fun hlt => ?_)
      exact cons_lt_cons_self.mpr hlt
    · refine (pairwise_index_zipIdx _).imp fun hlt way hway way' hway' => ?_
      obtain ⟨rest, -, rfl⟩ := mem_map.mp hway
      obtain ⟨rest', -, rfl⟩ := mem_map.mp hway'
      exact cons_lt_cons_iff.mpr (.inl hlt)
  · intro way
    cases way with
    | nil => simp [follow?]
    | cons i way =>
      rw [mem_cons, mem_flatMap, follow?]
      constructor
      · rintro (hnil | ⟨c, hc, hway⟩)
        · cases hnil
        · obtain ⟨rest, hrest, heq⟩ := mem_map.mp hway
          obtain ⟨rfl, rfl⟩ := List.cons.inj heq
          rw [← follow?, hfollow c hc]
          exact ((hchild c hc).mem_iff rest).mp hrest
      · intro hsome
        obtain ⟨q, hq⟩ := Option.isSome_iff_exists.mp hsome
        obtain ⟨c, hc, hbelow⟩ := Option.bind_eq_some_iff.mp hq
        have hmem : (c, i) ∈ (p.children.filter fun c => keep c.node).zipIdx :=
          mem_zipIdx_iff_getElem?.mpr hc
        refine .inr ⟨(c, i), hmem, mem_map.mpr ⟨way, ?_, rfl⟩⟩
        exact ((hchild _ hmem).mem_iff way).mpr (Option.isSome_iff_exists.mpr ⟨q, hbelow⟩)
  · rw [preorder_eq, ← flatMap_filter_preorder, map_cons, map_cons, map_flatMap,
      map_flatMap]
    congr 1
    calc
      _ = (p.children.filter fun c => keep c.node).zipIdx.flatMap fun c =>
          (preorder keep c.1).map some := by
        refine flatMap_congr fun c hc => ?_
        rw [map_map, ← (hchild c hc).visited]
        exact map_congr_left fun way _ => hfollow c hc way
      _ = _ := by
        conv_rhs => rw [← zipIdx_map_fst 0 (p.children.filter fun c => keep c.node)]
        rw [flatMap_map]

theorem exists_waysInOrder (keep : Node → Bool) (p : Place) :
    ∃ ways, WaysInOrder keep p ways := by
  have hbelow : ∀ c ∈ p.children.filter fun c => keep c.node, ∃ ways, WaysInOrder keep c ways :=
    fun c hc => exists_waysInOrder keep c
  choose! ways hways using hbelow
  exact ⟨_, .of_children hways⟩
termination_by p.node.weight
decreasing_by exact weight_lt_of_mem_children (mem_of_mem_filter hc)

end

/-! ## Metadata -/

/-- Part of a subtree whose root is metadata and not the root of the tree. -/
def WithinMetadata (p : Place) : Prop :=
  ∃ parent slot entry, Under (.child parent slot (.metadatum entry)) p

def inMetadata : Place → Bool
  | .root _ => false
  | .child parent _ n => n.isMetadatum || parent.inMetadata

theorem inMetadata_iff (p : Place) : p.inMetadata = true ↔ p.WithinMetadata := by
  constructor
  · intro hp
    induction p with
    | root n => cases hp
    | child parent slot n ih =>
      rcases Bool.or_eq_true_iff.mp hp with hentry | hparent
      · cases n with
        | metadatum entry => exact ⟨parent, slot, entry, .self⟩
        | _ => cases hentry
      · obtain ⟨above, slot', entry, hunder⟩ := ih hparent
        exact ⟨above, slot', entry, .child slot n hunder⟩
  · rintro ⟨parent, slot, entry, hunder⟩
    induction hunder with
    | self => rfl
    | child slot' n _ ih => exact Bool.or_eq_true_iff.mpr (.inr ih)

instance : DecidablePred WithinMetadata :=
  fun p => decidable_of_iff (p.inMetadata = true) p.inMetadata_iff

theorem inMetadata_of_mem_children {p c : Place} (hc : c ∈ p.children) :
    c.inMetadata = (c.node.isMetadatum || p.inMetadata) := by
  obtain ⟨child, -, rfl⟩ := mem_children_iff.mp hc
  rfl

/-- Leaving out metadata while walking is leaving it out afterwards. -/
theorem filter_preorder (p : Place) :
    (preorder (fun _ => true) p).filter (fun q => !q.inMetadata) =
      if p.inMetadata then [] else preorder (fun n => !n.isMetadatum) p := by
  have hbelow : (p.children.flatMap (preorder fun _ => true)).filter (fun q => !q.inMetadata) =
      p.children.flatMap fun c =>
        if c.inMetadata then [] else preorder (fun n => !n.isMetadatum) c := by
    rw [filter_flatMap]
    exact flatMap_congr fun c hc => filter_preorder c
  rw [preorder_eq, filter_cons]
  simp only [if_true]
  rw [hbelow]
  cases hp : p.inMetadata with
  | true =>
    simp only [Bool.not_true, Bool.false_eq_true, if_false, if_true]
    rw [flatMap_eq_nil_iff]
    intro c hc
    rw [inMetadata_of_mem_children hc, hp, Bool.or_true, if_pos rfl]
  | false =>
    simp only [Bool.not_false, Bool.false_eq_true, if_false, if_true]
    rw [preorder_eq]
    congr 1
    refine flatMap_congr fun c hc => ?_
    rw [inMetadata_of_mem_children hc, hp, Bool.or_false]
    cases c.node.isMetadatum <;> rfl
termination_by p.node.weight
decreasing_by exact weight_lt_of_mem_children hc

theorem walkCode_eq_filter (root : Node) :
    walkCode root = (walk root).filter fun p => ¬p.WithinMetadata := by
  have hroot := filter_preorder (.root root)
  rw [inMetadata, if_neg Bool.false_ne_true, ← walk_eq_preorder, ← walkCode_eq_preorder] at hroot
  rw [← hroot]
  refine filter_congr fun p _ => ?_
  rw [Bool.eq_iff_iff, Bool.not_eq_true', Bool.eq_false_iff, decide_eq_true_eq, ne_eq,
    p.inMetadata_iff]

/-- A walk lists the nodes of a tree in the order of the recursion over children.  It
visits each way down once, in lexicographic order; and the walk over code is what is
left of it without the subtrees of metadata. -/
theorem walks_follow_recursion (root : Node) :
    (walk root).map node = root.nodes ∧
    (∃ ways : List (List Nat), ways.Pairwise (· < ·) ∧
      (∀ way, way ∈ ways ↔ ((Place.root root).follow? (fun _ => true) way).isSome = true) ∧
      ways.map ((Place.root root).follow? fun _ => true) = (walk root).map some) ∧
    walkCode root = (walk root).filter fun p => ¬p.WithinMetadata := by
  obtain ⟨ways, hways⟩ := exists_waysInOrder (fun _ => true) (.root root)
  refine ⟨walk_nodes root, ⟨ways, hways.increasing, hways.mem_iff, ?_⟩, walkCode_eq_filter root⟩
  rw [hways.visited, walk_eq_preorder]

end Place

end CheckedThrows
