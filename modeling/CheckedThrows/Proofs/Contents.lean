import CheckedThrows.Proofs.Everywhere

/-!
# The contents of a tree

`n.nodes` lists a node and everything below it, in pre-order.  It is what a
walk visits without the ways down, so whatever is counted or collected in a
tree can be computed child by child.
-/

namespace CheckedThrows

namespace Node

def nodes (n : Node) : List Node :=
  n :: n.children.attach.flatMap fun c => nodes c.1.2
termination_by n.weight
decreasing_by exact weight_lt_of_mem_children c.2

def nodesBelow (n : Node) : List Node :=
  n.children.flatMap fun c => c.2.nodes

theorem nodes_eq (n : Node) : n.nodes = n :: n.nodesBelow := by
  rw [nodes, List.flatMap_subtype (g := fun c => c.2.nodes) (fun _ _ => rfl),
    List.unattach_attach, nodesBelow]

end Node

namespace Place

theorem walkFrom_nodes (stack : List Place) :
    (walkFrom (fun _ => true) stack).map node = stack.flatMap fun p => p.node.nodes := by
  induction stack using walkFrom.induct (fun _ => true) with
  | case1 => simp [walkFrom]
  | case2 p stack ih =>
    rw [walkFrom, List.map_cons, ih, List.flatMap_cons, Node.nodes_eq, Node.nodesBelow]
    simp [children, List.flatMap_map]

theorem walk_nodes (root : Node) : (walk root).map node = root.nodes := by
  rw [walk, walkFrom_nodes]
  simp [node]

end Place

namespace Node

theorem all_iff_forall_mem_nodes {ok : Node → Prop} {n : Node} :
    n.All ok ↔ ∀ m ∈ n.nodes, ok m := by
  rw [← Place.walk_nodes, List.forall_mem_map]
  rfl

end Node

end CheckedThrows
