import CodeTree.Proofs.Lossless

/-!
# A valid tree reproduces its text

Whatever the order of its ids, a valid tree gives back its text: every node that is reached from the
root, also through alternatives, has the text of its leaves together. The walk of the whole tree
meets each node below the root once, in front of what is below the node and in the order of the
source.
-/

namespace CodeTree

namespace Tree

open Node

variable {tree : Tree}

/-- The leaves below a node with a depth have its text together. -/
theorem Valid.exists_leaf_texts (h : tree.Valid) {node : Node tree} {depth : Nat}
    (hd : AtDepth depth node) :
    ∃ leaves texts, node.leaves = .ok leaves ∧
      Consecutive node.span.start (leaves.map (·.span)) node.span.stop ∧
      leaves.mapM Node.text = .ok texts ∧ node.text = .ok (String.join texts) := by
  obtain ⟨leaves, hleaves, hspans⟩ := h.exists_leaves hd
  obtain ⟨texts, htexts, hjoin⟩ := h.exists_texts hspans
  have hrange : tree.covers node.span = true := (h.nodeSound node).range
  have htext : node.text = .ok (textAt tree.source node.span) := h.text_eq node
  have hwhole : textBefore tree.source node.span.start ++ textAt tree.source node.span =
      textBefore tree.source node.span.stop := textBefore_append_textAt hrange
  have heq : textAt tree.source node.span = String.join texts :=
    (String.append_right_inj _).1 (hwhole.trans hjoin.symm)
  rw [heq] at htext
  exact ⟨leaves, texts, hleaves, hspans, htexts, htext⟩

/-- A valid tree reproduces its text, whatever the order of its ids. The walk from the root visits
what is below it exactly once, no node behind one that it is above, and in the order of the source.
The leaves below any node that is reached through children and alternatives tile the node's span,
and their texts together are its text. -/
theorem Valid.reproduces (tree : Tree) (h : tree.Valid) :
    ∃ root nodes, tree.root = .ok root ∧ root.descendants = .ok nodes ∧ nodes.Nodup ∧
      (∀ node, node ∈ nodes ↔ root.Above node) ∧
      (nodes.Pairwise fun before after => ¬after.Above before) ∧
      (nodes.Pairwise fun before after => before.span.start ≤ after.span.start) ∧
      (∀ node, root.Reaches node → ∃ leaves texts, node.leaves = .ok leaves ∧
        Consecutive node.span.start (leaves.map (·.span)) node.span.stop ∧
        leaves.mapM Node.text = .ok texts ∧ node.text = .ok (String.join texts)) ∧
      tree.toSource = .ok tree.source := by
  obtain ⟨root, hroot, -⟩ := h.exists_root
  have hdepth : AtDepth 0 root := .root (id_of_root hroot)
  obtain ⟨nodes, hnodes, hlisted, hnodup, hpairwise⟩ := h.exists_descendants hdepth
  have hspan : Consecutive root.span.start ([root].map (·.span)) root.span.stop :=
    ⟨rfl, h.span_le root, rfl⟩
  refine ⟨root, nodes, hroot, hnodes, hnodup, fun node => ?_, hpairwise,
    (h.pairwise_start hlisted hspan).2, fun node hr => ?_, h.toSource_eq⟩
  · rw [hlisted.mem_iff, List.exists_mem_cons_iff]
    simp
  · obtain ⟨depth, hd⟩ := h.exists_depth_of_reaches hr hdepth
    exact h.exists_leaf_texts hd

/-- A tree of the source `aé` whose ids are in no order of its nodes. The variation point `4` stands
for `a`, which its alternative `2` has as a blot. -/
def scrambled : Tree :=
  .ofParts .rust "aé" #[⟨.special .parseError, ⟨0, 3⟩, none, [4, 1], [[4, 1]]⟩,
    ⟨.special .blot, ⟨1, 3⟩, some 0, [], []⟩,
    ⟨.special .parseError, ⟨0, 1⟩, some 4, [3], [[3]]⟩,
    ⟨.special .blot, ⟨0, 1⟩, some 2, [], []⟩,
    ⟨.special .variationPoint, ⟨0, 1⟩, some 0, [5], [[5], [2]]⟩,
    ⟨.special .errorTree, ⟨0, 1⟩, some 4, [], []⟩]

theorem reproduces_scrambled :
    scrambled.Valid ∧ ∃ root nodes, scrambled.root = .ok root ∧ root.descendants = .ok nodes ∧
      nodes.map (·.id) = [0, 4, 5, 1] ∧ nodes.Nodup ∧ scrambled.toSource = .ok "aé" := by
  have hv : scrambled.Valid := by decide +kernel
  obtain ⟨root, nodes, hroot, hnodes, hnodup, -, -, -, -, hsource⟩ := Valid.reproduces scrambled hv
  have hids : (scrambled.root >>= fun root => root.descendants.map fun nodes => nodes.map (·.id)) =
      .ok [0, 4, 5, 1] := by decide +kernel
  rw [hroot] at hids
  simp only [bind, Except.bind, hnodes, Except.map] at hids
  exact ⟨hv, root, nodes, hroot, hnodes, Except.ok.inj hids, hnodup, hsource⟩

end Tree

end CodeTree
