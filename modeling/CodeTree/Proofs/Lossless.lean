import CodeTree.Proofs.BuilderSteps
import CodeTree.Proofs.LoweringSource
import CodeTree.Proofs.Walks

/-!
# Nothing is lost

A tree that lowering gives has the source it was made from, and so have its leaves together. The
tree is valid, so its leaves are its source cut into pieces; what is left to show of lowering is
that this source is the one that was lowered.
-/

namespace CodeTree

namespace Tree

variable {tree : Tree}

theorem Valid.exists_texts (h : tree.Valid) {start stop : Nat} {nodes : List (Node tree)}
    (hc : Consecutive start (nodes.map (·.span)) stop) :
    ∃ texts, nodes.mapM Node.text = .ok texts ∧
      textBefore tree.source start ++ String.join texts = textBefore tree.source stop := by
  induction nodes generalizing start with
  | nil =>
    obtain rfl : start = stop := hc
    refine ⟨[], rfl, ?_⟩
    rw [String.join_nil, String.append_empty]
  | cons node rest ih =>
    obtain ⟨rfl, -, hrest⟩ := hc
    obtain ⟨texts, hok, hjoin⟩ := ih hrest
    have hrange : tree.covers node.span = true := (h.nodeSound node).range
    have hjoined : textBefore tree.source node.span.start ++ textAt tree.source node.span =
        textBefore tree.source node.span.stop := textBefore_append_textAt hrange
    have htext : node.text = .ok (textAt tree.source node.span) := h.text_eq node
    refine ⟨textAt tree.source node.span :: texts, ?_, ?_⟩
    · rw [List.mapM_cons, htext, hok]
      rfl
    · rw [String.join_cons, ← String.append_assoc]
      exact (congrArg (· ++ String.join texts) hjoined).trans hjoin

/-- The leaves of a valid tree put its source together. -/
theorem Valid.toSource_eq (h : tree.Valid) : tree.toSource = .ok tree.source := by
  obtain ⟨root, leaves, hroot, hleaves, hspans⟩ := h.leaves_root
  obtain ⟨texts, htexts, hjoin⟩ := h.exists_texts hspans
  rw [textBefore_zero, String.empty_append, sourceSize, textBefore_size] at hjoin
  rw [toSource, hroot]
  simp only [bind, Except.bind, hleaves, htexts, hjoin]
  rfl

end Tree

namespace Concrete

/-- Lowering is lossless. Whatever the nodes of a concrete tree are and however they lie, a tree
that lowering makes of it has the whole source, each byte of it in one leaf below the root. -/
theorem lower_lossless (language : Language) (source : String) (points : Bool) (root : Concrete)
    (h : root.OnBoundaries source) (tree : Tree)
    (ht : root.lower language source points = .ok tree) :
    tree.source = source ∧ tree.toSource = .ok source ∧
      ∃ top leaves, tree.root = .ok top ∧ top.leaves = .ok leaves ∧
        Consecutive 0 (leaves.map (·.span)) source.utf8ByteSize ∧
        ∀ offset < source.utf8ByteSize, leaves.countP (·.span.covers offset) = 1 := by
  rw [lower, Tree.ofEvents] at ht
  obtain ⟨-, -, -, hvalid, htree⟩ := Builder.finish_eq_ok_iff.1 ht
  have hsource : tree.source = source := by
    rw [htree]
    exact Lowering.source_run_events ⟨language, source⟩ points h
  have hall := hvalid.toSource_eq
  obtain ⟨top, leaves, htop, hleaves, hspans⟩ := hvalid.leaves_root
  rw [Tree.sourceSize, hsource] at hspans
  rw [hsource] at hall
  refine ⟨hsource, hall, top, leaves, htop, hleaves, hspans, fun offset hlt => ?_⟩
  have hcount := hspans.countP_covers offset
  rw [if_pos ⟨Nat.zero_le _, hlt⟩, List.countP_map] at hcount
  exact hcount

/-- Children that overlap and go back, and an error region that reaches behind its parent. -/
def scattered : Concrete :=
  .node ⟨"source_file", none, true, false, false, false, ⟨2, 11⟩⟩
    [.node ⟨"identifier", none, true, false, false, false, ⟨6, 9⟩⟩ [],
      .node ⟨"line_comment", none, true, true, false, false, ⟨0, 5⟩⟩ [],
      .node ⟨"ERROR", none, true, false, false, true, ⟨7, 13⟩⟩
        [.node ⟨"(", none, false, false, false, false, ⟨10, 11⟩⟩ [],
          .node ⟨")", none, false, false, false, false, ⟨8, 12⟩⟩ []]]

theorem lower_scattered :
    scattered.OnBoundaries "// é\nf(1) @@@" ∧
      ∃ tree, scattered.lower .rust "// é\nf(1) @@@" true = .ok tree ∧
        tree.source = "// é\nf(1) @@@" ∧ tree.toSource = .ok "// é\nf(1) @@@" := by
  have hb : scattered.OnBoundaries "// é\nf(1) @@@" := by decide +kernel
  obtain ⟨tree, ht⟩ : ∃ tree, scattered.lower .rust "// é\nf(1) @@@" true = .ok tree :=
    exists_of_isOk (by decide +kernel)
  obtain ⟨hsource, hall, -⟩ := lower_lossless .rust _ true scattered hb tree ht
  exact ⟨hb, tree, ht, hsource, hall⟩

end Concrete

end CodeTree
