import CodeTree.Proofs.TranslationSound
import Mathlib.Algebra.Group.Nat.Defs

/-!
# What lowering gives

Lowering a well-formed concrete tree builds the tree of its translation (`lower_eq_validated`), and
that tree is valid. So lowering fails in one case only: when there are more nodes than ids.
-/

namespace CodeTree

namespace Tree

theorem validated_of_idLimit_lt {tree : Tree} (h : idLimit < tree.size) :
    tree.validated = .error (.malformed (.special .parseError) none .tooManyNodes) := by
  have hsize : decide (tree.size ≤ idLimit) = false := decide_eq_false (Nat.not_le_of_lt h)
  rw [validated, validate, hsize]
  rfl

end Tree

namespace Concrete

open Outline

variable {language : Language} {source : String} {points : Bool} {root : Concrete}

/-- Lowering builds the tree of the translation and checks it. -/
theorem lower_eq_validated (h : root.WellFormed source) :
    root.lower language source points =
      ((Translation.root ⟨language, source⟩ points root).toTree language source).validated := by
  have hevents := Lowering.events_eq ⟨language, source⟩ points h
  have hwhole := Translation.whole_root ⟨language, source⟩ points h
  rw [lower, hevents]
  exact hwhole.rooted.ofEvents_events

theorem size_nodes_run (h : root.WellFormed source) :
    ((Builder.new language).run (Lowering.events ⟨language, source⟩ points root)).nodes.size =
      (Translation.root ⟨language, source⟩ points root).size := by
  have hevents := Lowering.events_eq ⟨language, source⟩ points h
  have hrun := (Translation.whole_root ⟨language, source⟩ points h).rooted.run_new
  rw [hevents, hrun, List.size_toArray, length_nodes]

theorem valid_translation_iff (h : root.WellFormed source) :
    ((Translation.root ⟨language, source⟩ points root).toTree language source).Valid ↔
      (Translation.root ⟨language, source⟩ points root).size ≤ Tree.idLimit := by
  have hwhole := Translation.whole_root ⟨language, source⟩ points h
  exact valid_toTree_iff hwhole.sound hwhole.span

theorem lower_eq_toTree (h : root.WellFormed source)
    (hn : (Translation.root ⟨language, source⟩ points root).size ≤ Tree.idLimit) :
    root.lower language source points =
      .ok ((Translation.root ⟨language, source⟩ points root).toTree language source) := by
  rw [lower_eq_validated h]
  exact Tree.validated_eq_ok_iff.2 ⟨(valid_translation_iff h).2 hn, rfl⟩

/-- Lowering a well-formed concrete tree succeeds, whatever it consists of, as long as fewer than
2 ^ 32 nodes are made. -/
theorem exists_lower_eq_ok (language : Language) (source : String) (points : Bool)
    (root : Concrete) (h : root.WellFormed source)
    (hn : ((Builder.new language).run
      (Lowering.events ⟨language, source⟩ points root)).nodes.size < 2 ^ 32) :
    ∃ tree, root.lower language source points = .ok tree := by
  rw [size_nodes_run h] at hn
  exact ⟨_, lower_eq_toTree h (Nat.le_of_lt_succ hn)⟩

/-- A call and an operator that cannot be parsed, with an empty node that the parser made up. -/
def callInError : Concrete :=
  .node ⟨"source_file", none, true, false, false, false, ⟨0, 14⟩⟩
    [.node ⟨"line_comment", none, true, true, false, false, ⟨0, 5⟩⟩ [],
      .node ⟨"ERROR", none, true, true, false, true, ⟨6, 14⟩⟩
        [.node ⟨"call_expression", none, true, false, false, false, ⟨6, 10⟩⟩
          [.node ⟨"identifier", some "function", true, false, false, false, ⟨6, 7⟩⟩ [],
            .node ⟨"arguments", some "arguments", true, false, false, false, ⟨7, 10⟩⟩
              [.node ⟨"(", none, false, false, false, false, ⟨7, 8⟩⟩ [],
                .node ⟨"integer_literal", none, true, false, false, false, ⟨8, 9⟩⟩ [],
                .node ⟨")", none, false, false, false, false, ⟨9, 10⟩⟩ []]],
          .node ⟨";", none, false, false, true, false, ⟨10, 10⟩⟩ []]]

theorem exists_lower_callInError :
    callInError.WellFormed "// é\nf(1) @@@" ∧
      ∃ tree, callInError.lower .rust "// é\nf(1) @@@" true = .ok tree :=
  ⟨by decide +kernel, exists_lower_eq_ok .rust "// é\nf(1) @@@" true callInError (by decide +kernel)
    (by decide +kernel)⟩

/-- Without variation points, lowering a well-formed concrete tree gives the tree of its translation
or reports that it has too many nodes. -/
theorem lower_eq_translation (language : Language) (source : String) (root : Concrete)
    (h : root.WellFormed source) :
    root.lower language source false =
      if (Translation.root ⟨language, source⟩ false root).size ≤ Tree.idLimit then
        .ok ((Translation.root ⟨language, source⟩ false root).toTree language source)
      else .error (.malformed (.special .parseError) none .tooManyNodes) := by
  by_cases hn : (Translation.root ⟨language, source⟩ false root).size ≤ Tree.idLimit
  · rw [if_pos hn, lower_eq_toTree h hn]
  · rw [if_neg hn, lower_eq_validated h]
    apply Tree.validated_of_idLimit_lt
    rw [size_toTree]
    exact Nat.lt_of_not_le hn

theorem lower_callInError :
    callInError.WellFormed "// é\nf(1) @@@" ∧
      callInError.lower .rust "// é\nf(1) @@@" false =
        .ok ((Translation.root ⟨.rust, "// é\nf(1) @@@"⟩ false callInError).toTree .rust
          "// é\nf(1) @@@") := by
  have hw : callInError.WellFormed "// é\nf(1) @@@" := by decide +kernel
  have hn : (Translation.root ⟨.rust, "// é\nf(1) @@@"⟩ false callInError).size ≤ Tree.idLimit := by
    decide +kernel
  refine ⟨hw, ?_⟩
  rw [lower_eq_translation .rust _ callInError hw, if_pos hn]

end Concrete

end CodeTree
