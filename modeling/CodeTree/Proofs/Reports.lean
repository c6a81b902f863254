import CodeTree.Proofs.Lossless
import CodeTree.Proofs.Outcomes
import CodeTree.Proofs.Queries

/-!
# Reports on valid trees

A report on a valid tree never fails: its nodes have texts, its calls and functions can be read, its
s-expression ends, and its leaves spell its source (`Tree.Valid.failure_report`).
-/

namespace CodeTree

open CommandLine

namespace Tree

variable {tree : Tree} (path : String)

theorem Valid.exists_texts_of (h : tree.Valid) (nodes : List (Node tree)) :
    ∃ texts, nodes.mapM Node.text = .ok texts :=
  exists_mapM fun node _ => ⟨_, h.text_eq node⟩

theorem Valid.exists_callLine (h : tree.Valid) (call : CallParts tree) :
    ∃ line, callLine path call = .ok line := by
  obtain ⟨arguments, harguments⟩ := h.exists_texts_of call.arguments
  rw [callLine, h.text_eq, harguments]
  exact ⟨_, rfl⟩

theorem Valid.exists_functionLine (h : tree.Valid) (shape : FunctionParts tree) :
    ∃ line, functionLine path shape = .ok line := by
  obtain ⟨parameters, hparameters⟩ := h.exists_texts_of shape.parameters
  rw [functionLine, hparameters]
  exact ⟨_, rfl⟩

theorem failure_all_map {ε α : Type} {reads : List (Except ε α)} {part : Except ε α → Printed}
    (hread : ∀ read ∈ reads, ∃ value, read = .ok value)
    (hpart : ∀ value, (part (.ok value)).failure = none) :
    (Printed.all (reads.map part)).failure = none := by
  rw [Printed.failure_all_eq_none_iff]
  intro printed hm
  obtain ⟨read, hin, rfl⟩ := List.mem_map.1 hm
  obtain ⟨value, rfl⟩ := hread read hin
  exact hpart value

theorem Valid.failure_printCalls (h : tree.Valid) : (printCalls path tree).failure = none := by
  obtain ⟨calls, hcalls, hread⟩ := h.exists_calls
  rw [printCalls, hcalls]
  change (Printed.all (calls.map _)).failure = none
  apply failure_all_map hread
  intro call
  obtain ⟨line, hline⟩ := h.exists_callLine path call
  have hbind : (Except.ok call).bind (callLine path) = .ok line := hline
  rw [hbind]
  rfl

theorem Valid.failure_printFunctions (h : tree.Valid) :
    (printFunctions path tree).failure = none := by
  obtain ⟨functions, hfunctions, hread⟩ := h.exists_functions
  rw [printFunctions, hfunctions]
  change (Printed.all (functions.map _)).failure = none
  apply failure_all_map hread
  intro shape
  obtain ⟨line, hline⟩ := h.exists_functionLine path shape
  have hbind : (Except.ok shape).bind (functionLine path) = .ok line := hline
  rw [hbind]
  rfl

theorem Valid.failure_printExpression (h : tree.Valid) :
    (printExpression tree).failure = none := by
  obtain ⟨root, hroot, -⟩ := h.exists_root
  obtain ⟨text, htext⟩ := h.exists_expression (.root (id_of_root hroot))
  have hline : (do return Printed.line (← (← tree.root).expression) : Except TreeError _) =
      .ok (.line text) := by
    rw [hroot]
    exact congrArg (· >>= fun text => pure (Printed.line text)) htext
  rw [printExpression, hline]
  rfl

theorem Valid.failure_checkRoundTrip (h : tree.Valid) {files : FileTree}
    (hread : Parser.readText files path = .ok tree.source) :
    (checkRoundTrip path files tree).failure = none := by
  have hcheck : (do
      let source ← (Parser.readText files path).mapError Failure.parse
      if (← tree.toSource.mapError Failure.tree) = source then return Printed.nothing
      else .error (.roundTripMismatch path)) = .ok Printed.nothing := by
    rw [hread, h.toSource_eq]
    exact if_pos rfl
  rw [checkRoundTrip, hcheck]
  rfl

theorem Valid.failure_printers (h : tree.Valid) :
    ∀ entry ∈ printers path, (entry.2 tree).failure = none := by
  rw [printers]
  simp only [List.forall_mem_cons]
  exact ⟨h.failure_printExpression, rfl, h.failure_printCalls path,
    h.failure_printFunctions path, by simp⟩

/-- No report on a valid tree fails, whatever is asked for. -/
theorem Valid.failure_report (h : tree.Valid) {files : FileTree} (options : Options)
    (hread : Parser.readText files path = .ok tree.source) :
    (report path options files tree).failure = none := by
  rw [report, Printed.failure_andThen_eq_none_iff]
  constructor
  · split
    · exact h.failure_checkRoundTrip path hread
    · rfl
  · split
    · rfl
    · rw [Printed.failure_all_eq_none_iff]
      intro part hm
      obtain ⟨entry, hin, rfl⟩ := List.mem_map.1 hm
      exact h.failure_printers path entry (List.mem_of_mem_filter hin)

end Tree

end CodeTree
