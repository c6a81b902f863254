import CodeTree.CommandLine.Run

/-!
# Outcomes

Printing stops at the first part that fails, and the outcome of a run says whether one did. The
outcome of printing several parts is that of runs that print one part each, one after another until
one fails (`Printed.inTurn_all`).
-/

namespace CodeTree.CommandLine

namespace Printed

variable {printed first second : Printed} {parts rest : List Printed} {failure : Failure}

theorem all_cons : all (first :: rest) = first.andThen (all rest) := rfl

theorem all_singleton (printed : Printed) : all [printed] = printed := by
  obtain ⟨text, failure⟩ := printed
  cases failure with
  | none => simp [all, andThen, nothing]
  | some failure => rfl

theorem andThen_of_failure (h : first.failure ≠ none) : first.andThen second = first := by
  rw [andThen]
  cases hfailure : first.failure with
  | none => exact absurd hfailure h
  | some failure => rfl

theorem failure_andThen_eq_none_iff :
    (first.andThen second).failure = none ↔ first.failure = none ∧ second.failure = none := by
  rw [andThen]
  cases hfailure : first.failure with
  | none => simp
  | some failure => simp [hfailure]

theorem failure_all_eq_none_iff :
    (all parts).failure = none ↔ ∀ part ∈ parts, part.failure = none := by
  induction parts with
  | nil => simp [all, nothing]
  | cons first rest ih => rw [all_cons, failure_andThen_eq_none_iff, ih, List.forall_mem_cons]

theorem exists_of_failure_all (h : (all parts).failure = some failure) :
    ∃ part ∈ parts, part.failure = some failure := by
  induction parts with
  | nil => cases h
  | cons first rest ih =>
    rw [all_cons, andThen] at h
    cases hfirst : first.failure with
    | none =>
      rw [hfirst] at h
      obtain ⟨part, hm, hpart⟩ := ih h
      exact ⟨part, List.mem_cons_of_mem first hm, hpart⟩
    | some other =>
      rw [hfirst] at h
      exact ⟨first, List.mem_cons_self, h⟩

theorem output_ofPrinted (printed : Printed) :
    (Outcome.ofPrinted printed).output = printed.text := by
  rw [Outcome.ofPrinted]
  split <;> rfl

theorem code_ofPrinted (printed : Printed) :
    (Outcome.ofPrinted printed).code = if printed.failure = none then 0 else 1 := by
  rw [Outcome.ofPrinted]
  split <;> simp [*]

theorem errors_ofPrinted (printed : Printed) : (Outcome.ofPrinted printed).errors =
    (printed.failure.map fun failure => "Error: " ++ failure.message ++ "\n").getD "" := by
  rw [Outcome.ofPrinted]
  split <;> simp [*]

theorem code_eq_zero_iff : (Outcome.ofPrinted printed).code = 0 ↔ printed.failure = none := by
  rw [code_ofPrinted]
  split <;> simp [*]

end Printed

/-- Those of the outcomes that there are when no run follows one that failed. -/
def executed : List Outcome → List Outcome
  | [] => []
  | outcome :: rest => if outcome.code = 0 then outcome :: executed rest else [outcome]

/-- Whether an outcome is that of several runs one after another, until the first that fails: all
output, and the code and the errors of the last one. -/
structure Outcome.InTurn (outcome : Outcome) (runs : List Outcome) : Prop where
  output_eq : outcome.output = String.join ((executed runs).map (·.output))
  exists_last : ∃ last, (executed runs).getLast? = some last ∧ outcome.code = last.code ∧
    outcome.errors = last.errors

theorem Outcome.inTurn_single (outcome : Outcome) : outcome.InTurn [outcome] := by
  have hsingle : executed [outcome] = [outcome] := by
    rw [executed, executed]
    split <;> rfl
  refine ⟨?_, outcome, ?_, rfl, rfl⟩
  · rw [hsingle]
    simp [String.join]
  · rw [hsingle]
    rfl

namespace Printed

variable {first second : Printed} {parts : List Printed}

/-- Printing a part before others is a run before those of the others, unless it fails. -/
theorem inTurn_andThen {runs : List Outcome} (h : (Outcome.ofPrinted second).InTurn runs) :
    (Outcome.ofPrinted (first.andThen second)).InTurn (.ofPrinted first :: runs) := by
  by_cases hfailure : first.failure = none
  · obtain ⟨last, hlast, hcode, herrors⟩ := h.exists_last
    have hruns : executed (.ofPrinted first :: runs) = .ofPrinted first :: executed runs := by
      rw [executed, if_pos (code_eq_zero_iff.2 hfailure)]
    have hboth : first.andThen second = ⟨first.text ++ second.text, second.failure⟩ := by
      rw [andThen, hfailure]
    refine ⟨?_, last, ?_, ?_, ?_⟩
    · rw [hruns, List.map_cons, String.join_cons, ← h.output_eq, hboth]
      simp only [output_ofPrinted]
    · rw [hruns, List.getLast?_cons, hlast]
      rfl
    · rw [← hcode, hboth]
      simp only [code_ofPrinted]
    · rw [← herrors, hboth]
      simp only [errors_ofPrinted]
  · have hruns : executed (.ofPrinted first :: runs) = executed [.ofPrinted first] := by
      rw [executed, executed, if_neg (mt code_eq_zero_iff.1 hfailure),
        if_neg (mt code_eq_zero_iff.1 hfailure)]
    have hsingle := Outcome.inTurn_single (.ofPrinted first)
    rw [andThen_of_failure hfailure]
    exact ⟨hruns ▸ hsingle.output_eq, hruns ▸ hsingle.exists_last⟩

/-- Printing parts until the first failure is printing each of them in turn. -/
theorem inTurn_all (hne : parts ≠ []) :
    (Outcome.ofPrinted (all parts)).InTurn (parts.map .ofPrinted) := by
  induction parts with
  | nil => exact absurd rfl hne
  | cons first rest ih =>
    by_cases hnil : rest = []
    · rw [hnil, all_singleton]
      exact Outcome.inTurn_single _
    · exact inTurn_andThen (ih hnil)

end Printed

end CodeTree.CommandLine
