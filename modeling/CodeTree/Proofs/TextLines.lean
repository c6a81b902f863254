import CodeTree.Proofs.FilePaths
import Mathlib.Algebra.Ring.Nat

/-!
# Lines of text

An output is written line by line, each with a newline behind it. Reading it line by line gives as
many lines as there are newlines, and so the lines that were written only if none of them has a
newline of its own (`linesOf_ended_eq_iff`).
-/

namespace CodeTree

def newlines (text : String) : Nat := text.toList.count '\n'

/-- The lines of a text in which every line ends with a newline. -/
def linesOf (text : String) : List String :=
  (Path.splitOn '\n' text.toList).dropLast.map String.ofList

def ended (lines : List String) : String := String.join (lines.map (· ++ "\n"))

@[simp] theorem newlines_append (first second : String) :
    newlines (first ++ second) = newlines first + newlines second := by
  rw [newlines, String.toList_append, List.count_append]
  rfl

theorem newlines_eq_zero_iff {text : String} : newlines text = 0 ↔ '\n' ∉ text.toList :=
  List.count_eq_zero

@[simp] theorem newlines_toString (n : Nat) : newlines (toString n) = 0 := by
  rw [newlines_eq_zero_iff, Nat.toString_eq_ofList_toDigits, String.toList_ofList]
  intro hm
  exact absurd (Nat.isDigit_of_mem_toDigits (by decide) (by decide) hm) (by decide)

theorem newlines_intercalate (separator : String) (hs : newlines separator = 0)
    (texts : List String) :
    newlines (separator.intercalate texts) = (texts.map newlines).sum := by
  induction texts with
  | nil => rfl
  | cons text rest ih =>
    cases rest with
    | nil => simp
    | cons second others =>
      rw [String.intercalate_cons_cons, newlines_append, newlines_append, hs, ih]
      simp

theorem length_splitOn (sep : Char) (chars : List Char) :
    (Path.splitOn sep chars).length = chars.count sep + 1 := by
  induction chars with
  | nil => rfl
  | cons c rest ih =>
    rw [Path.splitOn, List.count_cons]
    by_cases hc : c = sep
    · simp [hc, ih]
    · cases hs : Path.splitOn sep rest with
      | nil => exact absurd hs (Path.splitOn_ne_nil sep rest)
      | cons piece pieces =>
        rw [hs] at ih
        simpa [hc] using ih

theorem length_linesOf (text : String) : (linesOf text).length = newlines text := by
  rw [linesOf, List.length_map, List.length_dropLast, length_splitOn, Nat.add_sub_cancel]
  rfl

theorem ended_cons (line : String) (rest : List String) :
    ended (line :: rest) = line ++ "\n" ++ ended rest := by
  rw [ended, List.map_cons, String.join_cons]
  rfl

theorem ended_append (first second : List String) :
    ended (first ++ second) = ended first ++ ended second := by
  rw [ended, List.map_append, String.join_append]
  rfl

theorem linesOf_ended_cons {line : String} (h : newlines line = 0) (rest : List String) :
    linesOf (ended (line :: rest)) = line :: linesOf (ended rest) := by
  have hsplit : Path.splitOn '\n' (ended (line :: rest)).toList =
      line.toList :: Path.splitOn '\n' (ended rest).toList := by
    rw [ended_cons, String.append_assoc, String.toList_append, String.toList_append]
    have hnewline : "\n".toList ++ (ended rest).toList = '\n' :: (ended rest).toList := rfl
    rw [hnewline, Path.splitOn_append, Path.splitOn_of_not_mem (newlines_eq_zero_iff.1 h)]
    rfl
  rw [linesOf, hsplit, List.dropLast_cons_of_ne_nil (Path.splitOn_ne_nil _ _), List.map_cons,
    String.ofList_toList]
  rfl

theorem newlines_ended (lines : List String) :
    newlines (ended lines) = lines.length + (lines.map newlines).sum := by
  induction lines with
  | nil => rfl
  | cons line rest ih =>
    have hone : newlines "\n" = 1 := rfl
    rw [ended_cons, newlines_append, newlines_append, hone, ih, List.map_cons, List.sum_cons,
      List.length_cons]
    omega

/-- As many lines are read as were written just when no line has a newline of its own. -/
theorem length_linesOf_ended_eq_iff {lines : List String} :
    (linesOf (ended lines)).length = lines.length ↔ ∀ line ∈ lines, newlines line = 0 := by
  rw [length_linesOf, newlines_ended, Nat.add_eq_left, List.sum_eq_zero_iff_forall_eq_nat,
    List.forall_mem_map]

theorem linesOf_ended_eq_iff {lines : List String} :
    linesOf (ended lines) = lines ↔ ∀ line ∈ lines, newlines line = 0 := by
  constructor
  · intro h
    exact length_linesOf_ended_eq_iff.1 (congrArg List.length h)
  · intro h
    induction lines with
    | nil => rfl
    | cons line rest ih =>
      obtain ⟨hline, hrest⟩ := List.forall_mem_cons.1 h
      rw [linesOf_ended_cons hline, ih hrest]

end CodeTree
