import CodeTree.Proofs.Arguments
import CodeTree.Proofs.FilePaths
import CodeTree.Proofs.Outcomes

/-!
# Runs on directories

A run on a directory does what runs on its files do one after another, until the first of them fails
(`run_directory`). What a run prints about a file depends on the switches and the language and not
on how the file was found (`run_file`), and printing stops where runs in turn stop.
-/

namespace CodeTree.CommandLine

variable {parser : Parser} {files : FileTree} {options : Options} {arguments : List String}
  {entries : List (String × FileTree)} {names : List String} {bytes : ByteArray}

open FileTree

def recognized (entries : List (String × FileTree)) : List (List String) :=
  (directory entries).files.filter fun names => (Language.ofNames? names).isSome

theorem map_filterMap_eq {α β γ : Type} {items : List α} {known : α → Bool} {f : α → Option β}
    {g : β → γ} {h : α → γ}
    (heq : ∀ item ∈ items, (f item).map g = if known item then some (h item) else none) :
    (items.filterMap f).map g = (items.filter known).map h := by
  rw [List.map_filterMap, List.filterMap_congr heq]
  clear heq
  induction items with
  | nil => rfl
  | cons item rest ih =>
    by_cases hknown : known item <;> simp [hknown, ih]

def input? (options : Options) (names : List String) : Option (String × Language) :=
  (Language.ofNames? names).map fun detected =>
    (names.foldl Path.join options.path, options.language.getD detected)

def inputsBelow (options : Options) (entries : List (String × FileTree)) :
    List (String × Language) :=
  (directory entries).files.filterMap (input? options)

theorem ofPath?_of_mem_files (hp : (directory entries).Proper)
    (hm : names ∈ (directory entries).files) (path : String) :
    Language.ofPath? (names.foldl Path.join path) = Language.ofNames? names := by
  obtain ⟨bytes, h⟩ := (mem_files _ _).1 hm
  refine Language.ofPath?_foldl_join ?_ (h.isName hp)
  rintro rfl
  cases h

theorem inputs_eq (hd : files.resolve options.path = .ok (.directory entries))
    (hp : (directory entries).Proper) : inputs options files =
      if inputsBelow options entries = [] then .error (.nothingToParse options.path)
      else .ok (inputsBelow options entries) := by
  have hfound : ((directory entries).files.map (·.foldl Path.join options.path)).filterMap
      (fun path => (Language.ofPath? path).map fun detected =>
        (path, options.language.getD detected)) = inputsBelow options entries := by
    rw [List.filterMap_map]
    refine List.filterMap_congr fun names hm => ?_
    rw [Function.comp_apply, ofPath?_of_mem_files hp hm]
    rfl
  rw [inputs, hd]
  simp only [hfound, List.isEmpty_iff]

theorem run_of_ofArguments (ha : Options.ofArguments arguments = .ok options) :
    run parser files arguments = .ofPrinted (printAll parser options files) := by
  rw [run, ha]

theorem printAll_of_inputs {list : List (String × Language)}
    (hinputs : inputs options files = .ok list) :
    printAll parser options files = .all (list.map (process parser options files)) := by
  rw [printAll, hinputs]
  rfl

theorem printAll_of_error {failure : Failure} (hinputs : inputs options files = .error failure) :
    printAll parser options files = .fail failure := by
  rw [printAll, hinputs]
  rfl

/-- The options of a run with the same switches and language on a file below a directory. -/
def Options.below (options : Options) (names : List String) : Options :=
  { options with path := names.foldl Path.join options.path }

theorem Options.Sound.below (h : options.Sound) (names : List String) :
    (options.below names).Sound := by
  refine ⟨?_, h.nodup_switches⟩
  obtain ⟨after, hafter⟩ := Path.exists_toList_foldl_join options.path names
  rw [Options.below, ← String.toList_eq_nil_iff.ne, hafter]
  exact List.append_ne_nil_of_left_ne_nil (String.toList_eq_nil_iff.ne.2 h.path_ne_empty) after

/-- The run on one of the files below a directory prints what the run on the directory prints about
that file. -/
theorem run_file (hd : files.resolve options.path = .ok (.directory entries))
    (hp : (directory entries).Proper) (hm : names ∈ (directory entries).files)
    {input : String × Language} (hinput : input? options names = some input)
    (ha : Options.ofArguments arguments = .ok (options.below names)) :
    run parser files arguments = .ofPrinted (process parser options files input) := by
  obtain ⟨bytes, h⟩ := (mem_files _ _).1 hm
  obtain ⟨detected, hdetected, rfl⟩ := Option.map_eq_some_iff.1 hinput
  have hinputs : inputs (options.below names) files =
      .ok [(names.foldl Path.join options.path, options.language.getD detected)] := by
    rw [inputs, Options.below, h.resolve_join hp hd]
    simp only [ofPath?_of_mem_files hp hm, hdetected]
    cases options.language <;> rfl
  rw [run_of_ofArguments ha, printAll_of_inputs hinputs, List.map_singleton,
    Printed.all_singleton]
  rfl

theorem mem_recognized : names ∈ recognized entries ↔
    (∃ bytes, (directory entries).HasFile names bytes) ∧ (Language.ofNames? names).isSome := by
  rw [recognized, List.mem_filter, mem_files]

theorem map_fst_inputs (options : Options) (entries : List (String × FileTree)) :
    (inputsBelow options entries).map (·.1) =
      (recognized entries).map (·.foldl Path.join options.path) := by
  refine map_filterMap_eq fun names _ => ?_
  rw [input?]
  cases Language.ofNames? names <;> rfl

theorem inputsBelow_eq_nil_iff : inputsBelow options entries = [] ↔ recognized entries = [] := by
  rw [← List.map_eq_nil_iff (f := (·.1)), map_fst_inputs, List.map_eq_nil_iff]

theorem map_process_inputs (hd : files.resolve options.path = .ok (.directory entries))
    (hp : (directory entries).Proper) {single : List String → List String}
    (hs : ∀ names ∈ recognized entries,
      Options.ofArguments (single names) = .ok (options.below names)) :
    (inputsBelow options entries).map (Outcome.ofPrinted ∘ process parser options files) =
      (recognized entries).map fun names => run parser files (single names) := by
  refine map_filterMap_eq fun names hm => ?_
  cases hinput : input? options names with
  | none =>
    rw [if_neg (by rw [Option.map_eq_none_iff.1 hinput]; exact Bool.false_ne_true)]
    rfl
  | some input =>
    obtain ⟨detected, hdetected, -⟩ := Option.map_eq_some_iff.1 hinput
    have hknown : (Language.ofNames? names).isSome := by
      rw [hdetected]
      rfl
    rw [if_pos hknown, run_file hd hp hm hinput (hs names (List.mem_filter.2 ⟨hm, hknown⟩))]
    rfl

/-- A run on a directory parses the files below it that have a known extension, each once, in the
order of their paths compared name by name. It does what runs with the same switches and language on
these files do in turn, where there are arguments for each; without such files it fails. -/
theorem run_directory (parser : Parser) (ha : Options.ofArguments arguments = .ok options)
    (hd : files.resolve options.path = .ok (.directory entries))
    (hp : (directory entries).Proper) :
    ∃ found : List (List String), found.Pairwise Path.Before ∧ found.Nodup ∧
      (∀ names, names ∈ found ↔ (∃ bytes, (directory entries).HasFile names bytes) ∧
        (Language.ofNames? names).isSome) ∧
      (found = [] →
        (run parser files arguments).code = 1 ∧ (run parser files arguments).output = "") ∧
      (found ≠ [] → ∃ list, inputs options files = .ok list ∧
        list.map (·.1) = found.map (·.foldl Path.join options.path)) ∧
      (∀ names, Options.ofArguments (options.below names).spelled = .ok (options.below names)) ∧
      ∀ single : List String → List String, found ≠ [] →
        (∀ names ∈ found, Options.ofArguments (single names) = .ok (options.below names)) →
        (run parser files arguments).InTurn
          (found.map fun names => run parser files (single names)) := by
  have hinputs := inputs_eq hd hp
  simp only [inputsBelow_eq_nil_iff] at hinputs
  have hordered : (recognized entries).Pairwise Path.Before := hp.pairwise_files.filter _
  refine ⟨recognized entries, hordered, ?_, fun names => mem_recognized, ?_, ?_, ?_, ?_⟩
  · exact hp.nodup_files.filter _
  · intro hnil
    rw [if_pos hnil] at hinputs
    rw [run_of_ofArguments ha, printAll_of_error hinputs]
    exact ⟨rfl, rfl⟩
  · intro hne
    rw [if_neg hne] at hinputs
    exact ⟨_, hinputs, map_fst_inputs options entries⟩
  · intro names
    exact ((Options.sound_of_ofArguments ha).below names).ofArguments_spelled
  · intro single hne hs
    rw [if_neg hne] at hinputs
    rw [run_of_ofArguments ha, printAll_of_inputs hinputs, ← map_process_inputs hd hp hs,
      ← List.map_map]
    apply Printed.inTurn_all
    rwa [Ne, List.map_eq_nil_iff, inputsBelow_eq_nil_iff]

def nestedEntries : List (String × FileTree) :=
  [("a.c", .file "f(1)".toUTF8), ("notes.txt", .file "none".toUTF8),
    ("a", .directory [("b.c", .file "g(2)".toUTF8), ("b.h", .file "".toUTF8)])]

def nestedFiles : FileTree := directory [("src", directory nestedEntries)]

def flatParser : Parser := fun _ source =>
  some (.node ⟨"translation_unit", none, true, false, false, false, ⟨0, source.utf8ByteSize⟩⟩ [])

theorem run_directory_nested :
    (directory nestedEntries).Proper ∧ ∃ found : List (List String),
      found.Pairwise Path.Before ∧ ["a", "b.c"] ∈ found ∧ ["a.c"] ∈ found ∧
      ["notes.txt"] ∉ found ∧
      (run flatParser nestedFiles ["--calls", "src/"]).InTurn (found.map fun names =>
        run flatParser nestedFiles ["--calls", "--", names.foldl Path.join "src/"]) := by
  have hp : (directory nestedEntries).Proper := by
    simp only [nestedEntries, Proper, ProperEntries]
    decide
  have ha : Options.ofArguments ["--calls", "src/"] = .ok ⟨"src/", none, [.calls], 0⟩ := rfl
  have hd : nestedFiles.resolve "src/" = .ok (directory nestedEntries) := rfl
  obtain ⟨found, hordered, -, hfound, -, -, hspelled, hrun⟩ := run_directory flatParser ha hd hp
  have hbelow : (directory nestedEntries).HasFile ["a", "b.c"] "g(2)".toUTF8 :=
    .within (.tail _ (.tail _ (.head _))) (.within (.head _) (.here _))
  have hbeside : (directory nestedEntries).HasFile ["a.c"] "f(1)".toUTF8 :=
    .within (.head _) (.here _)
  have hinner : ["a", "b.c"] ∈ found := (hfound _).2 ⟨⟨_, hbelow⟩, by decide⟩
  have houter : ["a.c"] ∈ found := (hfound _).2 ⟨⟨_, hbeside⟩, by decide⟩
  have hunknown : ["notes.txt"] ∉ found := fun hm => absurd ((hfound _).1 hm).2 (by decide)
  exact ⟨hp, found, hordered, hinner, houter, hunknown,
    hrun _ (List.ne_nil_of_mem houter) fun names _ => hspelled names⟩

end CodeTree.CommandLine
