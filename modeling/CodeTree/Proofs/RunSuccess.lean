import CodeTree.Proofs.DirectoryRuns
import CodeTree.Proofs.LoweringResult
import CodeTree.Proofs.Reports

/-!
# When runs succeed

Whether a run succeeds does not depend on what it is asked to print. Where the parser gives
well-formed concrete trees, a run on a file succeeds if the language is known and the file is text,
and a run on a directory if there is something to parse and all of that is text
(`run_succeeds_iff`).
-/

namespace CodeTree

/-- Whether the parser gives a well-formed concrete tree of a source, for which fewer than 2 ^ 32
nodes are made. -/
def Parser.GivesTree (parser : Parser) (points : Bool) (language : Language) (source : String) :
    Prop :=
  ∃ root, parser language source = some root ∧ root.WellFormed source ∧
    ((Builder.new language).run
      (Lowering.events ⟨language, source⟩ points root)).nodes.size < 2 ^ 32

theorem Parser.GivesTree.exists_tree {parser : Parser} {points : Bool} {language : Language}
    {source : String} (h : parser.GivesTree points language source) :
    ∃ tree, parser.parse language source points = .ok tree ∧ tree.Valid ∧ tree.source = source := by
  obtain ⟨root, hroot, hw, hn⟩ := h
  rw [Concrete.size_nodes_run hw] at hn
  have hvalid : ((Translation.root ⟨language, source⟩ points root).toTree language source).Valid :=
    (Concrete.valid_translation_iff hw).2 (Nat.le_of_lt_succ hn)
  have hlower := (Concrete.lower_eq_validated hw).trans (Tree.validated_eq_ok_iff.2 ⟨hvalid, rfl⟩)
  refine ⟨_, ?_, hvalid, rfl⟩
  rw [parse, hroot]
  simp only [hlower]
  rfl

namespace CommandLine

open FileTree

variable {parser : Parser} {files : FileTree} {options : Options} {arguments : List String}
  {entry : FileTree} {entries : List (String × FileTree)} {names : List String}
  {bytes : ByteArray} {input : String × Language}

/-- Whether there is something to parse, and all of it can be: a file in a known language, or files
with a known extension below a directory, and nothing among these that is not text. -/
def Parsable (options : Options) : FileTree → Prop
  | .file bytes =>
    (options.language.isSome ∨ (Language.ofPath? options.path).isSome) ∧ bytes.IsValidUTF8
  | .directory entries =>
    (∃ names bytes, (directory entries).HasFile names bytes ∧
      (Language.ofNames? names).isSome) ∧
    ∀ names bytes, (directory entries).HasFile names bytes → (Language.ofNames? names).isSome →
      bytes.IsValidUTF8

/-- What is printed about a file fails if the file is not text, and in no other case. -/
theorem failure_process (hr : files.resolve input.1 = .ok (.file bytes))
    (hg : ∀ source, files.read input.1 = .ok source →
      parser.GivesTree (options.has .variationPoints) input.2 source) :
    (process parser options files input).failure =
      if bytes.IsValidUTF8 then none
      else some (.parse (.unreadable input.1 .notUtf8)) := by
  have hread := read_file hr
  by_cases hb : bytes.IsValidUTF8
  · rw [dif_pos hb] at hread
    obtain ⟨tree, htree, hvalid, hsource⟩ := (hg _ hread).exists_tree
    have htext : Parser.readText files input.1 = .ok tree.source := by
      rw [Parser.readText, hread, hsource]
      rfl
    have hparse : parser.parseFileAs files input.1 input.2 (options.has .variationPoints) =
        .ok tree := by
      rw [Parser.parseFileAs, htext, hsource]
      exact htree
    rw [process, hparse, if_pos hb]
    exact hvalid.failure_report input.1 options htext
  · rw [dif_neg hb] at hread
    have hparse : parser.parseFileAs files input.1 input.2 (options.has .variationPoints) =
        .error (.unreadable input.1 .notUtf8) := by
      rw [Parser.parseFileAs, Parser.readText, hread]
      rfl
    rw [process, hparse, if_neg hb]
    rfl

/-- Whether the parser gives a tree of everything that a run parses. -/
def GivesTrees (parser : Parser) (files : FileTree) (options : Options) : Prop :=
  ∀ list, inputs options files = .ok list → ∀ input ∈ list, ∀ source,
    files.read input.1 = .ok source →
      parser.GivesTree (options.has .variationPoints) input.2 source

/-- Whether a failure is one that parsable input does not have. -/
def Failure.OfInput (options : Options) (failure : Failure) : Prop :=
  failure = .unknownLanguage options.path ∨ failure = .nothingToParse options.path ∨
    ∃ path, failure = .parse (.unreadable path .notUtf8)

/-- Whether printing fails unless something holds, and if it fails, then because of the input. -/
structure Printed.FailsUnless (printed : Printed) (options : Options) (good : Prop) : Prop where
  failure_iff : printed.failure = none ↔ good
  ofInput : ∀ failure, printed.failure = some failure → failure.OfInput options

theorem failsUnless_of_inputs {list : List (String × Language)}
    (hg : GivesTrees parser files options) (hinputs : inputs options files = .ok list)
    (hfiles : ∀ input ∈ list, ∃ bytes, files.resolve input.1 = .ok (.file bytes)) :
    (printAll parser options files).FailsUnless options (∀ input ∈ list, ∀ bytes,
      files.resolve input.1 = .ok (.file bytes) → bytes.IsValidUTF8) := by
  rw [printAll_of_inputs hinputs]
  refine ⟨?_, fun failure h => ?_⟩
  · rw [Printed.failure_all_eq_none_iff, List.forall_mem_map]
    refine forall₂_congr fun input hm => ?_
    obtain ⟨bytes, hr⟩ := hfiles input hm
    rw [failure_process hr (hg list hinputs input hm)]
    constructor
    · intro hnone other hother
      obtain rfl : bytes = other := by simpa [hr] using hother
      by_contra hb
      rw [if_neg hb] at hnone
      cases hnone
    · intro hvalid
      exact if_pos (hvalid bytes hr)
  · obtain ⟨part, hm, hpart⟩ := Printed.exists_of_failure_all h
    obtain ⟨input, hin, rfl⟩ := List.mem_map.1 hm
    obtain ⟨bytes, hr⟩ := hfiles input hin
    rw [failure_process hr (hg list hinputs input hin)] at hpart
    split at hpart
    · cases hpart
    · exact .inr (.inr ⟨input.1, (Option.some.inj hpart).symm⟩)

theorem failsUnless_file (hg : GivesTrees parser files options)
    (hd : files.resolve options.path = .ok (.file bytes)) :
    (printAll parser options files).FailsUnless options (Parsable options (.file bytes)) := by
  have hknown : (options.language.isSome ∨ (Language.ofPath? options.path).isSome) ↔
      (options.language <|> Language.ofPath? options.path).isSome := by
    cases options.language <;> simp
  rw [Parsable, hknown]
  cases hlanguage : options.language <|> Language.ofPath? options.path with
  | none =>
    have hinputs : inputs options files = .error (.unknownLanguage options.path) := by
      rw [inputs, hd]
      simp only [hlanguage]
    rw [printAll_of_error hinputs]
    refine ⟨by simp [Printed.fail], fun failure h => ?_⟩
    exact .inl (Option.some.inj h).symm
  | some language =>
    have hinputs : inputs options files = .ok [(options.path, language)] := by
      rw [inputs, hd]
      simp only [hlanguage]
    have hfiles : ∀ input ∈ [(options.path, language)],
        ∃ bytes, files.resolve input.1 = .ok (.file bytes) := by
      simpa using ⟨bytes, hd⟩
    have hunless := failsUnless_of_inputs hg hinputs hfiles
    refine ⟨hunless.failure_iff.trans ?_, hunless.ofInput⟩
    simp [hd]

theorem forall_inputsBelow_iff {P : String → Prop} :
    (∀ input ∈ inputsBelow options entries, P input.1) ↔
      ∀ names ∈ recognized entries, P (names.foldl Path.join options.path) := by
  calc (∀ input ∈ inputsBelow options entries, P input.1)
      ↔ ∀ path ∈ (inputsBelow options entries).map (·.1), P path := List.forall_mem_map.symm
    _ ↔ ∀ path ∈ (recognized entries).map (·.foldl Path.join options.path), P path := by
      rw [map_fst_inputs]
    _ ↔ ∀ names ∈ recognized entries, P (names.foldl Path.join options.path) :=
      List.forall_mem_map

theorem parsable_directory_iff (hd : files.resolve options.path = .ok (.directory entries))
    (hp : (directory entries).Proper) :
    Parsable options (.directory entries) ↔ recognized entries ≠ [] ∧
      ∀ input ∈ inputsBelow options entries, ∀ bytes,
        files.resolve input.1 = .ok (.file bytes) → bytes.IsValidUTF8 := by
  rw [Parsable, forall_inputsBelow_iff
    (P := fun path => ∀ bytes, files.resolve path = .ok (.file bytes) → bytes.IsValidUTF8)]
  apply and_congr
  · constructor
    · rintro ⟨names, bytes, h, hknown⟩
      exact List.ne_nil_of_mem (mem_recognized.2 ⟨⟨bytes, h⟩, hknown⟩)
    · intro hne
      obtain ⟨names, hm⟩ := List.exists_mem_of_ne_nil _ hne
      obtain ⟨⟨bytes, h⟩, hknown⟩ := mem_recognized.1 hm
      exact ⟨names, bytes, h, hknown⟩
  · constructor
    · intro hvalid names hm bytes hr
      obtain ⟨⟨other, h⟩, hknown⟩ := mem_recognized.1 hm
      rw [h.resolve_join hp hd] at hr
      cases hr
      exact hvalid names bytes h hknown
    · intro hvalid names bytes h hknown
      exact hvalid names (mem_recognized.2 ⟨⟨bytes, h⟩, hknown⟩) bytes (h.resolve_join hp hd)

theorem failsUnless_directory (hg : GivesTrees parser files options)
    (hd : files.resolve options.path = .ok (.directory entries))
    (hp : (directory entries).Proper) :
    (printAll parser options files).FailsUnless options
      (Parsable options (.directory entries)) := by
  have hinputs := inputs_eq hd hp
  simp only [inputsBelow_eq_nil_iff] at hinputs
  rw [parsable_directory_iff hd hp]
  by_cases hnil : recognized entries = []
  · rw [if_pos hnil] at hinputs
    rw [printAll_of_error hinputs]
    refine ⟨iff_of_false nofun fun h => h.1 hnil, fun failure h => ?_⟩
    exact .inr (.inl (Option.some.inj h).symm)
  · rw [if_neg hnil] at hinputs
    have hfiles : ∀ input ∈ inputsBelow options entries,
        ∃ bytes, files.resolve input.1 = .ok (.file bytes) := by
      refine (forall_inputsBelow_iff
        (P := fun path => ∃ bytes, files.resolve path = .ok (.file bytes))).2 fun names hm => ?_
      obtain ⟨⟨bytes, h⟩, -⟩ := mem_recognized.1 hm
      exact ⟨bytes, h.resolve_join hp hd⟩
    have hunless := failsUnless_of_inputs hg hinputs hfiles
    exact ⟨hunless.failure_iff.trans (and_iff_right hnil).symm, hunless.ofInput⟩

/-- Whether a run succeeds depends on what there is to parse and not on what is printed, and it
fails for what is wrong with that alone. -/
theorem run_succeeds_iff (hg : GivesTrees parser files options)
    (ha : Options.ofArguments arguments = .ok options)
    (hd : files.resolve options.path = .ok entry) (hp : entry.Proper) :
    run parser files arguments = .ofPrinted (printAll parser options files) ∧
      ((run parser files arguments).code = 0 ↔ Parsable options entry) ∧
      (¬Parsable options entry → (run parser files arguments).code = 1) ∧
      ∀ failure, (printAll parser options files).failure = some failure →
        failure.OfInput options := by
  have hunless : (printAll parser options files).FailsUnless options (Parsable options entry) := by
    cases entry with
    | file bytes => exact failsUnless_file hg hd
    | directory entries => exact failsUnless_directory hg hd hp
  obtain ⟨hiff, hfailures⟩ := hunless
  rw [run_of_ofArguments ha]
  refine ⟨rfl, Printed.code_eq_zero_iff.trans hiff, fun hn => ?_, hfailures⟩
  rw [Printed.code_ofPrinted, if_neg (mt hiff.1 hn)]

def errorParser : Parser := fun language source =>
  if language = .rust ∧ source = "// é\nf(1) @@@" then some Concrete.callInError else none

def errorFiles : FileTree := .directory [("main.rs", .file "// é\nf(1) @@@".toUTF8)]

def errorOptions : Options := ⟨"main.rs", none, [.calls, .checkRoundTrip], 0⟩

theorem givesTrees_errorParser : GivesTrees errorParser errorFiles errorOptions := by
  have hd : errorFiles.resolve "main.rs" = .ok (.file "// é\nf(1) @@@".toUTF8) := rfl
  have hb : "// é\nf(1) @@@".toUTF8.IsValidUTF8 := String.isValidUTF8 _
  intro list hlist input hm source hread
  cases hlist
  obtain rfl := List.mem_singleton.1 hm
  have htext := (read_file hd).trans (dif_pos hb)
  obtain rfl : source = "// é\nf(1) @@@" := Except.ok.inj (hread.symm.trans htext)
  exact ⟨Concrete.callInError, if_pos ⟨rfl, rfl⟩, by decide +kernel, by decide +kernel⟩

theorem run_succeeds_callInError :
    Parsable errorOptions (.file "// é\nf(1) @@@".toUTF8) ∧
      (run errorParser errorFiles ["--calls", "--check-roundtrip", "main.rs"]).code = 0 := by
  have ha : Options.ofArguments ["--calls", "--check-roundtrip", "main.rs"] =
      .ok errorOptions := rfl
  have hd : errorFiles.resolve errorOptions.path = .ok (.file "// é\nf(1) @@@".toUTF8) := rfl
  have hparsable : Parsable errorOptions (.file "// é\nf(1) @@@".toUTF8) :=
    ⟨.inr (by decide), String.isValidUTF8 _⟩
  obtain ⟨-, hcode, -, -⟩ := run_succeeds_iff givesTrees_errorParser ha hd trivial
  exact ⟨hparsable, hcode.2 hparsable⟩

end CommandLine

end CodeTree
