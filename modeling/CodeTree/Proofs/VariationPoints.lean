import CodeTree.CommandLine.Run
import CodeTree.Proofs.ErasedQueries
import CodeTree.Proofs.LoweringResult
import CodeTree.Proofs.Lossless

/-!
# Variation points add information only

A tree with variation points is a tree without them once its alternatives are taken away. It has the
same calls and functions, and the command prints the same about them.
-/

namespace CodeTree

namespace Concrete

open Outline

variable {language : Language} {source : String} {root : Concrete}

/-- Without variation points, lowering gives the erasure of what it gives with them. -/
theorem exists_erase (h : root.WellFormed source) {pointed : Tree}
    (hp : root.lower language source true = .ok pointed) :
    ∃ outline : Outline, outline.All Pointed ∧ outline.All (Sound language source) ∧
      pointed = outline.toTree language source ∧ pointed.Valid ∧
      (outline.erase.toTree language source).Valid ∧
      root.lower language source false = .ok (outline.erase.toTree language source) := by
  have hpoints := Translation.all_pointed_root ⟨language, source⟩ true root
  have hwhole := Translation.whole_root ⟨language, source⟩ true h
  have herase := Translation.erase_root ⟨language, source⟩ root
  rw [lower_eq_validated h, Tree.validated_eq_ok_iff] at hp
  obtain ⟨hvalid, rfl⟩ := hp
  have hsize := (valid_translation_iff h).1 hvalid
  have hle := size_erase_le (Translation.root ⟨language, source⟩ true root)
  rw [herase] at hle
  have hplain := (valid_translation_iff h).2 (Nat.le_trans hle hsize)
  refine ⟨_, hpoints, hwhole.sound, rfl, hvalid, ?_, ?_⟩
  · rw [herase]
    exact hplain
  · rw [herase, lower_eq_validated h, Tree.validated_eq_ok_iff]
    exact ⟨hplain, rfl⟩

end Concrete

namespace Outline

theorem exists_root (language : Language) (source : String) (outline : Outline) :
    ∃ node, (outline.toTree language source).root = .ok node ∧ outline.StandsAt node := by
  have hsize : (outline.toTree language source).nodes.size = outline.size :=
    size_toTree language source outline
  have hlt : 0 < (outline.toTree language source).nodes.size := by
    rw [hsize]
    exact outline.size_pos
  exact ⟨⟨NodeId.root, hlt⟩, Tree.node_eq_ok hlt, none, laidOut_toTree language source outline⟩

theorem exists_links {language : Language} {source : String} {outline : Outline}
    (hpoints : outline.All Pointed) (hsound : outline.All (Sound language source)) :
    ∃ a b, (outline.toTree language source).root = .ok a ∧
      (outline.erase.toTree language source).root = .ok b ∧ outline.Links a b := by
  obtain ⟨a, ha, hleft⟩ := outline.exists_root language source
  obtain ⟨b, hb, hright⟩ := outline.erase.exists_root language source
  exact ⟨a, b, ha, hb, rfl, hpoints, hsound.imp fun _ _ h => h.range, hleft, hright⟩

end Outline

namespace CommandLine

variable (path : String)

theorem mapM_text_eq {pointed plain : Tree} {nodes : List (Node pointed)}
    {others : List (Node plain)} (h : nodes.map Node.text = others.map Node.text) :
    nodes.mapM Node.text = others.mapM Node.text := by
  have hmap := congrArg (List.mapM id) h
  rwa [List.mapM_map, List.mapM_map] at hmap

theorem callLine_eq {pointed plain : Tree} (a : CallParts pointed) (b : CallParts plain)
    (h : a.Agrees b) : callLine path a = callLine path b := by
  unfold callLine
  rw [h.callee, mapM_text_eq h.arguments]
  simp only [entryLine, h.location]

theorem functionLine_eq {pointed plain : Tree} (a : FunctionParts pointed)
    (b : FunctionParts plain) (h : a.Agrees b) : functionLine path a = functionLine path b := by
  unfold functionLine
  rw [mapM_text_eq h.parameters]
  simp only [entryLine, h.location, h.name]

theorem map_eq_of_related {ε α β γ : Type} {R : α → β → Prop} {f : Except ε α → γ}
    {g : Except ε β → γ} (hok : ∀ a b, R a b → f (.ok a) = g (.ok b))
    (herror : ∀ e, f (.error e) = g (.error e)) {xs : List (Except ε α)}
    {ys : List (Except ε β)} (h : List.Forall₂ (Related R) xs ys) : xs.map f = ys.map g := by
  induction h with
  | nil => rfl
  | cons hread _ ih =>
    rw [List.map_cons, List.map_cons, ih]
    cases hread with
    | ok h => rw [hok _ _ h]
    | error e => rw [herror e]

section

variable {pointed plain : Tree} {outline : Outline} {a : Node pointed} {b : Node plain}

theorem printCalls_eq (h : outline.Links a b) (ha : pointed.root = .ok a)
    (hb : plain.root = .ok b) : printCalls path pointed = printCalls path plain := by
  obtain ⟨calls, others, hcalls, hothers, hagree⟩ := Tree.exists_calls h ha hb
  unfold printCalls
  rw [hcalls, hothers]
  refine congrArg Printed.all (map_eq_of_related ?_ ?_ hagree)
  · intro call other h
    simp only [Except.bind, callLine_eq path call other h]
  · intro error
    rfl

theorem printFunctions_eq (h : outline.Links a b) (ha : pointed.root = .ok a)
    (hb : plain.root = .ok b) : printFunctions path pointed = printFunctions path plain := by
  obtain ⟨functions, others, hfunctions, hothers, hagree⟩ := Tree.exists_functions h ha hb
  unfold printFunctions
  rw [hfunctions, hothers]
  refine congrArg Printed.all (map_eq_of_related ?_ ?_ hagree)
  · intro shape other h
    simp only [Except.bind, functionLine_eq path shape other h]
  · intro error
    rfl

end

/-- Whether options agree in all but variation points. -/
structure Options.Agree (a b : Options) : Prop where
  path : a.path = b.path
  language : a.language = b.language
  switches : ∀ switch, switch ≠ .variationPoints → a.has switch = b.has switch

structure Options.QueriesOnly (options : Options) : Prop where
  queries : options.has .calls = true ∨ options.has .functions = true
  expression : options.has .expression = false
  json : options.has .json = false

/-- The report on calls and functions needs no more of two trees than that they print the same about
these, and that they spell the same text. -/
theorem report_eq {options others : Options} (h : options.Agree others) (hq : options.QueriesOnly)
    (files : FileTree) {tree other : Tree} (hsource : tree.toSource = other.toSource)
    (hcalls : printCalls path tree = printCalls path other)
    (hfunctions : printFunctions path tree = printFunctions path other) :
    report path options files tree = report path others files other := by
  have hround : options.has .checkRoundTrip = others.has .checkRoundTrip :=
    h.switches _ (by decide)
  have hcheck : checkRoundTrip path files tree = checkRoundTrip path files other := by
    unfold checkRoundTrip
    rw [hsource]
  have hchosen : (printers path).filter (options.has ·.1) =
      (printers path).filter (others.has ·.1) := by
    simp only [printers, List.filter_cons, List.filter_nil, h.switches .expression (by decide),
      h.switches .json (by decide), h.switches .calls (by decide),
      h.switches .functions (by decide)]
  have hprinted : ∀ entry ∈ (printers path).filter (options.has ·.1),
      entry.2 tree = entry.2 other := by
    intro entry hm
    obtain ⟨hentry, hhas⟩ := List.mem_filter.1 hm
    simp only [printers, List.mem_cons, List.not_mem_nil, or_false] at hentry
    rcases hentry with rfl | rfl | rfl | rfl
    · rw [hq.expression] at hhas
      cases hhas
    · rw [hq.json] at hhas
      cases hhas
    · exact hcalls
    · exact hfunctions
  have hsome : ((printers path).filter (options.has ·.1)).isEmpty = false := by
    rw [List.isEmpty_eq_false_iff_exists_mem]
    rcases hq.queries with hcall | hfunction
    · exact ⟨(.calls, printCalls path), List.mem_filter.2 ⟨by simp [printers], hcall⟩⟩
    · exact ⟨(.functions, printFunctions path), List.mem_filter.2 ⟨by simp [printers], hfunction⟩⟩
  rw [report, report, hround, hcheck, ← hchosen, hsome, List.map_congr_left hprinted]
  rfl

/-- Whether the parser gives a well-formed concrete tree of every file that it does not give up on,
one that can be lowered with variation points. -/
def ParsesWell (parser : Parser) (files : FileTree) : Prop :=
  ∀ path source language root, files.read path = .ok source →
    parser language source = some root → root.WellFormed source ∧
      ∃ tree, root.lower language source true = .ok tree

variable {parser : Parser} {files : FileTree} {options others : Options}

theorem report_lower_eq {source : String} {language : Language} {root : Concrete}
    (h : options.Agree others) (hq : options.QueriesOnly) (hw : root.WellFormed source)
    {pointed : Tree} (hp : root.lower language source true = .ok pointed) :
    ∃ plain, root.lower language source false = .ok plain ∧
      report path options files pointed = report path others files plain := by
  obtain ⟨outline, hpoints, hsound, rfl, hvalid, hvalid', hplain⟩ := Concrete.exists_erase hw hp
  obtain ⟨a, b, ha, hb, hlinks⟩ := Outline.exists_links hpoints hsound
  refine ⟨_, hplain, report_eq path h hq files ?_ (printCalls_eq path hlinks ha hb)
    (printFunctions_eq path hlinks ha hb)⟩
  rw [hvalid.toSource_eq, hvalid'.toSource_eq]
  rfl

theorem process_eq (hparser : ParsesWell parser files) (h : options.Agree others)
    (hq : options.QueriesOnly) (hpoints : options.has .variationPoints = true)
    (hplain : others.has .variationPoints = false) (input : String × Language) :
    process parser options files input = process parser others files input := by
  obtain ⟨path, language⟩ := input
  unfold process
  rw [hpoints, hplain, Parser.parseFileAs, Parser.parseFileAs, Parser.readText]
  cases hread : files.read path with
  | error error => rfl
  | ok source =>
    simp only [Except.mapError, bind, Except.bind]
    unfold Parser.parse
    cases hroot : parser language source with
    | none => rfl
    | some root =>
      obtain ⟨hw, pointed, hp⟩ := hparser path source language root hread hroot
      obtain ⟨plain, hlower, hreport⟩ := report_lower_eq path h hq hw hp
      simp only [hp, hlower]
      exact hreport

theorem run_eq (hparser : ParsesWell parser files) (h : options.Agree others)
    (hq : options.QueriesOnly) (hpoints : options.has .variationPoints = true)
    (hplain : others.has .variationPoints = false) {arguments without : List String}
    (ho : Options.ofArguments arguments = .ok options)
    (ho' : Options.ofArguments without = .ok others) :
    run parser files arguments = run parser files without := by
  have hinputs : inputs options files = inputs others files := by
    unfold inputs
    rw [h.path, h.language]
  have hprocess : process parser options files = process parser others files :=
    funext (process_eq hparser h hq hpoints hplain)
  unfold run
  rw [ho, ho']
  simp only [printAll, hinputs, hprocess]

end CommandLine

namespace Concrete

open CommandLine Outline

/-- Variation points add alternatives to a tree and change nothing else: erased, the tree with them
is the tree without them. Both have the same calls and functions, and the command prints the same
about these. -/
theorem lower_variationPoints :
    (∀ (language : Language) (source : String) (root : Concrete), root.WellFormed source →
      ∀ pointed, root.lower language source true = .ok pointed →
        ∃ plain, root.lower language source false = .ok plain ∧
          (∃ outline : Outline, outline.All Pointed ∧ pointed = outline.toTree language source ∧
            plain = outline.erase.toTree language source) ∧
          (∃ calls others, pointed.calls = .ok calls ∧ plain.calls = .ok others ∧
            List.Forall₂ (Related CallParts.Agrees) calls others) ∧
          ∃ functions others, pointed.functions = .ok functions ∧ plain.functions = .ok others ∧
            List.Forall₂ (Related FunctionParts.Agrees) functions others) ∧
    ∀ (parser : Parser) (files : FileTree) (options others : Options)
      (arguments without : List String), ParsesWell parser files →
        Options.ofArguments arguments = .ok options → Options.ofArguments without = .ok others →
        options.Agree others → options.QueriesOnly → options.has .variationPoints = true →
        others.has .variationPoints = false →
        run parser files arguments = run parser files without := by
  refine ⟨fun language source root h pointed hp => ?_, ?_⟩
  · obtain ⟨outline, hpoints, hsound, rfl, -, -, hplain⟩ := exists_erase h hp
    obtain ⟨a, b, ha, hb, hlinks⟩ := exists_links hpoints hsound
    exact ⟨_, hplain, ⟨outline, hpoints, rfl, rfl⟩, Tree.exists_calls hlinks ha hb,
      Tree.exists_functions hlinks ha hb⟩
  · intro parser files options others arguments without hparser ho ho' h hq hpoints hplain
    exact run_eq hparser h hq hpoints hplain ho ho'

/-- A call, and behind it a call that is part of an error. -/
def callBesideError : Concrete :=
  .node ⟨"source_file", none, true, false, false, false, ⟨0, 9⟩⟩
    [callAt 0, .node ⟨"ERROR", none, true, false, false, true, ⟨5, 9⟩⟩ [callAt 5]]
where
  callAt (start : Nat) : Concrete :=
    .node ⟨"call_expression", none, true, false, false, false, ⟨start, start + 4⟩⟩
      [.node ⟨"identifier", some "function", true, false, false, false, ⟨start, start + 1⟩⟩ [],
        .node ⟨"arguments", some "arguments", true, false, false, false, ⟨start + 1, start + 4⟩⟩
          [.node ⟨"(", none, false, false, false, false, ⟨start + 1, start + 2⟩⟩ [],
            .node ⟨"integer_literal", none, true, false, false, false, ⟨start + 2, start + 3⟩⟩ [],
            .node ⟨")", none, false, false, false, false, ⟨start + 3, start + 4⟩⟩ []]]

def callParser : Parser := fun language source =>
  if language = .rust ∧ source = "f(1) g(2)" then some callBesideError else none

def callFiles : FileTree := .directory [("main.rs", .file "f(1) g(2)".toUTF8)]

theorem parsesWell_callParser : ParsesWell callParser callFiles := by
  intro path source language root _ hroot
  rw [callParser] at hroot
  split at hroot
  · next h =>
    obtain ⟨rfl, rfl⟩ := h
    cases hroot
    refine ⟨by decide +kernel, ?_⟩
    exact exists_of_isOk (by decide +kernel)
  · cases hroot

theorem lower_variationPoints_callBesideError :
    (∃ pointed plain, callBesideError.lower .rust "f(1) g(2)" true = .ok pointed ∧
      callBesideError.lower .rust "f(1) g(2)" false = .ok plain ∧
      ∃ outline : Outline, pointed = outline.toTree .rust "f(1) g(2)" ∧
        plain = outline.erase.toTree .rust "f(1) g(2)") ∧
    run callParser callFiles ["--calls", "--variation-points", "main.rs"] =
      run callParser callFiles ["--calls", "main.rs"] ∧
    (run callParser callFiles ["--calls", "main.rs"]).output = "main.rs:1:1: f(1)\n" := by
  have hw : callBesideError.WellFormed "f(1) g(2)" := by decide +kernel
  obtain ⟨pointed, hp⟩ : ∃ tree, callBesideError.lower .rust "f(1) g(2)" true = .ok tree :=
    exists_of_isOk (by decide +kernel)
  obtain ⟨plain, hplain, ⟨outline, -, hpointed, herased⟩, -⟩ :=
    lower_variationPoints.1 .rust _ callBesideError hw pointed hp
  refine ⟨⟨pointed, plain, hp, hplain, outline, hpointed, herased⟩, ?_, by decide +kernel⟩
  refine lower_variationPoints.2 callParser callFiles
    ⟨"main.rs", none, [.calls, .variationPoints], 0⟩ ⟨"main.rs", none, [.calls], 0⟩ _ _
    parsesWell_callParser (by decide +kernel) (by decide +kernel) ⟨rfl, rfl, ?_⟩
    ⟨by decide, by decide, by decide⟩ (by decide) (by decide)
  intro switch h
  cases switch <;> first | rfl | exact absurd rfl h

end Concrete

end CodeTree
