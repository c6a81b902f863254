import CodeTree.Proofs.DirectoryRuns
import CodeTree.Proofs.ListReads
import CodeTree.Proofs.TextLines
import Mathlib.Data.List.Forall2

/-!
# Listings

A run that prints only calls, or only functions, writes one entry for each of them, with a newline
behind it: the path, the place, the name, and texts in parentheses (`run_listing`). Names and texts
are copied from the source, and a newline in them is copied with them. So an entry takes as many
lines as it has newlines, and the lines of the output are the entries just when the entries and the
paths have none of their own. A call of one line may hold an argument of several
(`run_multilineCall`).
-/

namespace CodeTree.CommandLine

inductive Listing where
  | calls
  | functions
  deriving DecidableEq

namespace Listing

def switch : Listing → Switch
  | .calls => .calls
  | .functions => .functions

def capability : Listing → Capability
  | .calls => .call
  | .functions => .function

def printer (path : String) : Listing → Tree → Printed
  | .calls => printCalls path
  | .functions => printFunctions path

end Listing

structure Entry (tree : Tree) where
  node : Node tree
  name : String
  /-- The texts in parentheses. -/
  parts : List String

namespace Entry

variable {tree : Tree}

def line (path : String) (entry : Entry tree) : String :=
  entryLine path entry.node entry.name entry.parts

/-- Whether an entry is that of a call, with what is called and the arguments, or of a function,
with its name and the parameters. -/
def Of (entry : Entry tree) : Listing → Prop
  | .calls => ∃ call, entry.node.callParts = .ok call ∧
      call.callee.text = .ok entry.name ∧ call.arguments.mapM Node.text = .ok entry.parts
  | .functions => ∃ shape, entry.node.functionParts = .ok shape ∧
      shape.name.getD "<anonymous>" = entry.name ∧
      shape.parameters.mapM Node.text = .ok entry.parts

theorem newlines_line (path : String) (entry : Entry tree) : newlines (entry.line path) =
    newlines path + newlines entry.name + (entry.parts.map newlines).sum := by
  have hcolon : newlines ":" = 0 := rfl
  have hspace : newlines ": " = 0 := rfl
  have hopen : newlines "(" = 0 := rfl
  have hclose : newlines ")" = 0 := rfl
  rw [line, entryLine, Location.text]
  simp only [newlines_append, newlines_toString, newlines_intercalate ", " rfl,
    hcolon, hspace, hopen, hclose]
  omega

end Entry

/-- A parsed tree with the path of its file and what is listed of it. -/
structure Listed where
  path : String
  tree : Tree
  entries : List (Entry tree)

namespace Listed

def lines (listed : Listed) : List String := listed.entries.map (·.line listed.path)

structure Of (listed : Listed) (listing : Listing) : Prop where
  nodes : listed.tree.nodesWith listing.capability = .ok (listed.entries.map (·.node))
  entries : ∀ entry ∈ listed.entries, entry.Of listing

end Listed

namespace Printed

theorem text_all {parts : List Printed} (h : (all parts).failure = none) :
    (all parts).text = String.join (parts.map (·.text)) := by
  induction parts with
  | nil => rfl
  | cons first rest ih =>
    rw [all_cons] at h ⊢
    obtain ⟨hfirst, hrest⟩ := failure_andThen_eq_none_iff.1 h
    rw [andThen, hfirst, List.map_cons, String.join_cons, ← ih hrest]

end Printed

variable {tree : Tree} {path : String} {listing : Listing}

/-- What is printed about nodes are their entries, if each node that prints has one. -/
theorem exists_entries {part : Node tree → Printed} {nodes : List (Node tree)}
    (hpart : ∀ node, (part node).failure = none →
      ∃ entry : Entry tree, entry.node = node ∧ entry.Of listing ∧
        (part node).text = entry.line path ++ "\n")
    (h : (Printed.all (nodes.map part)).failure = none) :
    ∃ entries : List (Entry tree), entries.map (·.node) = nodes ∧
      (∀ entry ∈ entries, entry.Of listing) ∧
      (Printed.all (nodes.map part)).text = ended (entries.map (·.line path)) := by
  rw [Printed.text_all h]
  have hall := List.forall_mem_map.1 (Printed.failure_all_eq_none_iff.1 h)
  clear h
  induction nodes with
  | nil => exact ⟨[], rfl, by simp, rfl⟩
  | cons node rest ih =>
    obtain ⟨hnode, hrest⟩ := List.forall_mem_cons.1 hall
    obtain ⟨entry, rfl, hof, htext⟩ := hpart node hnode
    obtain ⟨entries, rfl, hofs, htexts⟩ := ih hrest
    refine ⟨entry :: entries, rfl, List.forall_mem_cons.2 ⟨hof, hofs⟩, ?_⟩
    rw [List.map_cons, List.map_cons, String.join_cons, htexts, htext, List.map_cons, ended_cons]

theorem node_of_callParts {node : Node tree} {call : CallParts tree}
    (h : node.callParts = .ok call) : call.node = node := by
  obtain ⟨callee, -, h⟩ := bind_eq_ok_iff.1 h
  obtain ⟨arguments, -, h⟩ := bind_eq_ok_iff.1 h
  cases h
  rfl

theorem node_of_functionParts {node : Node tree} {shape : FunctionParts tree}
    (h : node.functionParts = .ok shape) : shape.node = node := by
  obtain ⟨name, -, h⟩ := bind_eq_ok_iff.1 h
  obtain ⟨parameters, -, h⟩ := bind_eq_ok_iff.1 h
  obtain ⟨body, -, h⟩ := bind_eq_ok_iff.1 h
  cases h
  rfl

theorem exists_entry_of_call {node : Node tree} {text : String}
    (h : node.callParts.bind (callLine path) = .ok text) :
    ∃ entry : Entry tree, entry.node = node ∧ entry.Of .calls ∧ text = entry.line path := by
  obtain ⟨call, hcall, h⟩ := bind_eq_ok_iff.1 h
  obtain ⟨name, hname, h⟩ := bind_eq_ok_iff.1 h
  obtain ⟨parts, hparts, h⟩ := bind_eq_ok_iff.1 h
  cases h
  refine ⟨⟨node, name, parts⟩, rfl, ⟨call, hcall, ok_of_mapError hname, ok_of_mapError hparts⟩, ?_⟩
  rw [node_of_callParts hcall]
  rfl

theorem exists_entry_of_function {node : Node tree} {text : String}
    (h : node.functionParts.bind (functionLine path) = .ok text) :
    ∃ entry : Entry tree, entry.node = node ∧ entry.Of .functions ∧ text = entry.line path := by
  obtain ⟨shape, hshape, h⟩ := bind_eq_ok_iff.1 h
  obtain ⟨parts, hparts, h⟩ := bind_eq_ok_iff.1 h
  cases h
  refine ⟨⟨node, _, parts⟩, rfl, ⟨shape, hshape, rfl, ok_of_mapError hparts⟩, ?_⟩
  rw [node_of_functionParts hshape]
  rfl

variable {α : Type} {read : Node tree → Except QueryError α} {line : α → Except QueryError String}
  {unreadable : QueryError → Failure} {nodes : List (Node tree)}

def printRead (line : α → Except QueryError String) (unreadable : QueryError → Failure)
    (read : Except QueryError α) : Printed :=
  match read.bind line with
  | .ok text => .line text
  | .error error => .fail (unreadable error)

/-- What is printed about each node with a capability. Calls and functions are printed this way. -/
def printEach (tree : Tree) (capability : Capability) (read : Node tree → Except QueryError α)
    (line : α → Except QueryError String) (unreadable : QueryError → Failure) : Printed :=
  .ofExcept do
    let reads ← (do return (← tree.nodesWith capability).map read :
      Except TreeError _).mapError .tree
    return .all (reads.map (printRead line unreadable))

theorem printEach_eq {capability : Capability} (h : tree.nodesWith capability = .ok nodes) :
    printEach tree capability read line unreadable =
      .all (nodes.map fun node => printRead line unreadable (read node)) := by
  rw [printEach, h]
  exact congrArg Printed.all List.map_map

theorem exists_entries_of_printEach
    (hline : ∀ node text, (read node).bind line = .ok text →
      ∃ entry : Entry tree, entry.node = node ∧ entry.Of listing ∧ text = entry.line path)
    (h : (printEach tree listing.capability read line unreadable).failure = none) :
    ∃ entries : List (Entry tree), (⟨path, tree, entries⟩ : Listed).Of listing ∧
      (printEach tree listing.capability read line unreadable).text =
        ended (entries.map (·.line path)) := by
  have hpart : ∀ node, (printRead line unreadable (read node)).failure = none →
      ∃ entry : Entry tree, entry.node = node ∧ entry.Of listing ∧
        (printRead line unreadable (read node)).text = entry.line path ++ "\n" := by
    intro node hnone
    rw [printRead] at hnone ⊢
    cases htext : (read node).bind line with
    | error error =>
      rw [htext] at hnone
      cases hnone
    | ok text =>
      obtain ⟨entry, hnode, hof, rfl⟩ := hline node text htext
      exact ⟨entry, hnode, hof, rfl⟩
  cases hnodes : tree.nodesWith listing.capability with
  | error error =>
    rw [printEach, hnodes] at h
    cases h
  | ok nodes =>
    rw [printEach_eq hnodes] at h ⊢
    obtain ⟨entries, rfl, hof, htext⟩ := exists_entries hpart h
    exact ⟨entries, ⟨hnodes, hof⟩, htext⟩

theorem exists_listed (h : (listing.printer path tree).failure = none) :
    ∃ entries : List (Entry tree), (⟨path, tree, entries⟩ : Listed).Of listing ∧
      (listing.printer path tree).text = ended (entries.map (·.line path)) := by
  cases listing with
  | calls => exact exists_entries_of_printEach (fun _ _ => exists_entry_of_call) h
  | functions => exact exists_entries_of_printEach (fun _ _ => exists_entry_of_function) h

variable {files : FileTree} {options : Options}

/-- Whether a listing is all that is asked for, apart from the check of the round trip. -/
def Options.Lists (options : Options) (listing : Listing) : Prop :=
  ∀ switch ∈ [Switch.expression, .json, .calls, .functions],
    options.has switch = decide (switch = listing.switch)

theorem text_checkRoundTrip (path : String) (files : FileTree) (tree : Tree) :
    (checkRoundTrip path files tree).text = "" := by
  rw [checkRoundTrip]
  cases Parser.readText files path with
  | error error => rfl
  | ok source =>
    cases tree.toSource with
    | error error => rfl
    | ok text =>
      simp only [Except.mapError, bind, Except.bind]
      split <;> rfl

theorem filter_printers (h : options.Lists listing) (path : String) :
    (printers path).filter (options.has ·.1) = [(listing.switch, listing.printer path)] := by
  rw [Options.Lists] at h
  simp only [List.forall_mem_cons] at h
  obtain ⟨hexpression, hjson, hcalls, hfunctions, -⟩ := h
  rw [printers]
  simp only [List.filter_cons, hexpression, hjson, hcalls, hfunctions]
  cases listing <;> rfl

theorem exists_listed_of_report (hlists : options.Lists listing)
    (h : (report path options files tree).failure = none) :
    ∃ entries : List (Entry tree), (⟨path, tree, entries⟩ : Listed).Of listing ∧
      (report path options files tree).text = ended (entries.map (·.line path)) := by
  rw [report, filter_printers hlists] at h ⊢
  simp only [List.isEmpty_cons, Bool.false_eq_true, if_false, List.map_cons, List.map_nil,
    Printed.all_singleton] at h ⊢
  obtain ⟨hcheck, hprint⟩ := Printed.failure_andThen_eq_none_iff.1 h
  obtain ⟨entries, hof, htext⟩ := exists_listed hprint
  refine ⟨entries, hof, ?_⟩
  rw [Printed.andThen, hcheck]
  simp only [htext]
  split
  · rw [text_checkRoundTrip, String.empty_append]
  · exact String.empty_append

/-- Whether a tree is that of an input, and its entries are those of the listing. -/
structure Listed.From (parser : Parser) (files : FileTree) (options : Options) (listing : Listing)
    (input : String × Language) (listed : Listed) : Prop where
  path : listed.path = input.1
  parsed : parser.parseFileAs files input.1 input.2 (options.has .variationPoints) =
    .ok listed.tree
  entries : listed.Of listing

variable {parser : Parser}

theorem exists_listed_of_process (hlists : options.Lists listing) {input : String × Language}
    (h : (process parser options files input).failure = none) :
    ∃ listed : Listed, listed.From parser files options listing input ∧
      (process parser options files input).text = ended listed.lines := by
  rw [process] at h ⊢
  cases hparsed :
      parser.parseFileAs files input.1 input.2 (options.has .variationPoints) with
  | error error =>
    rw [hparsed] at h
    cases h
  | ok tree =>
    rw [hparsed] at h
    obtain ⟨entries, hof, htext⟩ := exists_listed_of_report hlists h
    exact ⟨⟨input.1, tree, entries⟩, ⟨rfl, hparsed, hof⟩, htext⟩

theorem exists_listed_of_all (hlists : options.Lists listing) {list : List (String × Language)}
    (h : (Printed.all (list.map (process parser options files))).failure = none) :
    ∃ found : List Listed, List.Forall₂ (Listed.From parser files options listing) list found ∧
      (Printed.all (list.map (process parser options files))).text =
        ended (found.flatMap Listed.lines) := by
  rw [Printed.text_all h]
  have hall := List.forall_mem_map.1 (Printed.failure_all_eq_none_iff.1 h)
  clear h
  induction list with
  | nil => exact ⟨[], .nil, rfl⟩
  | cons input rest ih =>
    obtain ⟨hinput, hrest⟩ := List.forall_mem_cons.1 hall
    obtain ⟨listed, hfrom, htext⟩ := exists_listed_of_process hlists hinput
    obtain ⟨found, hfound, htexts⟩ := ih hrest
    refine ⟨listed :: found, .cons hfrom hfound, ?_⟩
    rw [List.map_cons, List.map_cons, String.join_cons, htexts, htext, List.flatMap_cons,
      ended_append]

def Entry.height (path : String) (entry : Entry tree) : Nat :=
  1 + newlines path + newlines entry.name + (entry.parts.map newlines).sum

def Listed.height (listed : Listed) : Nat := (listed.entries.map (·.height listed.path)).sum

def Listed.InLines (listed : Listed) : Prop :=
  ∀ entry ∈ listed.entries, newlines listed.path = 0 ∧ newlines entry.name = 0 ∧
    ∀ part ∈ entry.parts, newlines part = 0

theorem Listed.newlines_ended_lines (listed : Listed) :
    newlines (ended listed.lines) = listed.height := by
  obtain ⟨path, tree, entries⟩ := listed
  rw [lines, height]
  simp only
  induction entries with
  | nil => rfl
  | cons entry rest ih =>
    have hnewline : newlines "\n" = 1 := rfl
    rw [List.map_cons, ended_cons, newlines_append, newlines_append, entry.newlines_line,
      hnewline, ih, List.map_cons, List.sum_cons, Entry.height]
    omega

theorem newlines_ended_flatMap (found : List Listed) :
    newlines (ended (found.flatMap Listed.lines)) = (found.map Listed.height).sum := by
  induction found with
  | nil => rfl
  | cons listed rest ih =>
    rw [List.flatMap_cons, ended_append, newlines_append, ih, listed.newlines_ended_lines,
      List.map_cons, List.sum_cons]

theorem inLines_iff {found : List Listed} :
    (∀ line ∈ found.flatMap Listed.lines, newlines line = 0) ↔
      ∀ listed ∈ found, listed.InLines := by
  have hentry : ∀ listed : Listed, (∀ line ∈ listed.lines, newlines line = 0) ↔
      listed.InLines := by
    intro listed
    rw [Listed.lines, List.forall_mem_map]
    refine forall₂_congr fun entry _ => ?_
    rw [entry.newlines_line, Nat.add_eq_zero_iff, Nat.add_eq_zero_iff, and_assoc,
      List.sum_eq_zero_iff_forall_eq_nat, List.forall_mem_map]
  rw [List.forall_mem_flatMap]
  exact forall₂_congr fun listed _ => hentry listed

/-- A successful run that is asked for nothing but calls, or nothing but functions, writes the
entries of all trees with a newline behind each. An entry takes as many lines as it has newlines, so
there are as many lines as entries, and the lines are the entries, just when there are no newlines
in the paths, the names and the texts. -/
theorem run_listing (parser : Parser) (files : FileTree) {arguments : List String}
    (listing : Listing) (ha : Options.ofArguments arguments = .ok options)
    (hlists : options.Lists listing) (hcode : (run parser files arguments).code = 0) :
    ∃ (list : List (String × Language)) (found : List Listed), inputs options files = .ok list ∧
      List.Forall₂ (Listed.From parser files options listing) list found ∧
      (run parser files arguments).output = ended (found.flatMap Listed.lines) ∧
      (linesOf (run parser files arguments).output).length = (found.map Listed.height).sum ∧
      ((linesOf (run parser files arguments).output).length =
          (found.flatMap Listed.lines).length ↔ ∀ listed ∈ found, listed.InLines) ∧
      (linesOf (run parser files arguments).output = found.flatMap Listed.lines ↔
        ∀ listed ∈ found, listed.InLines) := by
  rw [run_of_ofArguments ha] at hcode ⊢
  rw [Printed.output_ofPrinted]
  have hnone := Printed.code_eq_zero_iff.1 hcode
  cases hinputs : inputs options files with
  | error failure =>
    rw [printAll_of_error hinputs] at hnone
    cases hnone
  | ok list =>
    rw [printAll_of_inputs hinputs] at hnone ⊢
    obtain ⟨found, hfound, htext⟩ := exists_listed_of_all hlists hnone
    rw [htext]
    refine ⟨list, found, rfl, hfound, rfl, ?_, ?_, ?_⟩
    · rw [length_linesOf, newlines_ended_flatMap]
    · rw [length_linesOf_ended_eq_iff, inLines_iff]
    · rw [linesOf_ended_eq_iff, inLines_iff]

/-- A function whose body is a call with an argument of two lines. -/
def multilineText : String := "const f = (a, b) => g(`x\n$\x7bh()\x7d`);"

def multilineCall : Concrete :=
  .node ⟨"program", none, true, false, false, false, ⟨0, 34⟩⟩
   [.node ⟨"lexical_declaration", none, true, false, false, false, ⟨0, 34⟩⟩
     [.node ⟨"const", some "kind", false, false, false, false, ⟨0, 5⟩⟩ [],
      .node ⟨"variable_declarator", none, true, false, false, false, ⟨6, 33⟩⟩
       [.node ⟨"identifier", some "name", true, false, false, false, ⟨6, 7⟩⟩ [],
        .node ⟨"=", none, false, false, false, false, ⟨8, 9⟩⟩ [],
        .node ⟨"arrow_function", some "value", true, false, false, false, ⟨10, 33⟩⟩
         [.node ⟨"formal_parameters", some "parameters", true, false, false, false, ⟨10, 16⟩⟩
           [.node ⟨"(", none, false, false, false, false, ⟨10, 11⟩⟩ [],
            .node ⟨"identifier", none, true, false, false, false, ⟨11, 12⟩⟩ [],
            .node ⟨",", none, false, false, false, false, ⟨12, 13⟩⟩ [],
            .node ⟨"identifier", none, true, false, false, false, ⟨14, 15⟩⟩ [],
            .node ⟨")", none, false, false, false, false, ⟨15, 16⟩⟩ []],
          .node ⟨"=>", none, false, false, false, false, ⟨17, 19⟩⟩ [],
          .node ⟨"call_expression", some "body", true, false, false, false, ⟨20, 33⟩⟩
           [.node ⟨"identifier", some "function", true, false, false, false, ⟨20, 21⟩⟩ [],
            .node ⟨"arguments", some "arguments", true, false, false, false, ⟨21, 33⟩⟩
             [.node ⟨"(", none, false, false, false, false, ⟨21, 22⟩⟩ [],
              .node ⟨"template_string", none, true, false, false, false, ⟨22, 32⟩⟩
               [.node ⟨"`", none, false, false, false, false, ⟨22, 23⟩⟩ [],
                .node ⟨"string_fragment", none, true, false, false, false, ⟨23, 25⟩⟩ [],
                .node ⟨"template_substitution", none, true, false, false, false, ⟨25, 31⟩⟩
                 [.node ⟨"$\x7b", none, false, false, false, false, ⟨25, 27⟩⟩ [],
                  .node ⟨"call_expression", none, true, false, false, false, ⟨27, 30⟩⟩
                   [.node ⟨"identifier", some "function", true, false, false, false, ⟨27, 28⟩⟩ [],
                    .node ⟨"arguments", some "arguments", true, false, false, false, ⟨28, 30⟩⟩
                     [.node ⟨"(", none, false, false, false, false, ⟨28, 29⟩⟩ [],
                      .node ⟨")", none, false, false, false, false, ⟨29, 30⟩⟩ []]],
                  .node ⟨"\x7d", none, false, false, false, false, ⟨30, 31⟩⟩ []],
                .node ⟨"`", none, false, false, false, false, ⟨31, 32⟩⟩ []],
              .node ⟨")", none, false, false, false, false, ⟨32, 33⟩⟩ []]]]],
      .node ⟨";", none, false, false, false, false, ⟨33, 34⟩⟩ []]]

def multilineParser : Parser := fun language source =>
  if language = .javascript ∧ source = multilineText then some multilineCall else none

def multilineFiles : FileTree := .directory [("a.js", .file multilineText.toUTF8)]

def multilineOptions : Options := ⟨"a.js", none, [.calls], 0⟩

theorem lists_multilineOptions : multilineOptions.Lists .calls := by
  rw [Options.Lists]
  decide

/-- The entry of the one call takes two lines. -/
theorem run_listing_multilineCall :
    Options.ofArguments ["a.js", "--calls"] = .ok multilineOptions ∧
      multilineOptions.Lists .calls ∧
      (run multilineParser multilineFiles ["a.js", "--calls"]).code = 0 ∧
      ∃ found : List Listed, (run multilineParser multilineFiles ["a.js", "--calls"]).output =
        ended (found.flatMap Listed.lines) ∧ (found.map Listed.height).sum = 2 := by
  have ha : Options.ofArguments ["a.js", "--calls"] = .ok multilineOptions := rfl
  have hcode : (run multilineParser multilineFiles ["a.js", "--calls"]).code = 0 := by
    decide +kernel
  obtain ⟨list, found, -, -, houtput, hheight, -, -⟩ :=
    run_listing multilineParser multilineFiles .calls ha lists_multilineOptions hcode
  refine ⟨ha, lists_multilineOptions, hcode, found, houtput, ?_⟩
  rw [← hheight]
  decide +kernel

/-- The tree has one call, and the listing of its calls has two lines. -/
theorem run_multilineCall :
    (multilineParser.parseFileAs multilineFiles "a.js" .javascript false).map
        (fun tree => tree.calls.map List.length) = .ok (.ok 1) ∧
      (run multilineParser multilineFiles ["a.js", "--calls"]).code = 0 ∧
      linesOf (run multilineParser multilineFiles ["a.js", "--calls"]).output =
        ["a.js:1:21: g(`x", "$\x7bh()\x7d`)"] := by
  have hrun : run multilineParser multilineFiles ["a.js", "--calls"] =
      ⟨0, "a.js:1:21: g(`x\n$\x7bh()\x7d`)\n", ""⟩ := by decide +kernel
  rw [hrun]
  exact ⟨by decide +kernel, rfl, by decide +kernel⟩

end CodeTree.CommandLine
