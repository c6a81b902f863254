import CodeTree.Tree.Builder

/-!
# Effects of single events

A step records errors and changes the rest of a builder, and neither depends on what was recorded
before. For each way in which an event can go there is one equation that says both, so that what
follows about builders needs no definition of a step. The checks of kinds come first and are
recorded whatever becomes of the event (`unopenable`, `unaddable`).
-/

namespace CodeTree

namespace Builder

def withErrors (builder : Builder) (errors : List TreeError) : Builder := { builder with errors }

theorem withErrors_errors (builder : Builder) : builder.withErrors builder.errors = builder := rfl

@[simp] theorem errors_withErrors (builder : Builder) (errors : List TreeError) :
    (builder.withErrors errors).errors = errors := rfl

variable (builder : Builder) {node : OpenNode} {outer : List OpenNode}

/-- The open nodes after the innermost one was told of a node. -/
def told (stack : List OpenNode) (added : Added) : List OpenNode :=
  match stack with
  | [] => []
  | node :: outer => { node with pending := node.pending ++ [added] } :: outer

theorem push_eq (kind : NodeKind) (span : Span) (slot : Option Slot) (detached : Bool) :
    builder.push kind span slot detached =
      { builder with
        nodes := builder.nodes.push ⟨kind, span, builder.stack.head?.map (·.id), [], []⟩
        stack := told builder.stack ⟨builder.nodes.size, kind, slot, detached⟩ } := by
  unfold push told
  cases builder.stack <;> rfl

theorem size_nodes_push (kind : NodeKind) (span : Span) (slot : Option Slot) (detached : Bool) :
    (builder.push kind span slot detached).nodes.size = builder.nodes.size + 1 :=
  Array.size_push _

def entered (slot : Option Slot) (kind : NodeKind) (detached : Bool) : Builder :=
  let pushed := builder.push kind ⟨builder.position, builder.position⟩ slot detached
  { pushed with
    stack := ⟨builder.nodes.size, kind, builder.position, detached, []⟩ :: pushed.stack }

theorem stack_entered (slot : Option Slot) (kind : NodeKind) (detached : Bool) :
    (builder.entered slot kind detached).stack =
      ⟨builder.nodes.size, kind, builder.position, detached, []⟩ ::
        told builder.stack ⟨builder.nodes.size, kind, slot, detached⟩ := by
  rw [entered, push_eq]

theorem size_nodes_entered (slot : Option Slot) (kind : NodeKind) (detached : Bool) :
    (builder.entered slot kind detached).nodes.size = builder.nodes.size + 1 :=
  builder.size_nodes_push kind _ slot detached

/-- The builder when an alternative of an open node is about to be opened. -/
def replaying (owner : OpenNode) : Builder :=
  { builder with replays := ⟨owner.start, builder.position⟩ :: builder.replays }

def left (node : OpenNode) (outer : List OpenNode) : Builder :=
  { builder with
    nodes := builder.nodes.modify node.id fun data =>
      { data with
        span := ⟨data.span.start, builder.position⟩
        children := (node.pending.filter (!·.detached)).map (·.id)
        slots := distribute node.kind node.pending }
    stack := outer
    replays := if node.detached then builder.replays.drop 1 else builder.replays }

def grown (text : String) : Builder := { builder with source := builder.source ++ text }

def advanced (replay : Replay) (outer : List Replay) (text : String) : Builder :=
  { builder with replays := ⟨replay.cursor + text.utf8ByteSize, replay.stop⟩ :: outer }

theorem depth_eq_zero_iff {builder : Builder} : builder.depth = 0 ↔ builder.stack = [] :=
  List.length_eq_zero_iff

def errorIf (wrong : Bool) (error : TreeError) : List TreeError := if wrong then [error] else []

def foreign (language : Language) (kind : NodeKind) : List TreeError :=
  match kind.language? with
  | some other =>
    errorIf (other != language) (.malformed kind none (.foreignToBuilder other language))
  | none => []

def unopenable (language : Language) (slot : Option Slot) (kind : NodeKind) : List TreeError :=
  errorIf kind.isTerminal (.malformed kind slot .terminalOpened) ++ foreign language kind

def unaddable (language : Language) (slot : Option Slot) (kind : NodeKind) : List TreeError :=
  errorIf (!kind.isTerminal) (.malformed kind slot .leafWithStructure) ++
    foreign language kind

section Kinds

variable {language : Language} {slot : Option Slot} {kind : NodeKind}

theorem errorIf_eq_nil_iff {wrong : Bool} {error : TreeError} :
    errorIf wrong error = [] ↔ wrong = false := by
  cases wrong <;> simp [errorIf]

theorem foreign_eq_nil_iff :
    foreign language kind = [] ↔ ∀ other, kind.language? = some other → other = language := by
  rw [foreign]
  cases kind.language? with
  | none => simp
  | some other => simp [errorIf_eq_nil_iff]

theorem unopenable_eq_nil_iff :
    unopenable language slot kind = [] ↔ kind.isTerminal = false ∧
      ∀ other, kind.language? = some other → other = language := by
  rw [unopenable, List.append_eq_nil_iff, errorIf_eq_nil_iff, foreign_eq_nil_iff]

theorem unaddable_eq_nil_iff :
    unaddable language slot kind = [] ↔ kind.isTerminal = true ∧
      ∀ other, kind.language? = some other → other = language := by
  rw [unaddable, List.append_eq_nil_iff, errorIf_eq_nil_iff, foreign_eq_nil_iff,
    Bool.not_eq_false']

end Kinds

theorem recordIf_eq_withErrors (wrong : Bool) (error : TreeError) :
    builder.recordIf wrong error =
      builder.withErrors (builder.errors ++ errorIf wrong error) := by
  cases wrong
  · simp [recordIf, errorIf, withErrors]
  · rfl

theorem recordForeign_eq_withErrors (kind : NodeKind) :
    builder.recordForeign kind =
      builder.withErrors (builder.errors ++ foreign builder.language kind) := by
  rw [recordForeign, foreign]
  cases kind.language? with
  | none => simp [withErrors]
  | some other => simp [recordIf_eq_withErrors]

/-- What is checked first is recorded and changes nothing else. -/
theorem checked_eq_withErrors (wrong : Bool) (error : TreeError) (kind : NodeKind) :
    (builder.recordIf wrong error).recordForeign kind =
      builder.withErrors (builder.errors ++
        (errorIf wrong error ++ foreign builder.language kind)) := by
  rw [recordForeign_eq_withErrors, recordIf_eq_withErrors, ← List.append_assoc]
  rfl

theorem openNode_of_secondRoot (hs : builder.stack = []) (hn : builder.nodes ≠ #[])
    (slot : Option Slot) (kind : NodeKind) (detached : Bool) :
    builder.openNode slot kind detached = builder.withErrors (builder.errors ++
      (unopenable builder.language slot kind ++ [.unbalanced .secondRoot])) := by
  rw [openNode, checked_eq_withErrors, ← unopenable, ← List.append_assoc]
  have hsecond : (builder.stack.isEmpty && !builder.nodes.isEmpty) = true := by simp [hs, hn]
  exact if_pos hsecond

theorem openNode_eq_entered (h : builder.stack = [] → builder.nodes = #[]) (slot : Option Slot)
    (kind : NodeKind) (detached : Bool) :
    builder.openNode slot kind detached = (builder.entered slot kind detached).withErrors
      (builder.errors ++ unopenable builder.language slot kind) := by
  rw [openNode, checked_eq_withErrors, ← unopenable]
  have hfirst : ¬(builder.stack.isEmpty && !builder.nodes.isEmpty) = true := by simpa using h
  exact if_neg hfirst

theorem openAlternative_outside (hs : builder.stack = []) (kind : NodeKind) :
    builder.openAlternative kind =
      builder.withErrors (builder.errors ++ [.unbalanced .alternativeOutside]) := by
  rw [openAlternative, hs]
  rfl

theorem openAlternative_elsewhere (hs : builder.stack = node :: outer)
    (hk : node.kind ≠ .special .variationPoint) (kind : NodeKind) :
    builder.openAlternative kind = builder.withErrors (builder.errors ++
      [.malformed node.kind (some .alternatives) .alternativeElsewhere]) := by
  rw [openAlternative, hs]
  exact if_pos hk

/-- An alternative of a variation point is opened where the variation point starts. -/
theorem openAlternative_eq_openNode (hs : builder.stack = node :: outer)
    (hk : node.kind = .special .variationPoint) (kind : NodeKind) :
    builder.openAlternative kind =
      (builder.replaying node).openNode (some .alternatives) kind true := by
  rw [openAlternative, hs]
  simp only [ne_eq, hk, not_true_eq_false, if_false, replaying, hs]

theorem closeNode_unmatched (hs : builder.stack = []) :
    builder.closeNode =
      builder.withErrors (builder.errors ++ [.unbalanced .unmatchedFinish]) := by
  rw [closeNode, hs]
  rfl

theorem closeNode_eq_left (hs : builder.stack = node :: outer) :
    builder.closeNode = (builder.left node outer).withErrors
      (builder.errors ++ closingErrors node.kind node.pending) := by
  rw [closeNode, hs]
  rfl

theorem addLeaf_outside (hs : builder.stack = []) (slot : Option Slot) (kind : NodeKind)
    (text : String) :
    builder.addLeaf slot kind text = builder.withErrors (builder.errors ++
      (unaddable builder.language slot kind ++ [.unbalanced .leafOutside])) := by
  rw [addLeaf, checked_eq_withErrors, ← unaddable, ← List.append_assoc]
  have hempty : builder.stack.isEmpty = true := by simp [hs]
  exact if_pos hempty

theorem addLeaf_read (hs : builder.stack ≠ []) (hr : builder.replays = []) (slot : Option Slot)
    (kind : NodeKind) (text : String) :
    builder.addLeaf slot kind text =
      ((builder.grown text).push kind ⟨builder.position, builder.position + text.utf8ByteSize⟩ slot
        false).withErrors (builder.errors ++ unaddable builder.language slot kind) := by
  obtain ⟨language, source, nodes, stack, replays, errors⟩ := builder
  simp only at hs hr
  subst hr
  rw [addLeaf, checked_eq_withErrors, ← unaddable]
  have hopen : ¬stack.isEmpty = true := by simpa using hs
  exact if_neg hopen

variable {replay : Replay} {replays : List Replay}

theorem addLeaf_replay (hs : builder.stack ≠ []) (hr : builder.replays = replay :: replays)
    (slot : Option Slot) (kind : NodeKind) (text : String) :
    builder.addLeaf slot kind text =
      if replay.fits builder.source text then
        ((builder.advanced replay replays text).push kind
          ⟨replay.cursor, replay.cursor + text.utf8ByteSize⟩ slot false).withErrors
            (builder.errors ++ unaddable builder.language slot kind)
      else
        builder.withErrors (builder.errors ++ (unaddable builder.language slot kind ++
          [.alternativeMismatch replay.cursor text])) := by
  obtain ⟨language, source, nodes, stack, replays, errors⟩ := builder
  simp only at hs hr
  subst hr
  rw [addLeaf, checked_eq_withErrors, ← unaddable, ← List.append_assoc]
  have hopen : ¬stack.isEmpty = true := by simpa using hs
  exact if_neg hopen

end Builder

end CodeTree
