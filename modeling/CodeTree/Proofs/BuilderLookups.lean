import CodeTree.Proofs.OwnerScan
import CodeTree.Proofs.ReplayStack

/-!
# Building with lookups

An open node of a `Builder` knows its kind, its start and whether it is an alternative, and so do
the nodes that it has pending. All of that can also be looked up by ids: kinds and starts among the
stored nodes, alternatives in what the node around them has pending. `buildInside` does so, cuts the
source only between characters and validates the tree in one pass, and it has no result where it
would leave the bounds of an array or cut a character. It never does, and it gives what the builder
gives (`run_buildInside`).
-/

namespace CodeTree

namespace Builder

variable (builder : Builder)

def kindInside : Option (Option NodeKind) :=
  match builder.stack with
  | [] => some none
  | node :: _ => builder.nodes[node.id]?.map fun data => some data.kind

def openAlternativeInside (kind : NodeKind) : Option Builder :=
  match builder.stack with
  | [] => some (builder.record (.unbalanced .alternativeOutside))
  | node :: _ => do
    let owner ← builder.nodes[node.id]?
    if owner.kind ≠ .special .variationPoint then
      return builder.record (.malformed owner.kind (some .alternatives) .alternativeElsewhere)
    else
      let replay : Replay := ⟨owner.span.start, builder.position⟩
      return { builder with replays := replay :: builder.replays }.openNode (some .alternatives)
        kind true

def addedInside (added : Added) : Option Added :=
  builder.nodes[added.id]?.map fun data => { added with kind := data.kind }

/-- The nodes of each slot. The slot to which a node goes has to be one of the slots. -/
def distributeInside (kind : NodeKind) (pending : List Added) : Option (List (List NodeId)) :=
  if pending.all fun added => (target? kind added).all (· < kind.slots.length) then
    some (distribute kind pending)
  else none

def closeNodeInside : Option Builder :=
  match builder.stack with
  | [] => some (builder.record (.unbalanced .unmatchedFinish))
  | node :: outer => do
    let data ← builder.nodes[node.id]?
    let pending ← node.pending.mapM builder.addedInside
    let slots ← distributeInside data.kind pending
    let stop := builder.position
    return { builder with
      nodes := builder.nodes.modify node.id fun data =>
        { data with
          span := ⟨data.span.start, stop⟩
          children := (pending.filter (!·.detached)).map (·.id)
          slots }
      stack := outer
      replays :=
        if findsAlternative outer node.id then builder.replays.drop 1 else builder.replays
      errors := builder.errors ++ closingErrors data.kind pending }

/-- Whether a text comes next. The source can be cut at an end of a character only. -/
def Replay.fitsInside (replay : Replay) (source text : String) : Option Bool :=
  if replay.cursor + text.utf8ByteSize ≤ replay.stop then
    if Utf8.isBoundary replay.cursor source.toList then
      some (text.toList.isPrefixOf (Utf8.drop replay.cursor source.toList))
    else none
  else some false

def addLeafInside (slot : Option Slot) (kind : NodeKind) (text : String) : Option Builder :=
  match builder.stack, builder.replays with
  | _ :: _, replay :: _ => do
    let _ ← replay.fitsInside builder.source text
    return builder.addLeaf slot kind text
  | _, _ => some (builder.addLeaf slot kind text)

def stepInside : Event → Option Builder
  | .start slot kind => some (builder.openNode slot kind false)
  | .alternative kind => builder.openAlternativeInside kind
  | .finish => builder.closeNodeInside
  | .leaf slot kind text => builder.addLeafInside slot kind text

def runInside (events : List Event) : Option Builder := events.foldlM stepInside builder

def finishInside : Bounded Tree :=
  match builder.errors, builder.stack with
  | error :: _, _ => Bounded.checked (.error error)
  | [], _ :: _ => Bounded.checked (.error (.unbalanced (.stillOpen builder.stack.length)))
  | [], [] =>
    if builder.nodes.isEmpty then Bounded.checked (.error (.unbalanced .noRoot))
    else do
      let tree := Tree.ofParts builder.language builder.source builder.nodes
      tree.scan
      return tree

def buildInside (language : Language) (events : List Event) : Bounded Tree := do
  let builder ← Bounded.inside ((Builder.new language).runInside events)
  builder.finishInside

variable {builder} {event : Event} {events : List Event} {slot : Option Slot} {kind : NodeKind}
  {node : OpenNode} {outer : List OpenNode}

theorem Filed.exists_data (h : Filed builder.nodes builder.stack)
    (hs : builder.stack = node :: outer) :
    ∃ data, builder.nodes[node.id]? = some data ∧ data.kind = node.kind ∧
      data.span.start = node.start := by
  have hheader := h.stored node (by simp [hs])
  obtain ⟨data, hdata, heq⟩ := Option.map_eq_some_iff.1 hheader
  obtain ⟨hkind, hstart⟩ := Prod.mk.inj heq
  exact ⟨data, hdata, hkind, hstart⟩

theorem Filed.kindInside_eq (h : Filed builder.nodes builder.stack) :
    builder.kindInside = some builder.currentKind := by
  rw [kindInside, currentKind]
  cases hs : builder.stack with
  | nil => rfl
  | cons node outer =>
    obtain ⟨data, hdata, hkind, -⟩ := h.exists_data hs
    simp [hdata, hkind]

theorem Filed.openAlternativeInside_eq (h : Filed builder.nodes builder.stack) (kind : NodeKind) :
    builder.openAlternativeInside kind = some (builder.openAlternative kind) := by
  rw [openAlternativeInside, openAlternative]
  cases hs : builder.stack with
  | nil => rfl
  | cons node outer =>
    obtain ⟨data, hdata, hkind, hstart⟩ := h.exists_data hs
    simp only [hdata, hkind, hstart, Option.bind_eq_bind, Option.bind_some]
    split <;> rfl

theorem distributeInside_eq (kind : NodeKind) (pending : List Added) :
    distributeInside kind pending = some (distribute kind pending) := by
  refine if_pos (List.all_eq_true.2 fun added _ => ?_)
  rw [Option.all_eq_true]
  intro i hi
  obtain ⟨hlt, -⟩ := target?_eq_some_iff.1 hi
  exact decide_eq_true hlt

theorem mapM_eq_some_self {α : Type} {f : α → Option α} {xs : List α}
    (h : ∀ x ∈ xs, f x = some x) : xs.mapM f = some xs := by
  induction xs with
  | nil => rfl
  | cons x rest ih =>
    rw [List.mapM_cons, h x List.mem_cons_self, ih fun y hm => h y (List.mem_cons_of_mem _ hm)]
    rfl

theorem Filed.mapM_addedInside (h : Filed builder.nodes builder.stack)
    (hs : builder.stack = node :: outer) :
    node.pending.mapM builder.addedInside = some node.pending := by
  have hadded : ∀ added ∈ node.pending, builder.addedInside added = some added := by
    intro added hm
    have hheader := h.pending node (by simp [hs]) added hm
    rw [header?, Option.map_map] at hheader
    obtain ⟨data, hdata, hkind⟩ := Option.map_eq_some_iff.1 hheader
    have hsame : data.kind = added.kind := hkind
    rw [addedInside, hdata, Option.map_some, hsame]
  exact mapM_eq_some_self hadded

theorem Filed.closeNodeInside_eq (h : Filed builder.nodes builder.stack) :
    builder.closeNodeInside = some builder.closeNode := by
  rw [closeNodeInside, closeNode]
  cases hs : builder.stack with
  | nil => rfl
  | cons node outer =>
    obtain ⟨data, hdata, hkind, -⟩ := h.exists_data hs
    have hfound := h.found node outer (hs ▸ List.suffix_rfl)
    simp only [hdata, h.mapM_addedInside hs, distributeInside_eq, hkind, hfound,
      Option.bind_eq_bind, Option.bind_some]
    rfl

theorem InStep.addLeafInside_eq (h : InStep builder.source builder.stack builder.replays)
    (slot : Option Slot) (kind : NodeKind) (text : String) :
    builder.addLeafInside slot kind text = some (builder.addLeaf slot kind text) := by
  rw [addLeafInside]
  split
  · next replay _ _ hr =>
    have hwithin := h.within_head replay (by simp [hr])
    have hcut : (replay.fitsInside builder.source text).isSome = true := by
      rw [Replay.fitsInside, if_pos (Utf8.isRange_iff.1 hwithin).2.1]
      split <;> rfl
    obtain ⟨fits, hfits⟩ := Option.isSome_iff_exists.1 hcut
    rw [hfits]
    rfl
  · rfl

namespace Sync

theorem stepInside_eq (h : builder.Sync) (event : Event) :
    builder.stepInside event = some (builder.step event) := by
  cases event with
  | start slot kind => rfl
  | alternative kind => exact h.filed.openAlternativeInside_eq kind
  | finish => exact h.filed.closeNodeInside_eq
  | leaf slot kind text => exact h.inStep.addLeafInside_eq slot kind text

theorem runInside_eq (h : builder.Sync) (events : List Event) :
    builder.runInside events = some (builder.run events) := by
  induction events generalizing builder with
  | nil => rfl
  | cons event rest ih =>
    rw [runInside, List.foldlM_cons, h.stepInside_eq, run_cons]
    exact ih (h.step event)

end Sync

theorem run_scan_validated (tree : Tree) :
    (do tree.scan; return tree : Bounded Tree).run = some tree.validated := by
  rw [ExceptT.run_bind, Tree.run_scan, Tree.validated]
  cases tree.validate <;> rfl

theorem run_finishInside (builder : Builder) :
    builder.finishInside.run = some builder.finish := by
  rw [finishInside, finish]
  cases builder.errors with
  | cons error rest => rfl
  | nil =>
    cases builder.stack with
    | cons node outer => rfl
    | nil =>
      simp only
      split
      · rfl
      · exact run_scan_validated _

/-- Building with lookups leaves no bounds, and gives what the builder gives. -/
theorem run_buildInside (language : Language) (events : List Event) :
    (buildInside language events).run = some (Tree.ofEvents language events) := by
  rw [buildInside, (sync_new language).runInside_eq]
  exact run_finishInside _

end Builder

end CodeTree
