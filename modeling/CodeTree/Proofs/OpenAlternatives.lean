import CodeTree.Proofs.BuilderSource
import CodeTree.Proofs.ReplayStack
import Mathlib.Data.List.Induction

/-!
# Replays of open alternatives

After any events, whatever is wrong with them, there is one replay for each open alternative, in the
order of their nesting (`Matched`). This follows from `InStep` by induction on the stack of open
nodes. Which open nodes are alternatives is settled by the events that opened them (`OpenedBy`).
-/

namespace CodeTree

namespace Builder

variable {source : String} {stack outer : List OpenNode} {node : OpenNode} {replays : List Replay}
  {builder after : Builder} {language : Language} {event : Event} {events rest : List Event}

/-- The open alternatives, each with the open node around it, from the inside out. -/
def alternatives : List OpenNode → List (OpenNode × OpenNode)
  | node :: point :: outer =>
    if node.detached then (node, point) :: alternatives (point :: outer)
    else alternatives (point :: outer)
  | _ => []

/-- Whether a replay goes through text of the variation point around an alternative. -/
structure ReplayOf (source : String) (alternative : OpenNode × OpenNode) (replay : Replay) :
    Prop where
  point : alternative.2.kind = .special .variationPoint
  start_le : alternative.2.start ≤ replay.cursor
  cursor_le : replay.cursor ≤ replay.stop
  stop_le : replay.stop ≤ source.utf8ByteSize
  boundary : Utf8.isBoundary replay.cursor source.toList = true

namespace InStep

theorem length_eq (h : InStep source stack replays) :
    replays.length = stack.countP (·.detached) := by
  induction h with
  | outside => rfl
  | attached node around attached range ih =>
    rw [ih, List.countP_cons_of_neg (by simp [attached])]
  | alternative node point replay around detached kind start range within stop ih =>
    rw [List.length_cons, ih]
    exact (List.countP_cons_of_pos detached).symm

theorem forall₂_alternatives (h : InStep source stack replays) :
    List.Forall₂ (ReplayOf source) (alternatives stack) replays := by
  induction h with
  | outside => exact .nil
  | @attached stack replays node around attached range ih =>
    cases stack with
    | nil => exact ih
    | cons point outer =>
      rw [alternatives, if_neg (by simp [attached])]
      exact ih
  | alternative node point replay around detached kind start range within stop ih =>
    rw [alternatives, if_pos detached]
    obtain ⟨hle, hcursor, hstop⟩ := Utf8.isRange_iff.1 within
    have hsize := Utf8.le_size_of_isBoundary hstop
    rw [Utf8.size_toList] at hsize
    exact .cons ⟨kind, (Utf8.isRange_iff.1 range).1, hle, hsize, hcursor⟩ ih

theorem reached_le (h : InStep source stack replays) :
    ∀ replay ∈ replays, reached source replays ≤ replay.cursor := by
  induction h with
  | outside => simp
  | attached node around attached range ih => exact ih
  | alternative node point replay around detached kind start range within stop ih =>
    intro other hm
    rcases List.mem_cons.1 hm with rfl | hm
    · exact Nat.le_refl _
    · have hle := (Utf8.isRange_iff.1 within).1
      rw [stop] at hle
      exact Nat.le_trans hle (ih other hm)

theorem pairwise_stop (h : InStep source stack replays) :
    replays.Pairwise fun inner outer => inner.stop ≤ outer.cursor := by
  induction h with
  | outside => exact .nil
  | attached node around attached range ih => exact ih
  | alternative node point replay around detached kind start range within stop ih =>
    refine List.pairwise_cons.2 ⟨fun other hm => ?_, ih⟩
    rw [stop]
    exact around.reached_le other hm

theorem reached_leave (h : InStep source (node :: outer) replays) (hd : node.detached = true) :
    ∃ replay inner, replays = replay :: inner ∧ reached source inner = replay.stop := by
  cases h with
  | attached _ around attached range => simp [attached] at hd
  | alternative _ point replay around detached kind start range within stop =>
    exact ⟨replay, _, rfl, stop.symm⟩

end InStep

theorem Moves.source_eq (hm : builder.Moves event after) (hr : builder.replays ≠ []) :
    after.source = builder.source := by
  cases hm with
  | refused => rfl
  | opened slot kind hfirst => rw [entered, push_eq]
  | alternative kind point outer hs hk =>
    rw [entered, push_eq]
    rfl
  | closed node outer hs => rfl
  | read slot kind text hs hnone => exact absurd hnone hr
  | replayed slot kind text replay outer hs _ ha =>
    rw [push_eq]
    rfl

theorem Sync.source_run (h : builder.Sync)
    (hr : ∀ part, part <+: rest → part ≠ rest → (builder.run part).replays ≠ []) :
    (builder.run rest).source = builder.source := by
  induction rest generalizing builder with
  | nil => rfl
  | cons event rest ih =>
    obtain ⟨after, hm, hstep⟩ := h.exists_step event
    have hfirst : (builder.step event).source = builder.source := by
      rw [hstep]
      exact hm.source_eq (hr [] List.nil_prefix (List.cons_ne_nil _ _).symm)
    rw [run_cons, ← hfirst]
    exact ih (h.step event) fun part hp hne =>
      hr (event :: part) (List.cons_prefix_cons.2 ⟨rfl, hp⟩) (by simpa using hne)

def Opens (event : Event) (node : OpenNode) : Prop :=
  (event = .alternative node.kind ∧ node.detached = true) ∨
    ∃ slot, event = .start slot node.kind ∧ node.detached = false

/-- Whether a node was opened by one of the events, which is the one that added it. -/
def OpenedBy (language : Language) (events : List Event) (node : OpenNode) : Prop :=
  ∃ before event later, events = before ++ event :: later ∧
    ((Builder.new language).run before).nodes.size = node.id ∧
      (((Builder.new language).run before).step event).nodes.size = node.id + 1 ∧ Opens event node

theorem OpenedBy.append (h : OpenedBy language events node) (more : List Event) :
    OpenedBy language (events ++ more) node := by
  obtain ⟨before, event, later, rfl, hid, hnext, hopens⟩ := h
  exact ⟨before, event, later ++ more, by simp, hid, hnext, hopens⟩

theorem OpenedBy.congr {other : OpenNode} (h : OpenedBy language events node)
    (hb : other.bare = node.bare) : OpenedBy language events other := by
  have hid : other.id = node.id := congrArg (·.id) hb
  have hkind : other.kind = node.kind := congrArg (·.kind) hb
  have hdetached : other.detached = node.detached := congrArg (·.detached) hb
  simpa only [OpenedBy, Opens, hid, hkind, hdetached] using h

theorem exists_of_mem_told {added : Added} (hm : node ∈ told stack added) :
    ∃ old ∈ stack, old.bare = node.bare := by
  have hbare := List.mem_map_of_mem (f := OpenNode.bare) hm
  rwa [map_bare_told, List.mem_map] at hbare

theorem Moves.mem_stack (hm : builder.Moves event after) (hn : node ∈ after.stack) :
    (∃ old ∈ builder.stack, old.bare = node.bare) ∨
      builder.nodes.size = node.id ∧ after.nodes.size = node.id + 1 ∧ Opens event node := by
  cases hm with
  | refused => exact .inl ⟨node, hn, rfl⟩
  | opened slot kind hfirst =>
    rw [stack_entered] at hn
    rcases List.mem_cons.1 hn with rfl | hn
    · exact .inr ⟨rfl, size_nodes_entered .., .inr ⟨slot, rfl, rfl⟩⟩
    · exact .inl (exists_of_mem_told hn)
  | alternative kind point outer hs hk =>
    rw [stack_entered] at hn
    rcases List.mem_cons.1 hn with rfl | hn
    · exact .inr ⟨rfl, size_nodes_entered .., .inl ⟨rfl, rfl⟩⟩
    · exact .inl (exists_of_mem_told hn)
  | closed top outer hs => exact .inl ⟨node, hs ▸ List.mem_cons_of_mem _ hn, rfl⟩
  | read slot kind text hs hr =>
    rw [push_eq] at hn
    exact .inl (exists_of_mem_told hn)
  | replayed slot kind text replay outer hs hr ha =>
    rw [push_eq] at hn
    exact .inl (exists_of_mem_told hn)

/-- Every open node was opened by an event. The last event opens one or leaves all others open. -/
theorem openedBy_of_mem (language : Language) (events : List Event) :
    ∀ node ∈ ((Builder.new language).run events).stack, OpenedBy language events node := by
  induction events using List.reverseRecOn with
  | nil => simp [new]
  | append_singleton events event ih =>
    obtain ⟨after, hm, hstep⟩ := (sync_run language events).exists_step event
    intro node hnode
    rw [run_append, run_cons, run_nil, hstep] at hnode
    rcases hm.mem_stack hnode with ⟨old, hold, hbare⟩ | ⟨hid, hnext, hopens⟩
    · exact ((ih old hold).append [event]).congr hbare.symm
    · exact ⟨events, event, [], rfl, hid, by rw [hstep]; exact hnext, hopens⟩

/-- Whether the replays of a builder are those of its open alternatives. -/
structure Matched (builder : Builder) : Prop where
  /-- The kinds and starts of the open nodes are those that are stored. -/
  stored : ∀ node ∈ builder.stack, header? builder.nodes node.id = some (node.kind, node.start)
  /-- What the node around an open node has pending tells whether it is an alternative. -/
  found : ∀ node outer, node :: outer <:+ builder.stack →
    findsAlternative outer node.id = node.detached
  length_eq : builder.replays.length = builder.stack.countP (·.detached)
  replayOf : List.Forall₂ (ReplayOf builder.source) (alternatives builder.stack) builder.replays
  nested : builder.replays.Pairwise fun inner outer => inner.stop ≤ outer.cursor
  /-- The source is the same as long as something is replayed before each event. -/
  source : ∀ rest, (∀ part, part <+: rest → part ≠ rest → (builder.run part).replays ≠ []) →
    (builder.run rest).source = builder.source
  span : ∀ data ∈ builder.nodes,
    data.span.start ≤ data.span.stop ∧ data.span.stop ≤ builder.source.utf8ByteSize
  closing : ∀ node outer, builder.stack = node :: outer → node.detached = false →
    builder.closeNode.replays = builder.replays
  /-- Closing an alternative ends its replay and takes the builder back to where it was opened. -/
  closingAlternative : ∀ node outer, builder.stack = node :: outer → node.detached = true →
    ∃ replay inner, builder.replays = replay :: inner ∧ builder.closeNode.replays = inner ∧
      builder.closeNode.position = replay.stop
  /-- Closing the outermost alternative takes the builder to the end of the source. -/
  closingOutermost : ∀ node outer, builder.stack = node :: outer → node.detached = true →
    outer.all (!·.detached) = true →
      builder.closeNode.position = builder.closeNode.source.utf8ByteSize

theorem Sync.exists_closeNode (h : builder.Sync) (hs : builder.stack = node :: outer)
    (hd : node.detached = true) :
    ∃ replay inner, builder.replays = replay :: inner ∧ builder.closeNode.replays = inner ∧
      builder.closeNode.position = replay.stop := by
  have hstep := h.inStep
  rw [hs] at hstep
  obtain ⟨replay, inner, hreplays, hreached⟩ := hstep.reached_leave hd
  have hclosed : builder.closeNode.replays = inner := by
    rw [builder.closeNode_eq_left hs]
    exact (if_pos hd).trans (by rw [hreplays, List.drop_one, List.tail_cons])
  refine ⟨replay, inner, hreplays, hclosed, ?_⟩
  rw [position_eq_reached, hclosed, builder.closeNode_eq_left hs]
  exact hreached

theorem Sync.matched (h : builder.Sync) : builder.Matched where
  stored := h.filed.stored
  found := h.filed.found
  length_eq := h.inStep.length_eq
  replayOf := h.inStep.forall₂_alternatives
  nested := h.inStep.pairwise_stop
  source _ hr := h.source_run hr
  span data hm := by
    obtain ⟨hle, -, hstop⟩ := Utf8.isRange_iff.1 (h.spanned data hm)
    have hsize := Utf8.le_size_of_isBoundary hstop
    rw [Utf8.size_toList] at hsize
    exact ⟨hle, hsize⟩
  closing node outer hs hd := by
    rw [builder.closeNode_eq_left hs]
    exact if_neg (by simp [hd])
  closingAlternative _ _ hs hd := h.exists_closeNode hs hd
  closingOutermost node outer hs hd hall := by
    obtain ⟨replay, inner, hreplays, hclosed, -⟩ := h.exists_closeNode hs hd
    have hlength := h.inStep.length_eq
    rw [hreplays, hs, List.countP_cons_of_pos hd, List.countP_eq_zero.2 (by simpa using hall),
      List.length_cons] at hlength
    rw [position, hclosed, List.length_eq_zero_iff.1 (Nat.succ.inj hlength)]

/-- The replays of a builder are those of its open alternatives, after all events. -/
theorem matched_run (language : Language) (events : List Event) :
    (∀ node ∈ ((Builder.new language).run events).stack, OpenedBy language events node) ∧
      ((Builder.new language).run events).Matched :=
  ⟨openedBy_of_mem language events, (sync_run language events).matched⟩

/-- Two open alternatives, one in a variation point of the other, and events that are refused. -/
def attempts : List Event :=
  [.finish, .start none (.special .parseError), .start none (.special .variationPoint),
    .error (some .raw) "éb", .alternative (.special .parseError),
    .start none (.special .variationPoint), .error (some .raw) "é",
    .alternative (.special .parseError), .blot none "b"]

theorem matched_attempts :
    ((Builder.new .c).run attempts).replays = [⟨0, 2⟩, ⟨2, 3⟩] ∧
      ((Builder.new .c).run attempts).Matched :=
  ⟨by decide +kernel, (matched_run .c attempts).2⟩

end Builder

end CodeTree
