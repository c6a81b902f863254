import CodeTree.Proofs.BuilderSource
import CodeTree.Proofs.Draft
import CodeTree.Proofs.OutlineRun
import CodeTree.Proofs.ReplayStack
import Mathlib.Algebra.Group.Nat.Defs

/-!
# Which streams build a tree

A new builder makes a tree of a stream of events exactly if the stream is well-formed and does not
make too many nodes (`Tree.exists_ofEvents_iff`).

A well-formed stream is the events of a sound outline, whose tree is built. For the converse, a
stream that leaves no error and no open node is one draft, since every node that is opened is closed
later on (`exists_parts`). What the steps did not complain about makes the draft buildable: by
induction on the draft, its parts fit where they come (`Fitting`), and then they are built as their
outline is. What no step looks at, the slot of the alternatives, is seen to in the validity of the
tree.
-/

namespace CodeTree

namespace Builder

open Draft

variable {language : Language} {source : String} {builder : Builder} {slot : Option Slot}
  {kind : NodeKind} {text : String} {event : Event} {events : List Event}

theorem of_errors_openNode {detached : Bool}
    (h : (builder.openNode slot kind detached).errors = []) :
    builder.errors = [] ∧ kind.isTerminal = false ∧
      (∀ other, kind.language? = some other → other = builder.language) ∧
        (builder.stack = [] → builder.nodes = #[]) := by
  by_cases hfirst : builder.stack = [] → builder.nodes = #[]
  · rw [builder.openNode_eq_entered hfirst, errors_withErrors, List.append_eq_nil_iff,
      unopenable_eq_nil_iff] at h
    exact ⟨h.1, h.2.1, h.2.2, hfirst⟩
  · obtain ⟨hs, hn⟩ := Classical.not_imp.1 hfirst
    rw [builder.openNode_of_secondRoot hs hn] at h
    simp at h

theorem of_errors_openAlternative (h : (builder.openAlternative kind).errors = []) :
    ∃ owner outer, builder.stack = owner :: outer ∧ owner.kind = .special .variationPoint ∧
      builder.openAlternative kind =
        (builder.replaying owner).openNode (some .alternatives) kind true := by
  cases hs : builder.stack with
  | nil =>
    rw [builder.openAlternative_outside hs] at h
    simp at h
  | cons owner outer =>
    by_cases hk : owner.kind = .special .variationPoint
    · exact ⟨owner, outer, rfl, hk, builder.openAlternative_eq_openNode hs hk kind⟩
    · rw [builder.openAlternative_elsewhere hs hk] at h
      simp at h

theorem of_errors_closeNode (h : builder.closeNode.errors = []) :
    builder.errors = [] ∧ ∃ node outer, builder.stack = node :: outer ∧
      closingErrors node.kind node.pending = [] := by
  cases hs : builder.stack with
  | nil =>
    rw [builder.closeNode_unmatched hs] at h
    simp at h
  | cons node outer =>
    rw [builder.closeNode_eq_left hs, errors_withErrors, List.append_eq_nil_iff] at h
    exact ⟨h.1, node, outer, rfl, h.2⟩

theorem of_errors_addLeaf (h : (builder.addLeaf slot kind text).errors = []) :
    builder.errors = [] ∧ kind.isTerminal = true ∧
      (∀ other, kind.language? = some other → other = builder.language) ∧
        builder.stack ≠ [] ∧ ∀ replay outer, builder.replays = replay :: outer →
          replay.fits builder.source text = true := by
  by_cases hs : builder.stack = []
  · rw [builder.addLeaf_outside hs] at h
    simp at h
  have hright : builder.errors ++ unaddable builder.language slot kind = [] →
      builder.errors = [] ∧ kind.isTerminal = true ∧
        ∀ other, kind.language? = some other → other = builder.language := by
    rw [List.append_eq_nil_iff, unaddable_eq_nil_iff]
    exact id
  cases hr : builder.replays with
  | nil =>
    rw [builder.addLeaf_read hs hr] at h
    obtain ⟨herrors, ht, hl⟩ := hright h
    exact ⟨herrors, ht, hl, hs, by simp⟩
  | cons replay outer =>
    rw [builder.addLeaf_replay hs hr] at h
    split at h
    · next hfits =>
      obtain ⟨herrors, ht, hl⟩ := hright h
      refine ⟨herrors, ht, hl, hs, fun other rest heq => ?_⟩
      rwa [← (List.cons.inj heq).1]
    · simp at h

theorem of_errors_step (h : (builder.step event).errors = []) : builder.errors = [] := by
  cases event with
  | start slot kind => exact (of_errors_openNode h).1
  | alternative kind =>
    obtain ⟨_, _, -, -, hopen⟩ := of_errors_openAlternative h
    rw [step, hopen] at h
    exact (of_errors_openNode h).1
  | finish => exact (of_errors_closeNode h).1
  | leaf slot kind text => exact (of_errors_addLeaf h).1

theorem of_errors_run (h : (builder.run events).errors = []) : builder.errors = [] := by
  induction events generalizing builder with
  | nil => exact h
  | cons event rest ih => exact of_errors_step (ih h)

theorem stack_ne_nil_of_depth {n : Nat} (h : builder.depth = n + 1) : builder.stack ≠ [] := by
  intro hs
  simp [depth, hs] at h

theorem Follows.depth_eq {before after : Builder} (h : Follows text before after) :
    after.depth = before.depth := by
  simpa [depth] using congrArg List.length h.stack

theorem depth_closeNode (builder : Builder) : builder.closeNode.depth = builder.depth - 1 := by
  cases hs : builder.stack with
  | nil =>
    rw [builder.closeNode_unmatched hs]
    simp [depth, withErrors, hs]
  | cons node outer =>
    rw [builder.closeNode_eq_left hs]
    simp [depth, withErrors, left, hs]

theorem depth_openNode (builder : Builder) (hs : builder.stack ≠ []) (slot : Option Slot)
    (kind : NodeKind) (detached : Bool) :
    (builder.openNode slot kind detached).depth = builder.depth + 1 := by
  obtain ⟨node, outer, hopen, -, -, hfollows⟩ :=
    exists_openNode builder (.inl hs) slot kind detached
  rw [← hfollows.depth_eq, depth, depth, hopen, List.length_cons]

theorem depth_step_event {opening : Opening} (hs : builder.stack ≠ [])
    (h : (builder.step (opening.event kind)).errors = []) :
    (builder.step (opening.event kind)).depth = builder.depth + 1 := by
  cases opening with
  | start slot => exact depth_openNode builder hs slot kind false
  | alternative =>
    obtain ⟨owner, _, -, -, hopen⟩ := of_errors_openAlternative h
    rw [Opening.event, step, hopen]
    exact depth_openNode (builder.replaying owner) hs _ kind true

/-- A stream that closes the innermost open node adds parts to it before. The parts of a node that is
opened end where that node is closed, and what follows is shorter, so the induction is on a bound of
the length. -/
theorem exists_parts (bound n : Nat) (builder : Builder) (events : List Event)
    (hb : events.length ≤ bound) (hd : builder.depth = n + 1)
    (he : (builder.run events).errors = []) (hend : (builder.run events).depth ≤ n) :
    ∃ parts rest, events = eventsAll parts ++ .finish :: rest ∧
      (builder.run (eventsAll parts)).depth = n + 1 := by
  induction bound generalizing n builder events with
  | zero =>
    rw [List.length_eq_zero_iff.1 (Nat.le_zero.1 hb), run_nil] at hend
    omega
  | succ bound ih =>
    have hs := stack_ne_nil_of_depth hd
    have hopen : ∀ (opening : Opening) (kind : NodeKind) (tail : List Event),
        events = opening.event kind :: tail → ∃ parts rest,
          events = eventsAll parts ++ .finish :: rest ∧
            (builder.run (eventsAll parts)).depth = n + 1 := by
      rintro opening kind tail rfl
      rw [List.length_cons] at hb
      rw [run_cons] at he hend
      have hdepth := depth_step_event hs (of_errors_run he)
      obtain ⟨inner, after, rfl, hinner⟩ := ih (n + 1) _ tail (by omega) (by omega) he (by omega)
      rw [List.length_append, List.length_cons] at hb
      rw [run_append, run_cons, step] at he hend
      have hclosed := depth_closeNode ((builder.step (opening.event kind)).run (eventsAll inner))
      obtain ⟨parts, rest, rfl, hparts⟩ := ih n _ after (by omega) (by omega) he hend
      refine ⟨.node opening kind inner :: parts, rest, by simp [Draft.events], ?_⟩
      rw [eventsAll_cons, Draft.events, List.cons_append, run_cons, List.append_assoc, run_append,
        List.singleton_append, run_cons]
      exact hparts
    cases events with
    | nil =>
      rw [run_nil] at hend
      omega
    | cons event tail =>
      cases event with
      | start slot kind => exact hopen (.start slot) kind tail rfl
      | alternative kind => exact hopen .alternative kind tail rfl
      | finish => exact ⟨[], tail, by simp, by simpa using hd⟩
      | leaf slot kind text =>
        rw [List.length_cons] at hb
        rw [run_cons] at he hend
        have hdepth : (builder.step (.leaf slot kind text)).depth = builder.depth :=
          (follows_addLeaf hs slot kind text).depth_eq
        obtain ⟨parts, rest, rfl, hparts⟩ := ih n _ tail (by omega) (by omega) he hend
        refine ⟨.leaf slot kind text :: parts, rest, by simp [Draft.events], ?_⟩
        rw [eventsAll_cons, Draft.events, List.singleton_append, run_cons]
        exact hparts

theorem of_errors_step_outside (hs : builder.stack = []) (he : (builder.step event).errors = []) :
    (∃ slot kind, event = .start slot kind) ∧ builder.nodes = #[] := by
  cases event with
  | start slot kind => exact ⟨⟨slot, kind, rfl⟩, (of_errors_openNode he).2.2.2 hs⟩
  | alternative kind =>
    obtain ⟨_, _, hstack, -⟩ := of_errors_openAlternative he
    rw [hs] at hstack
    cases hstack
  | finish =>
    obtain ⟨-, _, _, hstack, -⟩ := of_errors_closeNode he
    rw [hs] at hstack
    cases hstack
  | leaf slot kind text => exact absurd hs (of_errors_addLeaf he).2.2.2.1

theorem size_nodes_openNode {detached : Bool}
    (h : (builder.openNode slot kind detached).errors = []) :
    (builder.openNode slot kind detached).nodes.size = builder.nodes.size + 1 := by
  rw [builder.openNode_eq_entered (of_errors_openNode h).2.2.2]
  exact builder.size_nodes_entered slot kind detached

/-- A stream that leaves a tree behind is one node that is opened and closed. -/
theorem exists_root (he : ((Builder.new language).run events).errors = [])
    (hs : ((Builder.new language).run events).stack = [])
    (hn : ((Builder.new language).run events).nodes.isEmpty = false) :
    ∃ slot kind parts, events = (Draft.node (.start slot) kind parts).events := by
  cases events with
  | nil => simp [Builder.new] at hn
  | cons event tail =>
    rw [run_cons] at he hs
    obtain ⟨⟨slot, kind, rfl⟩, -⟩ := of_errors_step_outside rfl (of_errors_run he)
    have hfirst := size_nodes_openNode (of_errors_run he)
    obtain ⟨node, outer, hopen, -, -, hfollows⟩ :=
      exists_openNode (Builder.new language) (.inr rfl) slot kind false
    have hdepth : ((Builder.new language).step (.start slot kind)).depth = 0 + 1 := by
      have houter : outer.length = 0 := hfollows.depth_eq
      rw [step, depth, hopen, List.length_cons, houter]
    obtain ⟨parts, rest, rfl, hparts⟩ := exists_parts _ 0 _ tail (Nat.le_refl _) hdepth he
      (by simp [depth, hs])
    cases rest with
    | nil => exact ⟨slot, kind, parts, by rw [Draft.events, Opening.event]⟩
    | cons event rest =>
      -- The root is closed, so nothing may follow.
      rw [run_append, run_cons, run_cons] at he
      have hclosed : (((Builder.new language).step (.start slot kind)).run
          (eventsAll parts)).closeNode.stack = [] := by
        rw [← List.length_eq_zero_iff]
        exact (depth_closeNode _).trans (by rw [hparts])
      obtain ⟨-, hempty⟩ := of_errors_step_outside hclosed (of_errors_run he)
      have hsync := (sync_new language).step (.start slot kind)
      have hgrown : ((Builder.new language).openNode slot kind false).nodes.size ≤
          (((Builder.new language).step (.start slot kind)).run
            (eventsAll parts)).closeNode.nodes.size :=
        Nat.le_trans (hsync.size_nodes_run_le _) ((hsync.run _).size_nodes_step_le .finish)
      rw [hfirst, hempty] at hgrown
      cases hgrown

/-- Parts that fit into an open node that has come from its start over a text. -/
structure Fitting (language : Language) (source : String) (top : OpenNode) (before : String)
    (limit : Nat) (parts : List Draft) : Prop where
  every : EveryPart (Draft.Buildable language) parts
  occurs : Occurs source (top.start + before.utf8ByteSize) (textAll parts)
  le : top.start + before.utf8ByteSize + (textAll parts).utf8ByteSize ≤ limit
  owner : ∀ part ∈ parts, part.isAlternative = true → top.kind = .special .variationPoint
  replays : Replays before parts

variable {top : OpenNode} {outer : List OpenNode} {before : String} {limit : Nat}
  {part : Draft} {parts rest : List Draft}

theorem Fitting.cons (h : Fitting language source top before limit [part])
    (h' : Fitting language source top (before ++ part.added) limit rest) :
    Fitting language source top before limit (part :: rest) := by
  have hpart := h.occurs
  have hrest := h'.occurs
  have hle := h'.le
  rw [textAll_cons, textAll_nil, String.append_empty] at hpart
  rw [String.utf8ByteSize_append, ← Nat.add_assoc] at hrest hle
  refine ⟨⟨h.every.1, h'.every⟩, ?_, ?_, ?_, h.replays.1, h'.replays⟩
  · rw [textAll_cons]
    exact Occurs.append_iff.2 ⟨hpart, hrest⟩
  · rw [textAll_cons, String.utf8ByteSize_append, ← Nat.add_assoc]
    exact hle
  · exact List.forall_mem_cons.2 ⟨h.owner part List.mem_cons_self, h'.owner⟩

theorem Fitting.attached (hp : part.Every (Draft.Buildable language))
    (ha : part.isAlternative = false)
    (ho : Occurs source (top.start + before.utf8ByteSize) part.text)
    (hle : top.start + before.utf8ByteSize + part.text.utf8ByteSize ≤ limit) :
    Fitting language source top before limit [part] := by
  have htext : textAll [part] = part.text := by
    rw [textAll_cons, textAll_nil, String.append_empty, added_of_not_isAlternative ha]
  refine ⟨⟨hp, trivial⟩, by rwa [htext], by rwa [htext], ?_, ?_, trivial⟩
  · intro other hm hother
    rw [List.mem_singleton.1 hm, ha] at hother
    cases hother
  · intro hother
    rw [ha] at hother
    cases hother

theorem Fitting.detached (hp : part.Every (Draft.Buildable language))
    (ha : part.isAlternative = true) (hk : top.kind = .special .variationPoint)
    (hb : Occurs source top.start before) (ho : Occurs source top.start part.text)
    (hle : part.text.utf8ByteSize ≤ before.utf8ByteSize)
    (hlimit : top.start + before.utf8ByteSize ≤ limit) :
    Fitting language source top before limit [part] := by
  have htext : textAll [part] = "" := by
    rw [textAll_cons, textAll_nil, String.append_empty, added_of_isAlternative ha]
  refine ⟨⟨hp, trivial⟩, ?_, by rwa [htext], fun _ _ _ => hk, fun _ => ho.prefix_of_le hb hle,
    trivial⟩
  rw [htext]
  exact (Occurs.append_iff.1 (by rwa [String.append_empty])).2

theorem Fitting.run (hf : Fitting language source top before limit parts)
    (h : Stands language source top outer (top.start + before.utf8ByteSize) limit builder)
    (hb : Occurs source top.start before) :
    builder.run (eventsAll parts) =
      (builder.moveTo source
        (top.start + before.utf8ByteSize + (textAll parts).utf8ByteSize)).extend top outer
          (outlineAll top.start (top.start + before.utf8ByteSize) parts) := by
  rw [← hf.every.eventsAll_outline top.start before parts hb hf.occurs hf.replays]
  exact run_eventsAll builder top outer _ limit _ _ h
    (hf.every.allParts_outline (fun _ h => h.replays)
      (fun _ _ h ho => h.buildable_label ho) top.start before parts hb hf.occurs hf.replays)
    (tiles_outlineAll top.start hf.replays) hf.le (fun _ => detached_outlineAll hf.owner)
    (fun _ => hf.every.structured_outlineAll)

theorem Fitting.stands (hf : Fitting language source top before limit parts)
    (h : Stands language source top outer (top.start + before.utf8ByteSize) limit builder)
    (hb : Occurs source top.start before) :
    (∃ pending, Stands language source { top with pending := pending } outer
      (top.start + (before ++ textAll parts).utf8ByteSize) limit
      (builder.run (eventsAll parts))) ∧
        ((builder.run (eventsAll parts)).replays = [] → builder.replays = []) := by
  have hstop := (Utf8.isRange_iff.1 hf.occurs.isRange).2.2
  rw [hf.run h hb, String.utf8ByteSize_append, ← Nat.add_assoc]
  refine ⟨⟨_, h.language, rfl, (h.reads.moveTo hstop).congr rfl rfl, hf.le⟩, fun hr => ?_⟩
  simpa [Builder.extend, Builder.moveTo] using hr

/-- A node whose parts fit, and which is closed without an error, is buildable. -/
theorem Fitting.every_node (opening : Opening)
    (hf : Fitting language source top "" limit parts)
    (h : Stands language source top outer top.start limit builder) (hp : top.pending = [])
    (ht : top.kind.isTerminal = false)
    (hl : ∀ other, top.kind.language? = some other → other = language)
    (hb : Occurs source top.start "")
    (he : ((builder.run (eventsAll parts)).closeNode).errors = []) :
    (node opening top.kind parts).Every (Draft.Buildable language) := by
  obtain ⟨-, closed, _, hstack, hclosing⟩ := of_errors_closeNode he
  rw [hf.run h hb] at hstack
  obtain ⟨rfl, -⟩ := List.cons.inj hstack
  simp only [hp, List.nil_append] at hclosing
  obtain ⟨hdeclared, harity⟩ := closingErrors_added_eq_nil_iff.1 hclosing
  refine ⟨⟨hl, ht, ?_, ?_, hf.owner, hf.replays⟩, hf.every⟩
  · intro part hm slot hs
    obtain ⟨outline, houtline, _, hlabel⟩ := exists_mem_outlineAll _ _ hm
    exact hdeclared outline houtline slot (by rw [hlabel]; exact hs)
  · intro decl hd
    have hcount := harity decl hd
    rw [countP_placeIn] at hcount
    exact hcount

theorem Reads.occurs_of_fits {pos : Nat} (h : Reads source pos limit builder)
    (hpos : Utf8.isBoundary pos source.toList = true) (hle : pos ≤ limit)
    (hread : builder.replays = [] → Occurs source pos text)
    (hfits : ∀ replay outer, builder.replays = replay :: outer →
      replay.fits builder.source text = true) :
    Occurs source pos text ∧ pos + text.utf8ByteSize ≤ limit := by
  cases h with
  | ahead replays read boundary whole =>
    have ho := hread replays
    have hstop := Utf8.le_size_of_isBoundary (Utf8.isRange_iff.1 ho.isRange).2.2
    rw [Utf8.size_toList] at hstop
    exact ⟨ho, by omega⟩
  | again outer bound replays read le boundary =>
    have hfit := hfits _ _ replays
    rw [Replay.fits, read, textBefore, String.toList_ofList, Bool.and_eq_true, decide_eq_true_eq,
      List.isPrefixOf_iff_prefix] at hfit
    have hrange := Utf8.isRange_iff.2 ⟨Nat.le_trans hle le, hpos, boundary⟩
    exact ⟨.of_prefix_drop hrange hfit.2, hfit.1⟩

/-- A node that is opened, filled and closed without an error is buildable. The last hypothesis is
what the induction gives for the parts. -/
theorem Stands.every_of_openNode {start : Nat}
    (h : Stands language source top outer start limit builder) (opening : Opening)
    (hb : Occurs source start "")
    (he : (((builder.openNode opening.slot kind (opening == .alternative)).run
      (eventsAll parts)).closeNode).errors = [])
    (ih : ∀ (inner : Builder) (node : OpenNode) (around : List OpenNode), node.start = start →
      Stands language source node around start limit inner → inner.replays = builder.replays →
        (inner.run (eventsAll parts)).errors = [] → Fitting language source node "" limit parts) :
    (node opening kind parts).Every (Draft.Buildable language) ∧
      Occurs source start (textAll parts) ∧ start + (textAll parts).utf8ByteSize ≤ limit := by
  obtain ⟨-, ht, hl, -⟩ := of_errors_openNode (of_errors_run (of_errors_closeNode he).1)
  let label := (node opening kind parts).labelAt start
  have hopen : builder.openNode opening.slot kind (opening == .alternative) =
      builder.opened top outer label := by
    have heq : builder.openNode label.slot label.kind label.detached =
        builder.opened top outer label := openNode_eq ht hl h.stack h.reads.position_eq
    exact heq
  rw [hopen] at he
  rw [h.language] at hl
  have hstands : Stands language source (openFor builder.nodes.size label) _ start limit
      (builder.opened top outer label) := ⟨h.language, rfl, h.reads.congr rfl rfl, h.le⟩
  have hf := ih _ _ _ rfl hstands rfl (of_errors_closeNode he).1
  exact ⟨hf.every_node opening hstands rfl ht hl hb he, hf.occurs, hf.le⟩

mutual

/-- A part that is built without an error fits. What the builder reads for the first time is given
with the source; what it reads again it has compared. -/
theorem fitting_of_run : ∀ (part : Draft) (builder : Builder) (top : OpenNode)
    (outer : List OpenNode) (before : String) (limit : Nat),
    Stands language source top outer (top.start + before.utf8ByteSize) limit builder →
      Occurs source top.start before →
        (builder.replays = [] → Occurs source (top.start + before.utf8ByteSize) part.added) →
          (builder.run part.events).errors = [] → Fitting language source top before limit [part]
  | .leaf slot kind text, builder, top, outer, before, limit, h, hb, hread, he => by
    rw [Draft.events, run_cons, run_nil, step] at he
    obtain ⟨-, ht, hl, -, hfits⟩ := of_errors_addLeaf he
    rw [h.language] at hl
    have hpos := (Utf8.isRange_iff.1 hb.isRange).2.2
    obtain ⟨ho, hle⟩ := h.reads.occurs_of_fits hpos h.le hread hfits
    refine .attached ⟨hl, ht, by simp [Draft.parts], fun decl hd => ?_, by simp [Draft.parts],
      trivial⟩ rfl ho hle
    rw [Draft.kind, NodeKind.slots_of_isTerminal ht] at hd
    cases hd
  | .node (.start slot) kind parts, builder, top, outer, before, limit, h, hb, hread, he => by
    rw [Draft.events, Opening.event, run_cons, run_append, run_cons, run_nil] at he
    have hempty : Occurs source (top.start + before.utf8ByteSize) "" :=
      (Occurs.append_iff.1 (by rwa [String.append_empty])).2
    obtain ⟨hevery, ho, hle⟩ := h.every_of_openNode (.start slot) hempty he
      fun inner node around hn hi hr hrun =>
        fittingAll_of_run parts inner node around "" limit (by rw [hn]; exact hi)
          (by rw [hn]; exact hempty) (fun hnil => by rw [hn]; exact hread (hr ▸ hnil)) hrun
    exact .attached hevery rfl ho hle
  | .node .alternative kind parts, builder, top, outer, before, limit, h, hb, hread, he => by
    rw [Draft.events, Opening.event, run_cons, run_append, run_cons, run_nil] at he
    obtain ⟨owner, around, hstack, hk, hopen⟩ :=
      of_errors_openAlternative (of_errors_run (of_errors_closeNode he).1)
    rw [h.stack] at hstack
    obtain ⟨rfl, rfl⟩ := List.cons.inj hstack
    rw [step, step, hopen] at he
    have hreplay : Stands language source top outer top.start (top.start + before.utf8ByteSize)
        (builder.replaying top) := by
      rw [replaying, h.reads.position_eq]
      exact h.replay (Nat.le_add_right _ _)
    have hempty : Occurs source top.start "" := .of_isPrefix List.nil_prefix hb
    obtain ⟨hevery, ho, hle⟩ := hreplay.every_of_openNode .alternative hempty he
      fun inner node around hn hi hr hrun =>
        fittingAll_of_run parts inner node around "" _ (by rw [hn]; exact hi)
          (by rw [hn]; exact hempty) (fun hnil => by rw [hr] at hnil; cases hnil) hrun
    exact .detached hevery rfl hk hb ho (Nat.le_of_add_le_add_left hle) h.le

theorem fittingAll_of_run : ∀ (parts : List Draft) (builder : Builder) (top : OpenNode)
    (outer : List OpenNode) (before : String) (limit : Nat),
    Stands language source top outer (top.start + before.utf8ByteSize) limit builder →
      Occurs source top.start before →
        (builder.replays = [] → Occurs source (top.start + before.utf8ByteSize) (textAll parts)) →
          (builder.run (eventsAll parts)).errors = [] →
            Fitting language source top before limit parts
  | [], builder, top, outer, before, limit, h, hb, _, _ => by
    have hempty : Occurs source (top.start + before.utf8ByteSize) "" :=
      (Occurs.append_iff.1 (by rwa [String.append_empty])).2
    exact ⟨trivial, by rwa [textAll_nil], by rw [textAll_nil]; exact h.le, by simp, trivial⟩
  | part :: rest, builder, top, outer, before, limit, h, hb, hread, he => by
    have hsplit := fun hr => Occurs.append_iff.1 (textAll_cons part rest ▸ hread hr)
    rw [eventsAll_cons, run_append] at he
    have hpart := fitting_of_run part builder top outer before limit h hb
      (fun hr => (hsplit hr).1) (of_errors_run he)
    have hadded : textAll [part] = part.added := by
      rw [textAll_cons, textAll_nil, String.append_empty]
    have hevents : eventsAll [part] = part.events := by
      rw [eventsAll_cons, eventsAll_nil, List.append_nil]
    obtain ⟨⟨pending, hstands⟩, hreplays⟩ := hpart.stands h hb
    have hbefore := hpart.occurs
    rw [hadded] at hstands hbefore
    rw [hevents] at hstands hreplays
    have hrest := fittingAll_of_run rest (builder.run part.events) { top with pending := pending }
      outer (before ++ part.added) limit hstands (Occurs.append_iff.2 ⟨hb, hbefore⟩)
      (fun hr => by
        rw [String.utf8ByteSize_append, ← Nat.add_assoc]
        exact (hsplit (hreplays hr)).2) he
    exact hpart.cons ⟨hrest.every, hrest.occurs, hrest.le, hrest.owner, hrest.replays⟩

end

/-- A root that is built without an error is buildable. The source is its text. -/
theorem every_of_errors_run
    (he : ((Builder.new language).run (node (.start slot) kind parts).events).errors = []) :
    (node (.start slot) kind parts).Every (Draft.Buildable language) := by
  rw [Draft.events, Opening.event, run_cons, run_append, run_cons, run_nil] at he
  obtain ⟨-, ht, hl, -⟩ := of_errors_openNode (of_errors_run (of_errors_closeNode he).1)
  let label := (node (.start slot) kind parts).labelAt 0
  have hopen : (Builder.new language).step (.start slot kind) =
      { Builder.new language with nodes := #[unclosed none label], stack := [openFor 0 label] } := by
    have heq : (Builder.new language).openNode label.slot label.kind label.detached = _ :=
      openNode_root ht hl rfl rfl rfl
    exact heq
  rw [hopen] at he
  have hstands : Stands language (textAll parts) (openFor 0 label) [] 0
      (textAll parts).utf8ByteSize
      { Builder.new language with nodes := #[unclosed none label], stack := [openFor 0 label] } :=
    ⟨rfl, rfl, .ahead rfl (textBefore_zero _).symm (Utf8.isBoundary_zero _) rfl, Nat.zero_le _⟩
  have hself := Occurs.self (textAll parts)
  have hempty : Occurs (textAll parts) 0 "" := .of_isPrefix List.nil_prefix hself
  have hf := fittingAll_of_run parts _ (openFor 0 label) [] "" _ hstands hempty (fun _ => hself)
    (of_errors_closeNode he).1
  exact hf.every_node (.start slot) hstands rfl ht hl hempty he

end Builder

namespace Draft

open Builder

variable {language : Language} {slot : Option Slot} {kind : NodeKind} {parts : List Draft}

theorem Every.rooted_outline (h : (node (.start slot) kind parts).Every (Buildable language)) :
    Outline.Rooted language (textAll parts) ((node (.start slot) kind parts).outline 0 0) := by
  have hself := Occurs.self (textAll parts)
  refine ⟨?_, ?_, ?_, ?_⟩
  · exact h.all_outline (fun _ h => h.replays) (fun _ _ h ho => h.buildable_label ho) 0 0 _ hself
  · rw [label_outline]
    exact h.1.isTerminal_eq
  · rw [label_outline]
    rfl
  · rw [label_outline, labelAt, text]
    exact congrArg _ (Nat.zero_add _)

theorem Every.valid_toTree_iff (h : (node (.start slot) kind parts).Every (Buildable language)) :
    (((node (.start slot) kind parts).outline 0 0).toTree language (textAll parts)).Valid ↔
      (node (.start slot) kind parts).Every (Sound language) ∧
        ((node (.start slot) kind parts).outline 0 0).size ≤ Tree.idLimit := by
  have hrooted := h.rooted_outline
  constructor
  · intro hv
    have hsound := Outline.all_sound_of_valid hv none NodeId.root _
      (Outline.laidOut_toTree language (textAll parts) _) hrooted.buildable
    have hevery : (node (.start slot) kind parts).Every (Sound language) :=
      (every_of_all (fun _ _ hs hb => Buildable.sound_of_label hb hs) 0 0 _ hsound).mp h
    exact ⟨hevery, (Outline.valid_toTree_iff hsound hrooted.span).1 hv⟩
  · rintro ⟨hevery, hsize⟩
    have hsound := hevery.all_outline (fun _ h => h.replays) (fun _ _ h ho => h.sound_label ho) 0 0
      _ (Occurs.self (textAll parts))
    exact (Outline.valid_toTree_iff hsound hrooted.span).2 hsize

theorem Every.ofEvents_events (h : (node (.start slot) kind parts).Every (Buildable language)) :
    Tree.ofEvents language (node (.start slot) kind parts).events =
        (((node (.start slot) kind parts).outline 0 0).toTree language (textAll parts)).validated ∧
      ((Builder.new language).run (node (.start slot) kind parts).events).nodes.size =
        ((node (.start slot) kind parts).outline 0 0).size := by
  have hrooted := h.rooted_outline
  rw [← h.events_outline 0 0 _ (Occurs.self (textAll parts))]
  refine ⟨hrooted.ofEvents_events, ?_⟩
  rw [hrooted.run_new, List.size_toArray, Outline.length_nodes]

end Draft

/-- A builder accepts exactly the well-formed streams, as long as they make no more nodes than there
are ids. -/
theorem Tree.exists_ofEvents_iff (language : Language) (events : List Event) :
    (∃ tree, Tree.ofEvents language events = .ok tree) ↔
      WellFormed language events ∧
        ((Builder.new language).run events).nodes.size < 2 ^ 32 := by
  constructor
  · rintro ⟨tree, hok⟩
    obtain ⟨herrors, hstack, hnodes, -, -⟩ := Builder.finish_eq_ok_iff.1 hok
    obtain ⟨slot, kind, parts, rfl⟩ := Builder.exists_root herrors hstack hnodes
    have hevery := Builder.every_of_errors_run herrors
    obtain ⟨hbuild, hsize⟩ := hevery.ofEvents_events
    rw [hbuild] at hok
    obtain ⟨hsound, hle⟩ := hevery.valid_toTree_iff.1 (Tree.validated_eq_ok_iff.1 hok).1
    refine ⟨⟨slot, kind, parts, rfl, hsound⟩, ?_⟩
    rw [hsize]
    exact Nat.lt_succ_of_le hle
  · rintro ⟨⟨slot, kind, parts, rfl, hsound⟩, hlt⟩
    have hevery := hsound.imp fun _ h => h.toBuildable
    obtain ⟨hbuild, hsize⟩ := hevery.ofEvents_events
    rw [hsize] at hlt
    have hvalid := hevery.valid_toTree_iff.2 ⟨hsound, Nat.le_of_lt_succ hlt⟩
    exact ⟨_, hbuild.trans (Tree.validated_eq_ok_iff.2 ⟨hvalid, rfl⟩)⟩

end CodeTree
