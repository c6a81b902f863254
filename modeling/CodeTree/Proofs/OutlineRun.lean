import CodeTree.Proofs.BuilderSteps

/-!
# Building an outline

A builder that stands where a buildable outline starts takes its events without an error, and what it
is then is given in full: it stands behind the outline, and the nodes of the outline have been added
to the innermost open node (`run_events`). The induction is on the outline. What carries it is
`Stands`: a part may be built at any depth, in the source or in an alternative, as long as it ends
before the limit of the text that may be read there.

A stream that is the events of one buildable outline of the source gives the tree of the outline, if
that is valid (`Rooted.ofEvents_events`).
-/

namespace CodeTree

namespace Builder

open Outline

/-- The innermost open node, and where a builder stands in the source. -/
structure Stands (language : Language) (source : String) (top : OpenNode)
    (outer : List OpenNode) (pos limit : Nat) (builder : Builder) : Prop where
  language : builder.language = language
  stack : builder.stack = top :: outer
  reads : Reads source pos limit builder
  le : pos ≤ limit

/-- Whether a node may come next in an open node. -/
def MayAdd (top : OpenNode) (pos limit : Nat) (label : Label) : Prop :=
  if label.detached then
    top.kind = .special .variationPoint ∧ label.slot = some .alternatives ∧
      label.kind.isTerminal = false ∧ label.span.start = top.start ∧ label.span.stop ≤ pos
  else label.span.start = pos ∧ label.span.stop ≤ limit

/-- Where a builder stands after a node that came at `pos`. -/
def landing (pos : Nat) (label : Label) : Nat :=
  if label.detached then pos else label.span.stop

variable {language : Language} {source : String} {builder : Builder} {top : OpenNode}
  {outer : List OpenNode} {pos limit : Nat}

theorem Stands.extend {part : Outline} (h : Stands language source top outer pos limit builder)
    (hr : Utf8.isRange part.label.span.start part.label.span.stop source.toList = true)
    (hm : MayAdd top pos limit part.label) :
    Stands language source
      { top with pending := top.pending ++ added builder.nodes.size [part] } outer
      (landing pos part.label) limit
      ((builder.moveTo source (landing pos part.label)).extend top outer [part]) := by
  rw [MayAdd] at hm
  refine ⟨h.language, rfl, ?_, ?_⟩
  · cases hd : part.label.detached with
    | true =>
      rw [landing, if_pos hd, h.reads.moveTo_self]
      exact h.reads.congr rfl rfl
    | false =>
      rw [landing, if_neg (by simp [hd])]
      exact (h.reads.moveTo (Utf8.isRange_iff.1 hr).2.2).congr rfl rfl
  · rw [landing]
    split at hm
    · next hd => rw [if_pos hd]; exact h.le
    · next hd => rw [if_neg hd]; exact hm.2

theorem step_leaf {label : Label} {parts : List Outline}
    (h : Stands language source top outer pos limit builder)
    (hs : Buildable language source label parts) (ht : label.kind.isTerminal = true)
    (hd : label.detached = false) (hstart : label.span.start = pos)
    (hstop : label.span.stop ≤ limit) :
    builder.step (.leaf label.slot label.kind (textAt source label.span)) =
      (builder.moveTo source label.span.stop).extend top outer [node label parts] := by
  have hlang : ∀ other, label.kind.language? = some other → other = builder.language := by
    rw [h.language]
    exact hs.language
  have hright : unaddable builder.language label.slot label.kind = [] :=
    unaddable_eq_nil_iff.2 ⟨ht, hlang⟩
  have hsize : label.span.start + (textAt source label.span).utf8ByteSize = label.span.stop := by
    have hle := (Utf8.isRange_iff.1 hs.range).1
    rw [utf8ByteSize_textAt hs.range]
    omega
  have hentry : nodesAll top.id builder.nodes.size [node label parts] =
      [⟨label.kind, label.span, some top.id, [], []⟩] := by
    rw [hs.leaf ht, nodesAll_cons, nodes_node]
    simp [entry, NodeKind.slots_of_isTerminal ht, idsWhere, numbered]
  have hopen : builder.stack ≠ [] := by simp [h.stack]
  have hpos : builder.position = label.span.start := by rw [h.reads.position_eq, hstart]
  cases h.reads with
  | ahead replays read boundary whole =>
    have htext : builder.source ++ textAt source label.span =
        textBefore source label.span.stop := by
      rw [read, ← hstart, textBefore_append_textAt hs.range]
    rw [step, builder.addLeaf_read hopen replays, hright, List.append_nil, hpos, hsize, push_eq]
    simp [grown, told, withErrors, replays, htext, h.stack, Builder.extend, Builder.moveTo, hentry,
      added, numbered, hd]
  | again outer' bound replays read le boundary =>
    have hfits : Replay.fits ⟨pos, limit⟩ builder.source (textAt source label.span) = true := by
      have hprefix := Utf8.slice_prefix_drop_take hs.range
        (Utf8.isRange_iff.2 ⟨Nat.le_trans hstop le, (Utf8.isRange_iff.1 hs.range).2.2, boundary⟩)
      rw [Replay.fits, ← hstart, hsize, read, textBefore, textAt, String.toList_ofList,
        String.toList_ofList, hprefix]
      simpa using hstop
    rw [step, builder.addLeaf_replay hopen replays, if_pos hfits, hright, List.append_nil, ← hstart,
      hsize, push_eq]
    simp [advanced, told, withErrors, replays, ← hstart, hsize, h.stack, Builder.extend,
      Builder.moveTo, hentry, added, numbered, hd]

/-- Opening a node, adding its parts and closing it. The third hypothesis is what the induction
gives for the parts. -/
theorem closeNode_run_openNode {label : Label} {parts : List Outline}
    (h : Stands language source top outer label.span.start limit builder)
    (hs : Buildable language source label parts) (ht : label.kind.isTerminal = false)
    (ih : ∀ (inner : Builder) (node : OpenNode) (around : List OpenNode),
      Stands language source node around label.span.start limit inner →
        node.kind = label.kind → node.start = label.span.start →
          inner.run (eventsAll source parts) =
            (inner.moveTo source label.span.stop).extend node around parts) :
    ((builder.openNode label.slot label.kind label.detached).run
        (eventsAll source parts)).closeNode =
      let moved := (builder.moveTo source label.span.stop).extend top outer [node label parts]
      { moved with
        replays := if label.detached then moved.replays.drop 1 else moved.replays } := by
  have hlang : ∀ other, label.kind.language? = some other → other = builder.language := by
    rw [h.language]
    exact hs.language
  have hreads : Reads source label.span.start limit (builder.opened top outer label) :=
    h.reads.congr rfl rfl
  rw [openNode_eq ht hlang h.stack h.reads.position_eq,
    ih (builder.opened top outer label) (openFor builder.nodes.size label) _
      ⟨h.language, rfl, hreads, h.le⟩ rfl rfl]
  refine (closeNode_eq builder.nodes (some top.id)
    ({ top with pending := top.pending ++ added builder.nodes.size [node label []] } :: outer)
    hs ?_ ?_ ?_).trans ?_
  · simp [Builder.extend, opened, openFor, Builder.moveTo]
  · simp [Builder.extend, opened, openFor, Builder.moveTo]
  · have hmoved := hreads.moveTo (Utf8.isRange_iff.1 hs.range).2.2
    exact (hmoved.congr rfl rfl).position_eq
  · simp [Builder.extend, Builder.moveTo, opened, nodesAll_cons, added, numbered]

theorem Stands.replay {start : Nat} (h : Stands language source top outer pos limit builder)
    (hle : start ≤ pos) :
    Stands language source top outer start pos
      { builder with replays := ⟨start, pos⟩ :: builder.replays } := by
  refine ⟨h.language, h.stack, ?_, hle⟩
  cases h.reads with
  | ahead replays read boundary whole =>
    exact .again builder.replays pos rfl read (Nat.le_refl _) boundary
  | again outer' bound replays read le boundary =>
    exact .again builder.replays bound rfl read (Nat.le_trans h.le le) boundary

theorem mayAdd_of_tiles {part : Outline} {rest : List Outline} {stop : Nat}
    (hrange : part.label.span.start ≤ part.label.span.stop)
    (hrest : ∀ part ∈ rest, part.label.span.start ≤ part.label.span.stop)
    (ht : Tiles top.start pos (part :: rest) stop) (hle : stop ≤ limit)
    (hd : part.label.detached = true →
      top.kind = .special .variationPoint ∧ part.label.slot = some .alternatives)
    (hs : part.label.detached = true → part.label.kind.isTerminal = false) :
    MayAdd top pos limit part.label ∧ Tiles top.start (landing pos part.label) rest stop := by
  have hstop := (ht.stop_le (List.forall_mem_cons.2 ⟨hrange, hrest⟩)).2 part List.mem_cons_self
  rw [MayAdd, landing]
  cases hdet : part.label.detached with
  | true =>
    obtain ⟨hstart, hbefore, htiles⟩ := (Tiles.cons_detached hdet).1 ht
    obtain ⟨hkind, hslot⟩ := hd hdet
    exact ⟨⟨hkind, hslot, hs hdet, hstart, hbefore⟩, htiles⟩
  | false =>
    obtain ⟨hstart, htiles⟩ := (Tiles.cons_attached hdet).1 ht
    exact ⟨⟨hstart, by omega⟩, htiles⟩

mutual

/-- An outline is built, in the source or in text that is gone through again. -/
theorem run_events (builder : Builder) (top : OpenNode) (outer : List OpenNode) (pos limit : Nat) :
    ∀ outline : Outline, Stands language source top outer pos limit builder →
      outline.All (Buildable language source) → MayAdd top pos limit outline.label →
        builder.run (outline.events source) =
          (builder.moveTo source (landing pos outline.label)).extend top outer [outline]
  | .node label parts, h, ha, hm => by
    obtain ⟨hs, hp⟩ := all_node.1 ha
    rw [label_node, MayAdd] at hm
    rw [label_node, landing]
    cases ht : label.kind.isTerminal with
    | true =>
      have hd : label.detached = false := by
        cases hd : label.detached with
        | false => rfl
        | true =>
          rw [if_pos hd, ht] at hm
          exact absurd hm.2.2.1 (by simp)
      rw [if_neg (by simp [hd])] at hm ⊢
      rw [events_leaf source parts ht, run_cons, run_nil, step_leaf h hs ht hd hm.1 hm.2]
    | false =>
      rw [events_structured source label parts ht, run_cons, run_append, run_cons, run_nil]
      cases hd : label.detached with
      | true =>
        rw [if_pos hd] at hm
        rw [if_pos rfl]
        obtain ⟨hkind, hslot, -, hstart, hstop⟩ := hm
        have hle := (Utf8.isRange_iff.1 hs.range).1
        have hstep : builder.step label.opening =
            { builder with replays := ⟨label.span.start, pos⟩ :: builder.replays }.openNode
              label.slot label.kind label.detached := by
          rw [Label.opening, if_pos hd, step, builder.openAlternative_eq_openNode h.stack hkind,
            replaying, hslot, hstart, hd, h.reads.position_eq]
        rw [hstep, step]
        rw [closeNode_run_openNode (h.replay (by omega)) hs ht fun inner node around hi hk hn =>
          run_eventsAll inner node around label.span.start pos label.span.stop parts hi hp
            (hn ▸ hs.tiles ht) hstop (hk ▸ hs.detached) hs.structured]
        rw [h.reads.moveTo_self, hd]
        rfl
      | false =>
        rw [if_neg (by simp [hd])] at hm
        rw [if_neg (by simp)]
        obtain ⟨rfl, hstop⟩ := hm
        have hstep : builder.step label.opening =
            builder.openNode label.slot label.kind label.detached := by
          rw [Label.opening, if_neg (by simp [hd]), step, hd]
        rw [hstep, step]
        rw [closeNode_run_openNode h hs ht fun inner node around hi hk hn =>
          run_eventsAll inner node around label.span.start limit label.span.stop parts hi hp
            (hn ▸ hs.tiles ht) hstop (hk ▸ hs.detached) hs.structured]
        rw [hd]
        rfl

theorem run_eventsAll (builder : Builder) (top : OpenNode) (outer : List OpenNode)
    (pos limit stop : Nat) :
    ∀ parts : List Outline, Stands language source top outer pos limit builder →
      AllParts (Buildable language source) parts → Tiles top.start pos parts stop →
        stop ≤ limit → (∀ part ∈ parts, part.label.detached = true →
          top.kind = .special .variationPoint ∧ part.label.slot = some .alternatives) →
        (∀ part ∈ parts, part.label.detached = true → part.label.kind.isTerminal = false) →
          builder.run (eventsAll source parts) =
            (builder.moveTo source stop).extend top outer parts
  | [], h, _, ht, _, _, _ => by
    obtain rfl : pos = stop := ht
    rw [eventsAll_nil, run_nil, h.reads.moveTo_self, extend_nil h.stack]
  | part :: rest, h, ha, ht, hle, hd, hs => by
    have hspan := ha.span_le
    rw [AllParts] at ha
    obtain ⟨hdpart, hdrest⟩ := List.forall_mem_cons.1 hd
    obtain ⟨hspart, hsrest⟩ := List.forall_mem_cons.1 hs
    obtain ⟨hrange, hranges⟩ := List.forall_mem_cons.1 hspan
    obtain ⟨hadd, htiles⟩ := mayAdd_of_tiles hrange hranges ht hle hdpart hspart
    rw [eventsAll_cons, run_append, run_events builder top outer pos limit part h ha.1 hadd,
      run_eventsAll _ _ outer (landing pos part.label) limit stop rest
        (h.extend ha.1.here.range hadd) ha.2 htiles hle hdrest hsrest,
      moveTo_extend, moveTo_moveTo]
    exact extend_cons part rest

end

end Builder

namespace Outline

open Builder

/-- An outline of a whole source, which a builder can build. -/
structure Rooted (language : Language) (source : String) (outline : Outline) : Prop where
  buildable : outline.All (Buildable language source)
  structured : outline.label.kind.isTerminal = false
  attached : outline.label.detached = false
  span : outline.label.span = ⟨0, source.utf8ByteSize⟩

/-- An outline of a whole source, which may stand for a tree. -/
structure Whole (language : Language) (source : String) (outline : Outline) : Prop where
  sound : outline.All (Sound language source)
  structured : outline.label.kind.isTerminal = false
  attached : outline.label.detached = false
  span : outline.label.span = ⟨0, source.utf8ByteSize⟩

variable {language : Language} {source : String} {outline : Outline}

theorem Whole.rooted (h : Whole language source outline) : Rooted language source outline :=
  ⟨h.sound.imp fun _ _ h => h.toBuildable, h.structured, h.attached, h.span⟩

theorem Rooted.run_new (h : Rooted language source outline) :
    (Builder.new language).run (outline.events source) =
      ⟨language, source, (outline.nodes none NodeId.root).toArray, [], [], []⟩ := by
  cases outline with
  | node label parts =>
    obtain ⟨hs, hp⟩ := all_node.1 h.buildable
    have ht : label.kind.isTerminal = false := h.structured
    have hd : label.detached = false := h.attached
    have hspan : label.span = ⟨0, source.utf8ByteSize⟩ := h.span
    have hstart : label.span.start = 0 := by rw [hspan]
    have hstop : label.span.stop = source.utf8ByteSize := by rw [hspan]
    have hstep : (Builder.new language).step label.opening =
        { Builder.new language with
          nodes := #[unclosed none label], stack := [openFor 0 label] } := by
      rw [Label.opening, if_neg (by simp [hd]), step]
      have hroot : (Builder.new language).openNode label.slot label.kind label.detached =
          { Builder.new language with
            nodes := #[unclosed none label], stack := [openFor 0 label] } :=
        openNode_root ht hs.language rfl rfl hstart.symm
      rw [hd] at hroot
      exact hroot
    have hstands : Stands language source (openFor 0 label) [] 0 source.utf8ByteSize
        { Builder.new language with
          nodes := #[unclosed none label], stack := [openFor 0 label] } :=
      ⟨rfl, rfl, .ahead rfl (textBefore_zero source).symm (Utf8.isBoundary_zero _) rfl,
        Nat.zero_le _⟩
    have htiles := hs.tiles ht
    rw [hstart, hstop] at htiles
    have hboundary : Utf8.isBoundary source.utf8ByteSize source.toList = true := by
      rw [← Utf8.size_toList]
      exact Utf8.isBoundary_size _
    rw [events_structured source label parts ht, run_cons, run_append, run_cons, run_nil, hstep,
      run_eventsAll _ (openFor 0 label) [] 0 source.utf8ByteSize source.utf8ByteSize parts hstands
        hp (by rw [show (openFor 0 label).start = 0 from hstart]; exact htiles) (Nat.le_refl _)
        hs.detached hs.structured, step]
    refine (closeNode_eq #[] none [] hs ?_ ?_ ?_).trans ?_
    · simp [Builder.extend, openFor, Builder.moveTo, Builder.new]
    · simp [Builder.extend, openFor, Builder.moveTo, Builder.new]
    · rw [hstop]
      exact ((hstands.reads.moveTo hboundary).congr rfl rfl).position_eq
    · simp [Builder.extend, Builder.moveTo, Builder.new, hd, textBefore_size, NodeId.root]

/-- The events of an outline of a whole source build its tree, if that is valid. -/
theorem Rooted.ofEvents_events (h : Rooted language source outline) :
    Tree.ofEvents language (outline.events source) =
      (outline.toTree language source).validated := by
  have hn : (outline.nodes none NodeId.root).toArray.isEmpty = false := by
    cases outline with
    | node label parts => simp [nodes_node]
  rw [Tree.ofEvents, h.run_new, finish]
  simp [hn, toTree]

end Outline

end CodeTree
