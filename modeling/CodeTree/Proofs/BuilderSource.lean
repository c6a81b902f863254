import CodeTree.Proofs.BuilderEffects

/-!
# The source of a builder

Which text events add to the source of a builder, whether or not anything is wrong with them. Inside
an open node, leaves add their texts one after the other; what an alternative replays adds nothing.
`Follows` says what is the same before and after the events, so that it can be put together from
their parts: the open nodes apart from what was added to them, and the number of replays.
-/

namespace CodeTree

namespace Builder

def OpenNode.bare (node : OpenNode) : OpenNode := { node with pending := [] }

theorem map_bare_told (stack : List OpenNode) (added : Added) :
    (told stack added).map (·.bare) = stack.map (·.bare) := by
  cases stack <;> rfl

/-- A builder after events that add a text. -/
structure Follows (text : String) (before after : Builder) : Prop where
  stack : after.stack.map (·.bare) = before.stack.map (·.bare)
  replays : after.replays.length = before.replays.length
  source : after.source = if before.replays.isEmpty then before.source ++ text else before.source

variable {first second text : String} {before middle after builder : Builder}

theorem Follows.isEmpty_replays (h : Follows text before after) :
    after.replays.isEmpty = before.replays.isEmpty := by
  rw [Bool.eq_iff_iff, List.isEmpty_iff_length_eq_zero, List.isEmpty_iff_length_eq_zero, h.replays]

theorem Follows.trans (h : Follows first before middle) (h' : Follows second middle after) :
    Follows (first ++ second) before after := by
  refine ⟨h'.stack.trans h.stack, h'.replays.trans h.replays, ?_⟩
  rw [h'.source, h.isEmpty_replays, h.source]
  split
  · rw [String.append_assoc]
  · rfl

theorem follows_refl (builder : Builder) : Follows "" builder builder := by
  refine ⟨rfl, rfl, ?_⟩
  rw [String.append_empty, ite_self]

theorem Follows.withErrors (h : Follows text before after) (errors : List TreeError) :
    Follows text before (after.withErrors errors) := ⟨h.stack, h.replays, h.source⟩

theorem Follows.push (h : Follows text before after) (kind : NodeKind) (span : Span)
    (slot : Option Slot) (detached : Bool) :
    Follows text before (after.push kind span slot detached) := by
  rw [push_eq]
  exact ⟨(map_bare_told _ _).trans h.stack, h.replays, h.source⟩

theorem follows_addLeaf (hs : builder.stack ≠ []) (slot : Option Slot) (kind : NodeKind)
    (text : String) : Follows text builder (builder.addLeaf slot kind text) := by
  cases hr : builder.replays with
  | nil =>
    rw [builder.addLeaf_read hs hr]
    have hgrown : Follows text builder (builder.grown text) := ⟨rfl, rfl, by simp [grown, hr]⟩
    exact (hgrown.push kind _ slot false).withErrors _
  | cons replay outer =>
    rw [builder.addLeaf_replay hs hr]
    split
    · have hadvanced : Follows text builder (builder.advanced replay outer text) :=
        ⟨rfl, by simp [advanced, hr], by simp [advanced, hr]⟩
      exact (hadvanced.push kind _ slot false).withErrors _
    · exact ⟨rfl, rfl, by simp [Builder.withErrors, hr]⟩

theorem exists_openNode (builder : Builder) (hs : builder.stack ≠ [] ∨ builder.nodes = #[])
    (slot : Option Slot) (kind : NodeKind) (detached : Bool) :
    ∃ node outer, (builder.openNode slot kind detached).stack = node :: outer ∧
      node.kind = kind ∧ node.detached = detached ∧
      Follows "" builder { builder.openNode slot kind detached with stack := outer } := by
  have hfirst : builder.stack = [] → builder.nodes = #[] :=
    fun hnil => hs.resolve_left (not_not_intro hnil)
  have hpush := (follows_refl builder).push kind ⟨builder.position, builder.position⟩ slot
    detached
  rw [builder.openNode_eq_entered hfirst]
  exact ⟨_, _, rfl, rfl, rfl, hpush.stack, hpush.replays, hpush.source⟩

theorem Follows.exists_stack {node : OpenNode} {outer : List OpenNode}
    (h : Follows text before after) (hs : before.stack = node :: outer) :
    ∃ top rest, after.stack = top :: rest ∧ top.bare = node.bare ∧
      rest.map (·.bare) = outer.map (·.bare) := by
  have hstack := h.stack
  rw [hs, List.map_cons] at hstack
  cases ha : after.stack with
  | nil =>
    rw [ha] at hstack
    cases hstack
  | cons top rest =>
    rw [ha, List.map_cons] at hstack
    obtain ⟨htop, hrest⟩ := List.cons.inj hstack
    exact ⟨top, rest, rfl, htop, hrest⟩

theorem Follows.closeNode {node : OpenNode} {outer : List OpenNode}
    (h : Follows text before after) (hs : before.stack = node :: outer) :
    after.closeNode.stack.map (·.bare) = outer.map (·.bare) ∧
      after.closeNode.replays.length =
        (if node.detached then before.replays.length - 1 else before.replays.length) ∧
      after.closeNode.source = after.source := by
  obtain ⟨top, rest, ha, htop, hrest⟩ := h.exists_stack hs
  have hdetached : top.detached = node.detached := congrArg (·.detached) htop
  rw [after.closeNode_eq_left ha]
  refine ⟨hrest, ?_, rfl⟩
  simp only [Builder.withErrors, left, hdetached]
  split
  · rw [List.length_drop, h.replays]
  · exact h.replays

/-- Whether events add a text to any open node of a kind. -/
def Adds (kind : NodeKind) (text : String) (events : List Event) : Prop :=
  ∀ (builder : Builder) (node : OpenNode) (outer : List OpenNode),
    builder.stack = node :: outer → node.kind = kind → Follows text builder (builder.run events)

variable {kind : NodeKind}

theorem adds_nil (kind : NodeKind) : Adds kind "" [] := fun builder _ _ _ _ => follows_refl builder

theorem adds_leaf (kind : NodeKind) (slot : Option Slot) (leaf : NodeKind) (text : String) :
    Adds kind text [.leaf slot leaf text] := by
  intro builder node outer hs _
  exact follows_addLeaf (by rw [hs]; simp) slot leaf text

theorem Adds.append {a b : List Event} (ha : Adds kind first a) (hb : Adds kind second b) :
    Adds kind (first ++ second) (a ++ b) := by
  intro builder node outer hs hk
  have hfirst := ha builder node outer hs hk
  obtain ⟨top, rest, htop, hbare, -⟩ := hfirst.exists_stack hs
  have hkind : top.kind = node.kind := congrArg (·.kind) hbare
  rw [run_append]
  exact hfirst.trans (hb _ top rest htop (hkind.trans hk))

theorem Adds.follows_node {events : List Event} (h : Adds kind text events) (builder : Builder)
    (slot : Option Slot) (hs : builder.stack ≠ [] ∨ builder.nodes = #[]) :
    Follows text builder (builder.run ([.start slot kind] ++ events ++ [.finish])) := by
  obtain ⟨inner, around, hopen, hkind, hdetached, hfollows⟩ :=
    exists_openNode builder hs slot kind false
  have hinner := h (builder.openNode slot kind false) inner around hopen hkind
  obtain ⟨hstack, hreplays, hsource⟩ := hinner.closeNode hopen
  rw [run_append, run_append]
  refine ⟨hstack.trans hfollows.stack, ?_, ?_⟩
  · rw [hdetached] at hreplays
    exact hreplays.trans hfollows.replays
  · have hbefore : (builder.openNode slot kind false).source = builder.source := by
      have heq := hfollows.source
      rw [String.append_empty] at heq
      simpa using heq
    have hempty : (builder.openNode slot kind false).replays.isEmpty = builder.replays.isEmpty :=
      hfollows.isEmpty_replays
    have hadded := hinner.source
    rw [hempty, hbefore] at hadded
    exact hsource.trans hadded

theorem Adds.node {events : List Event} (h : Adds kind text events) (parent : NodeKind)
    (slot : Option Slot) : Adds parent text ([.start slot kind] ++ events ++ [.finish]) := by
  intro builder node outer hs _
  exact h.follows_node builder slot (.inl (by rw [hs]; simp))

theorem Adds.alternative {events : List Event} (h : Adds kind text events) :
    Adds (.special .variationPoint) "" ([.alternative kind] ++ events ++ [.finish]) := by
  intro builder node outer hs hk
  have hstep : builder.step (.alternative kind) =
      (builder.replaying node).openNode (some .alternatives) kind true :=
    builder.openAlternative_eq_openNode hs hk kind
  obtain ⟨inner, around, hopen, hkind, hdetached, hfollows⟩ := exists_openNode
    (builder.replaying node) (.inl (by simp [replaying, hs])) (some .alternatives) kind true
  have hinner := h (builder.step (.alternative kind)) inner around (by rw [hstep, hopen]) hkind
  obtain ⟨hstack, hreplays, hsource⟩ := hinner.closeNode (by rw [hstep, hopen])
  have hlength : (builder.step (.alternative kind)).replays.length =
      builder.replays.length + 1 := by
    rw [hstep]
    exact hfollows.replays
  have hbefore : (builder.step (.alternative kind)).source = builder.source := by
    rw [hstep]
    exact hfollows.source
  rw [run_append, run_append]
  refine ⟨hstack.trans hfollows.stack, ?_, ?_⟩
  · rw [hdetached, if_pos rfl, hlength] at hreplays
    exact hreplays
  · have hnonempty : (builder.step (.alternative kind)).replays.isEmpty = false := by
      rw [← Bool.not_eq_true, List.isEmpty_iff_length_eq_zero, hlength]
      exact Nat.succ_ne_zero _
    have hkept := hinner.source
    rw [hnonempty, hbefore] at hkept
    rw [String.append_empty]
    refine hsource.trans (hkept.trans ?_)
    simp

/-- What a new builder's source is after a tree has been built. -/
theorem source_run_new {events : List Event} (language : Language) (slot : Option Slot)
    (h : Adds kind text events) :
    ((Builder.new language).run ([.start slot kind] ++ events ++ [.finish])).source = text := by
  have hfollows := h.follows_node (Builder.new language) slot (.inr rfl)
  rw [hfollows.source]
  exact String.empty_append

end Builder

end CodeTree
