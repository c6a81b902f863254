import CodeTree.Proofs.ErrorRegions
import CodeTree.Proofs.LoweringResult
import CodeTree.Proofs.SlotDistribution

/-!
# What becomes of the nodes of a concrete tree

A lowered tree can be traced back to its concrete tree by ranges alone. Nodes that cover text keep
their ranges, and what becomes of the children of a node are children of what becomes of the node
or, for an error region, of an attempt to structure it (`Concrete.Becomes`). Neither siblings nor
the text between them share a range, so a node of the tree that is traced back to a concrete node
stands for the translation of this node (`Concrete.Becomes.spread`, `Spread.exists_part`).
-/

namespace CodeTree

namespace Outline

open Node

variable {tree : Tree} {node held : Node tree} {label : Label} {parts : List Outline}

theorem StandsAt.inSlot_iff (h : (Outline.node label parts).StandsAt node) (hv : tree.Valid)
    {slot : Slot} : node.InSlot slot held ↔ node.kind.declares slot = true ∧
      ∃ part, (held.id, part) ∈ numbered (node.id + 1) parts ∧
        part.label.placeIn label.kind = some slot := by
  obtain ⟨parent, hdata, -⟩ := h.exists_data
  have hkind : node.kind = label.kind := h.kind_eq
  rw [hv.inSlot_iff_mem_zip, hdata, slots_entry, ← hkind, ← List.map_prod_left_eq_zip]
  constructor
  · rintro ⟨decl, ids, hzip, rfl, hid⟩
    obtain ⟨other, hm, heq⟩ := List.mem_map.1 hzip
    cases heq
    obtain ⟨part, hpart, hplace⟩ := mem_idsWhere.1 hid
    have hdeclares := NodeKind.declares_iff_mem.2 (List.mem_map_of_mem hm)
    exact ⟨hdeclares, part, hpart, beq_iff_eq.1 hplace⟩
  · rintro ⟨hs, part, hpart, hplace⟩
    obtain ⟨decl, hdecl⟩ := Option.isSome_iff_exists.1 hs
    obtain ⟨hm, rfl⟩ := NodeKind.slot?_eq_some_iff.1 hdecl
    refine ⟨decl, _, List.mem_map_of_mem hm, rfl, mem_idsWhere.2 ⟨part, hpart, ?_⟩⟩
    exact beq_iff_eq.2 hplace

theorem StandsAt.inSlot_part_iff (h : (Outline.node label parts).StandsAt node) (hv : tree.Valid)
    {part : Outline} (hm : (held.id, part) ∈ numbered (node.id + 1) parts) {slot : Slot} :
    node.InSlot slot held ↔
      node.kind.declares slot = true ∧ part.label.placeIn node.kind = some slot := by
  have hkind : node.kind = label.kind := h.kind_eq
  rw [h.inSlot_iff hv, ← hkind]
  constructor
  · rintro ⟨hs, other, hother, hplace⟩
    rw [numbered_inj hm hother]
    exact ⟨hs, hplace⟩
  · rintro ⟨hs, hplace⟩
    exact ⟨hs, part, hm, hplace⟩

end Outline

namespace Translation

open Outline Concrete
open Lowering (Setting)

variable {setting : Setting} {points : Bool} {parent : NodeKind} {start stop last : Nat}
  {siblings children : List Concrete}

theorem start_of_mem_filler {part : Outline} (h : part ∈ filler setting start stop) :
    part.label.span.start = start ∧ start < stop := by
  have hspan : part.label.span.start = start := by
    rw [eq_of_mem_filler h]
    rfl
  refine ⟨hspan, ?_⟩
  rw [filler] at h
  split at h
  · cases h
  · omega

theorem start_le_of_mem_parts (hb : Between start stop children)
    (hp : ∀ child ∈ children, Placed setting.source child.head child.children) {part : Outline}
    (hm : part ∈ parts setting points parent siblings start stop children ++
      filler setting stop last) : start ≤ part.label.span.start := by
  induction children generalizing start with
  | nil =>
    rw [parts] at hm
    rcases List.mem_append.1 hm with hm | hm
    · exact Nat.le_of_eq (start_of_mem_filler hm).1.symm
    · exact Nat.le_trans hb.le (Nat.le_of_eq (start_of_mem_filler hm).1.symm)
  | cons child rest ih =>
    obtain ⟨hfirst, hrest⟩ := List.forall_mem_cons.1 hp
    have hstart := (hb.nested child List.mem_cons_self).1
    rw [parts] at hm
    split at hm
    · rw [List.append_assoc, List.cons_append] at hm
      rcases List.mem_append.1 hm with hm | hm
      · exact Nat.le_of_eq (start_of_mem_filler hm).1.symm
      rcases List.mem_cons.1 hm with rfl | hm
      · rw [span_node]
        exact hstart
      · exact Nat.le_trans (Nat.le_trans hstart hfirst.le) (ih hb.behind hrest hm)
    · exact ih hb.skip hrest hm

/-- Of the parts of a range, the one with the range of a child stands for the child. -/
theorem eq_of_mem_parts (hb : Between start stop children)
    (hp : ∀ child ∈ children, Placed setting.source child.head child.children) {part : Outline}
    (hm : part ∈ parts setting points parent siblings start stop children ++
      filler setting stop last) {child : Concrete} (hc : child ∈ children)
    (he : child.head.isEmpty = false) (hs : part.label.span = child.head.span) :
    part = node setting points (child.slotIn? setting.language parent siblings) child := by
  induction children generalizing start with
  | nil => cases hc
  | cons first rest ih =>
    obtain ⟨hfirst, hrest⟩ := List.forall_mem_cons.1 hp
    have hbehind : ∀ other ∈ rest, first.head.span.stop ≤ other.head.span.start :=
      (List.pairwise_cons.1 hb.ordered).1
    rw [parts] at hm
    split at hm
    · next hcovers =>
      have hlt := hfirst.start_lt (Head.covers_iff.1 hcovers)
      have hafter : ∀ other ∈ first :: rest, first.head.span.start ≤ other.head.span.start :=
        List.forall_mem_cons.2 ⟨Nat.le_refl _, fun other ho =>
          Nat.le_trans hfirst.le (hbehind other ho)⟩
      rw [List.append_assoc, List.cons_append] at hm
      rcases List.mem_append.1 hm with hm | hm
      · -- Text in front of the first child starts before every child.
        obtain ⟨hstart, hbefore⟩ := start_of_mem_filler hm
        have hchild := hafter child hc
        rw [← hs, hstart] at hchild
        omega
      rcases List.mem_cons.1 hm with rfl | hm
      · rw [span_node] at hs
        rcases List.mem_cons.1 hc with rfl | hc
        · rfl
        · have hchild := hbehind child hc
          rw [← hs] at hchild
          omega
      · rcases List.mem_cons.1 hc with rfl | hc
        · have hpart := start_le_of_mem_parts hb.behind hrest hm
          rw [hs] at hpart
          omega
        · exact ih hb.behind hrest hm hc
    · next hempty =>
      rcases List.mem_cons.1 hc with rfl | hc
      · exact absurd (Head.covers_iff.2 he) hempty
      · exact ih hb.skip hrest hm hc

end Translation

namespace Concrete

open Outline Translation

section

variable {tree : Tree}

/-- Whether a node has the children of what a concrete node became: this node itself or, for an
error region, an attempt to structure it. -/
def Unfolds (origin : Concrete) (owner holder : Node tree) : Prop :=
  if origin.head.error then owner.InSlot .alternatives holder else holder = owner

/-- Whether a node of a tree is what a node of the concrete tree under a root became. The root
became the root of the tree, or a child of it if it is an error region; a node that covers text
became the node with its range among the children of what its parent became. -/
inductive Becomes (root : Concrete) : Concrete → Node tree → Prop where
  | whole {top : Node tree} (htop : tree.root = .ok top) (he : root.head.error = false) :
    Becomes root root top
  | region {top node : Node tree} (htop : tree.root = .ok top) (he : root.head.error = true)
    (hc : top.HasChild node) (hs : node.span = ⟨0, root.head.span.stop⟩) : Becomes root root node
  | child {parent child : Concrete} {owner holder node : Node tree}
    (hp : Becomes root parent owner) (hu : parent.Unfolds owner holder)
    (hm : child ∈ parent.children) (he : child.head.isEmpty = false)
    (hc : holder.HasChild node) (hs : node.span = child.head.span) : Becomes root child node

theorem Becomes.childOf {root parent child : Concrete} {holder node : Node tree}
    (hp : Becomes root parent holder) (hplain : parent.head.error = false)
    (hm : child ∈ parent.children) (he : child.head.isEmpty = false)
    (hc : node.id ∈ holder.data.children) (hs : node.span = child.head.span) :
    Becomes root child node := by
  have hu : parent.Unfolds holder holder := by
    rw [Unfolds, hplain]
    rfl
  exact .child hp hu hm he hc hs

/-- Whether the children of a node come from those of a concrete node and the text around them. -/
def Spread (setting : Lowering.Setting) (origin : Concrete) (holder : Node tree) : Prop :=
  ∃ (points : Bool) (label : Label) (start stop last : Nat),
    Between start stop origin.children ∧
      (Outline.node label (parts setting points label.kind origin.children start stop
        origin.children ++ filler setting stop last)).StandsAt holder

variable {setting : Lowering.Setting} {origin child : Concrete} {owner holder node : Node tree}

theorem Spread.of_parts {points : Bool} {label : Label} {start stop : Nat}
    (hb : Between start stop origin.children)
    (h : (Outline.node label (parts setting points label.kind origin.children start stop
      origin.children)).StandsAt holder) :
    Spread setting origin holder := by
  refine ⟨points, label, start, stop, stop, hb, ?_⟩
  rwa [filler, if_pos (Nat.le_refl _), List.append_nil]

theorem Spread.exists_part (h : Spread setting origin holder)
    (hp : ∀ child ∈ origin.children, Placed setting.source child.head child.children)
    (hm : child ∈ origin.children) (he : child.head.isEmpty = false) (hc : holder.HasChild node)
    (hs : node.span = child.head.span) :
    ∃ (points : Bool) (label : Label) (parts : List Outline) (slot : Option Slot),
      (Outline.node label parts).StandsAt holder ∧
        slot = child.slotIn? setting.language label.kind origin.children ∧
        (node.id, Translation.node setting points slot child) ∈
          numbered (holder.id + 1) parts ∧
        (Translation.node setting points slot child).StandsAt node := by
  obtain ⟨points, label, start, stop, last, hb, hstands⟩ := h
  obtain ⟨part, hpart, -, hnode⟩ := hstands.exists_childPart hc
  have hspan : part.label.span = child.head.span := hnode.span_eq.symm.trans hs
  obtain rfl := eq_of_mem_parts hb hp (mem_of_mem_numbered hpart) hm he hspan
  exact ⟨points, label, _, _, hstands, rfl, hpart, hnode⟩

theorem not_hasChild_leaf {slot : Option Slot} {kind : NodeKind} {span : Span}
    (h : (leaf slot kind span).StandsAt holder) : ¬holder.HasChild node := by
  intro hc
  obtain ⟨_, hm, -⟩ := StandsAt.exists_childPart h hc
  cases hm

theorem not_inSlot_leaf (hv : tree.Valid) {slot : Option Slot} {kind : NodeKind} {span : Span}
    (h : (leaf slot kind span).StandsAt holder) {place : Slot} : ¬holder.InSlot place node := by
  intro hin
  obtain ⟨-, _, hm, -⟩ := (StandsAt.inSlot_iff h hv).1 hin
  cases hm

theorem spread_of_standsAt {points : Bool} {slot : Option Slot}
    (h : (Translation.node setting points slot origin).StandsAt holder)
    (hp : Placed setting.source origin.head origin.children) (he : origin.head.error = false)
    (hc : holder.HasChild node) : Spread setting origin holder := by
  cases origin with
  | node head children =>
    rw [Translation.node] at h
    split at h
    · exact absurd hc (not_hasChild_leaf h)
    · next hverdict =>
      have herror := error_of_verdict hverdict
      rw [he] at herror
      cases herror
    · exact .of_parts hp.between h

/-- The attempt of an error region stands among its alternatives. -/
theorem standsAt_attempt (hv : tree.Valid) {points : Bool} {slot : Option Slot} {span : Span}
    {attempt : List Outline} (h : (errorRegion points slot span attempt).StandsAt owner)
    (hin : owner.InSlot .alternatives holder) :
    (Outline.node ⟨.special .parseError, some .alternatives, span, true⟩ attempt).StandsAt
      holder := by
  cases points with
  | false => exact absurd hin (not_inSlot_leaf hv h)
  | true =>
    have hpoint : (Outline.node ⟨.special .variationPoint, slot, span, false⟩
        [leaf (some .raw) (.special .errorTree) span,
          .node ⟨.special .parseError, some .alternatives, span, true⟩ attempt]).StandsAt owner := h
    obtain ⟨-, part, hm, hplace⟩ := (hpoint.inSlot_iff hv).1 hin
    obtain ⟨_, -, hparts⟩ := hpoint.exists_data
    have hpart := hparts.standsAt hm
    rcases List.mem_cons.1 (mem_of_mem_numbered hm) with rfl | htrial
    · cases hplace
    · obtain rfl := List.mem_singleton.1 htrial
      exact hpart

theorem spread_attempt (hv : tree.Valid) {points : Bool} {slot : Option Slot}
    (h : (Translation.node setting points slot origin).StandsAt owner)
    (hp : Placed setting.source origin.head origin.children) (he : origin.head.error = true)
    (hin : owner.InSlot .alternatives holder) : Spread setting origin holder := by
  cases origin with
  | node head children =>
    rw [Translation.node] at h
    split at h
    · exact absurd hin (not_inSlot_leaf hv h)
    · exact .of_parts hp.between (standsAt_attempt hv h hin)
    · next hverdict =>
      obtain ⟨_, hknown, -⟩ := verdict_structured hverdict
      cases (Head.kind?_of_error he).symm.trans hknown

theorem spread_root {root : Concrete} {points : Bool}
    (h : (Translation.root setting points root).StandsAt holder)
    (hp : Placed setting.source root.head root.children) (he : root.head.error = false) :
    Spread setting root holder := by
  rw [Translation.root, he] at h
  exact ⟨points, ⟨Translation.rootKind setting.language root, none,
    ⟨0, setting.source.utf8ByteSize⟩, false⟩, 0, root.head.span.stop,
    setting.source.utf8ByteSize, hp.between.from_zero, h⟩

theorem spread_region (hv : tree.Valid) {root : Concrete} {points : Bool} {top : Node tree}
    (h : (Translation.root setting points root).StandsAt top)
    (hp : Placed setting.source root.head root.children) (he : root.head.error = true)
    (hc : top.HasChild owner) (hs : owner.span = ⟨0, root.head.span.stop⟩)
    (hin : owner.InSlot .alternatives holder) : Spread setting root holder := by
  rw [Translation.root, he] at h
  obtain ⟨part, hm, -, hpart⟩ := StandsAt.exists_childPart h hc
  rcases List.mem_append.1 (mem_of_mem_numbered hm) with hregion | hfiller
  · obtain rfl := List.mem_singleton.1 hregion
    exact .of_parts hp.between.from_zero (standsAt_attempt hv hpart hin)
  · -- Text behind the region ends where the source does, and the region does not.
    have hspan : part.label.span = ⟨0, root.head.span.stop⟩ := hpart.span_eq.symm.trans hs
    obtain ⟨-, hlt⟩ := start_of_mem_filler hfiller
    obtain rfl := eq_of_mem_filler hfiller
    have hstop : setting.source.utf8ByteSize = root.head.span.stop := congrArg Span.stop hspan
    omega

/-- The nodes that a concrete node became have its children, as the tree has the outline of the
translation. -/
theorem Becomes.spread {root : Concrete} {points : Bool} (h : Becomes root origin owner)
    (hv : tree.Valid) (hw : root.WellFormed setting.source)
    (ht : ∀ top : Node tree, tree.root = .ok top →
      (Translation.root setting points root).StandsAt top) :
    origin.WellFormed setting.source ∧ ∀ holder node : Node tree, origin.Unfolds owner holder →
      holder.HasChild node → Spread setting origin holder := by
  induction h with
  | whole htop he =>
    refine ⟨hw, fun holder node hu _ => ?_⟩
    rw [Unfolds, he] at hu
    obtain rfl : holder = _ := hu
    exact spread_root (ht _ htop) hw.here he
  | region htop he hc hs =>
    refine ⟨hw, fun holder node hu _ => ?_⟩
    rw [Unfolds, he] at hu
    exact spread_region hv (ht _ htop) hw.here he hc hs hu
  | @child parent child owner holder node _ hu hm he hc hs ih =>
    obtain ⟨hparent, hspread⟩ := ih
    have hchildren := hparent.below.of_mem
    have hchild := hchildren child hm
    obtain ⟨_, _, _, _, -, -, -, hnode⟩ := (hspread holder node hu hc).exists_part
      (fun other ho => (hchildren other ho).here) hm he hc hs
    refine ⟨hchild, fun below other hu hother => ?_⟩
    rw [Unfolds] at hu
    split at hu
    · next herror => exact spread_attempt hv hnode hchild.here herror hu
    · next hplain =>
      obtain rfl : below = node := hu
      exact spread_of_standsAt hnode hchild.here (by simpa using hplain) hother

end

end Concrete

end CodeTree
