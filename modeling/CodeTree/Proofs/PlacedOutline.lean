import CodeTree.Proofs.OutlineRun

/-!
# Outlines with their slots

A part that is given no slot may still go to one, the rest slot of its owner. When every part is
given the slot that holds it, the outline has the same nodes as before and can be built if it could
be built before.
-/

namespace CodeTree

theorem NodeKind.place_place (kind : NodeKind) (slot : Option Slot) (child : NodeKind) :
    kind.place (kind.place slot child) child = kind.place slot child := by
  cases slot with
  | some slot => rfl
  | none =>
    cases hp : kind.place none child with
    | some slot => rfl
    | none => exact hp

namespace Outline

mutual

/-- The outline in which every part is given the slot that holds it. -/
def placed (slot : Option Slot) : Outline → Outline
  | .node label parts => .node { label with slot } (placedAll label.kind parts)

def placedAll (parent : NodeKind) : List Outline → List Outline
  | [] => []
  | part :: rest => part.placed (part.label.placeIn parent) :: placedAll parent rest

end

section

variable {language : Language} {source : String} {slot : Option Slot} {parent : NodeKind}

theorem placed_node (slot : Option Slot) (label : Label) (parts : List Outline) :
    (node label parts).placed slot = .node { label with slot } (placedAll label.kind parts) := by
  rw [placed]

theorem label_placed (slot : Option Slot) (outline : Outline) :
    (outline.placed slot).label = { outline.label with slot } := by
  cases outline with
  | node label parts => rw [placed_node, label_node, label_node]

theorem placeIn_placed (parent : NodeKind) (part : Outline) :
    (part.placed (part.label.placeIn parent)).label.placeIn parent =
      part.label.placeIn parent := by
  rw [label_placed]
  exact parent.place_place part.label.slot part.label.kind

theorem placedAll_eq_map (parent : NodeKind) (parts : List Outline) :
    placedAll parent parts = parts.map fun part => part.placed (part.label.placeIn parent) := by
  induction parts with
  | nil => rw [placedAll, List.map_nil]
  | cons part rest ih => rw [placedAll, ih, List.map_cons]

theorem mem_placedAll {parts : List Outline} {part : Outline} :
    part ∈ placedAll parent parts ↔
      ∃ other ∈ parts, other.placed (other.label.placeIn parent) = part := by
  rw [placedAll_eq_map, List.mem_map]

mutual

theorem size_placed (slot : Option Slot) : ∀ outline : Outline,
    (outline.placed slot).size = outline.size
  | .node label parts => by
    rw [placed_node, size_node, size_node, sizeAll_placedAll label.kind parts]

theorem sizeAll_placedAll (parent : NodeKind) : ∀ parts : List Outline,
    sizeAll (placedAll parent parts) = sizeAll parts
  | [] => by rw [placedAll]
  | part :: rest => by
    rw [placedAll, sizeAll_cons, sizeAll_cons, size_placed _ part, sizeAll_placedAll parent rest]

end

/-- What does not look at the slot that a part was given is the same of the placed parts. -/
theorem idsWhere_placedAll {p : Label → Bool}
    (hp : ∀ part : Outline, p (part.placed (part.label.placeIn parent)).label = p part.label)
    (first : NodeId) (parts : List Outline) :
    idsWhere p first (placedAll parent parts) = idsWhere p first parts := by
  induction parts generalizing first with
  | nil => rw [placedAll]
  | cons part rest ih => rw [placedAll, idsWhere_cons, idsWhere_cons, hp, size_placed, ih]

theorem entry_placed (above : Option NodeId) (id : NodeId) (slot : Option Slot) (label : Label)
    (parts : List Outline) :
    entry above id { label with slot } (placedAll label.kind parts) =
      entry above id label parts := by
  have hchildren : idsWhere (!·.detached) (id + 1) (placedAll label.kind parts) =
      idsWhere (!·.detached) (id + 1) parts :=
    idsWhere_placedAll (fun part => by rw [label_placed]) _ parts
  have hslots : ∀ decl : SlotDecl,
      idsWhere (·.placeIn label.kind == some decl.slot) (id + 1) (placedAll label.kind parts) =
        idsWhere (·.placeIn label.kind == some decl.slot) (id + 1) parts :=
    fun decl => idsWhere_placedAll (p := (·.placeIn label.kind == some decl.slot))
      (fun part => by rw [placeIn_placed]) _ parts
  simp only [entry, hchildren, hslots]

mutual

theorem nodes_placed (above : Option NodeId) (id : NodeId) (slot : Option Slot) :
    ∀ outline : Outline, (outline.placed slot).nodes above id = outline.nodes above id
  | .node label parts => by
    rw [placed_node, nodes_node, nodes_node, entry_placed,
      nodesAll_placedAll id (id + 1) label.kind parts]

theorem nodesAll_placedAll (above first : NodeId) (parent : NodeKind) : ∀ parts : List Outline,
    nodesAll above first (placedAll parent parts) = nodesAll above first parts
  | [] => by rw [placedAll]
  | part :: rest => by
    rw [placedAll, nodesAll_cons, nodesAll_cons, size_placed, nodes_placed _ _ _ part,
      nodesAll_placedAll above _ parent rest]

end

theorem toTree_placed (outline : Outline) (slot : Option Slot) :
    (outline.placed slot).toTree language source = outline.toTree language source := by
  rw [toTree, toTree, nodes_placed]

theorem tiles_placedAll {start pos stop : Nat} {parts : List Outline}
    (h : Tiles start pos parts stop) : Tiles start pos (placedAll parent parts) stop := by
  induction parts generalizing pos with
  | nil =>
    rw [placedAll]
    exact h
  | cons part rest ih =>
    rw [placedAll]
    cases hd : part.label.detached with
    | true =>
      obtain ⟨hstart, hstop, hrest⟩ := (Tiles.cons_detached hd).1 h
      refine (Tiles.cons_detached ?_).2 ⟨?_, ?_, ih hrest⟩ <;> rw [label_placed] <;> assumption
    | false =>
      obtain ⟨hstart, hrest⟩ := (Tiles.cons_attached hd).1 h
      refine (Tiles.cons_attached ?_).2 ⟨?_, ?_⟩
      · rw [label_placed]
        exact hd
      · rw [label_placed]
        exact hstart
      · rw [label_placed]
        exact ih hrest

theorem declares_of_placeIn {label : Label} {held : Slot}
    (h : ∀ slot, label.slot = some slot → parent.declares slot = true)
    (hp : label.placeIn parent = some held) : parent.declares held = true := by
  rw [Label.placeIn] at hp
  cases hs : label.slot with
  | some given =>
    rw [hs, NodeKind.place_some] at hp
    exact h held (hs.trans hp)
  | none =>
    rw [hs, NodeKind.place_none] at hp
    split at hp
    · obtain ⟨rest, hrest, rfl⟩ := Option.map_eq_some_iff.1 hp
      have hm := (NodeKind.mem_of_restSlot? hrest).1
      rw [NodeKind.declares, NodeKind.slot?_eq_some_iff.2 ⟨hm, rfl⟩, Option.isSome_some]
    · cases hp

/-- A node stays buildable when its parts are given the slots that hold them. -/
theorem Buildable.placed {label : Label} {parts : List Outline}
    (h : Buildable language source label parts) (slot : Option Slot) :
    Buildable language source { label with slot } (placedAll label.kind parts) := by
  refine ⟨h.language, h.range, fun ht => ?_, fun ht => tiles_placedAll (h.tiles ht), ?_, ?_, ?_, ?_⟩
  · rw [h.leaf ht, placedAll]
  · intro part hm held hs
    obtain ⟨other, hother, rfl⟩ := mem_placedAll.1 hm
    rw [label_placed] at hs
    exact declares_of_placeIn (h.declared other hother) hs
  · intro decl hd
    have hcount : (placedAll label.kind parts).countP
          (fun part => part.label.placeIn label.kind == some decl.slot) =
        parts.countP fun part => part.label.placeIn label.kind == some decl.slot := by
      rw [placedAll_eq_map, List.countP_map]
      exact List.countP_congr fun part _ => by simp [placeIn_placed]
    rw [hcount]
    exact h.arity decl hd
  · intro part hm hd
    obtain ⟨other, hother, rfl⟩ := mem_placedAll.1 hm
    rw [label_placed] at hd ⊢
    obtain ⟨hkind, hslot⟩ := h.detached other hother hd
    refine ⟨hkind, ?_⟩
    rw [Label.placeIn, hslot, NodeKind.place_some]
  · intro part hm hd
    obtain ⟨other, hother, rfl⟩ := mem_placedAll.1 hm
    rw [label_placed] at hd ⊢
    exact h.structured other hother hd

mutual

theorem All.placed (slot : Option Slot) : ∀ {outline : Outline},
    outline.All (Buildable language source) → (outline.placed slot).All (Buildable language source)
  | .node label parts, h => by
    obtain ⟨hhere, hparts⟩ := all_node.1 h
    rw [placed_node]
    exact all_node.2 ⟨hhere.placed slot, AllParts.placed label.kind hparts⟩

theorem AllParts.placed (parent : NodeKind) : ∀ {parts : List Outline},
    AllParts (Buildable language source) parts →
      AllParts (Buildable language source) (placedAll parent parts)
  | [], _ => by
    rw [placedAll]
    trivial
  | part :: rest, h => by
    rw [AllParts] at h
    rw [placedAll, AllParts]
    exact ⟨All.placed _ h.1, AllParts.placed parent h.2⟩

end

theorem Rooted.placed {outline : Outline} (h : Rooted language source outline)
    (slot : Option Slot) : Rooted language source (outline.placed slot) := by
  refine ⟨h.buildable.placed slot, ?_, ?_, ?_⟩ <;> rw [label_placed]
  · exact h.structured
  · exact h.attached
  · exact h.span

end

end Outline

end CodeTree
