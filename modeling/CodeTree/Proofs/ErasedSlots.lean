import CodeTree.Proofs.OutlineWalk
import CodeTree.Proofs.Walks
import CodeTree.Query.Parts

/-!
# Reading slots of erased trees

A node of a tree and the node that stands for it in the erased tree read alike: the slots of a node
that is no variation point hold nodes that stand for one another, and a node and its counterpart
have the same text. `Related` lifts this to results: both fail with one error, or both succeed.
-/

namespace CodeTree

/-- Results that fail with the same error or succeed with related values. -/
inductive Related {ε α β : Type} (R : α → β → Prop) : Except ε α → Except ε β → Prop where
  | ok {a : α} {b : β} (h : R a b) : Related R (.ok a) (.ok b)
  | error (e : ε) : Related R (.error e) (.error e)

namespace Related

variable {ε ε' α β γ δ : Type} {R R' : α → β → Prop} {S : γ → δ → Prop}
  {x : Except ε α} {y : Except ε β}

theorem bind (h : Related R x y) {f : α → Except ε γ} {g : β → Except ε δ}
    (hf : ∀ a b, R a b → Related S (f a) (g b)) : Related S (x >>= f) (y >>= g) := by
  cases h with
  | ok h => exact hf _ _ h
  | error e => exact .error e

theorem bind_same {x : Except ε α} {f : α → Except ε γ} {g : α → Except ε δ}
    (h : ∀ a, Related S (f a) (g a)) : Related S (x >>= f) (x >>= g) := by
  cases x with
  | ok a => exact h a
  | error e => exact .error e

theorem imp (h : Related R x y) (hR : ∀ a b, R a b → R' a b) : Related R' x y := by
  cases h with
  | ok h => exact .ok (hR _ _ h)
  | error e => exact .error e

theorem mapError (h : Related R x y) (f : ε → ε') : Related R (x.mapError f) (y.mapError f) := by
  cases h with
  | ok h => exact .ok h
  | error e => exact .error (f e)

theorem mapM {xs : List α} {ys : List β} (h : List.Forall₂ R xs ys) {f : α → Except ε γ}
    {g : β → Except ε δ} (hf : ∀ a b, R a b → Related S (f a) (g b)) :
    Related (List.Forall₂ S) (xs.mapM f) (ys.mapM g) := by
  induction h with
  | nil => exact .ok .nil
  | cons hhead _ ih =>
    rw [List.mapM_cons, List.mapM_cons]
    exact (hf _ _ hhead).bind fun _ _ hfirst => ih.bind fun _ _ hrest => .ok (.cons hfirst hrest)

end Related

namespace SlotValue

variable {pointed plain : Tree}

/-- Slots of the same shape that hold related nodes. -/
inductive Holds (R : Node pointed → Node plain → Prop) : SlotValue pointed → SlotValue plain → Prop
    where
  | single {a : Option (Node pointed)} {b : Option (Node plain)} (h : Option.Rel R a b) :
    Holds R (.single a) (.single b)
  | list {a : List (Node pointed)} {b : List (Node plain)} (h : List.Forall₂ R a b) :
    Holds R (.list a) (.list b)

theorem Holds.imp {R R' : Node pointed → Node plain → Prop} {a : SlotValue pointed}
    {b : SlotValue plain} (h : Holds R a b) (hR : ∀ held other, R held other → R' held other) :
    Holds R' a b := by
  cases h with
  | single h =>
    cases h with
    | none => exact .single .none
    | some h => exact .single (.some (hR _ _ h))
  | list h => exact .list (h.imp hR)

theorem Holds.nodes {R : Node pointed → Node plain → Prop} {a : SlotValue pointed}
    {b : SlotValue plain} (h : Holds R a b) : List.Forall₂ R a.nodes b.nodes := by
  cases h with
  | single h =>
    cases h with
    | none => exact .nil
    | some h => exact .cons h .nil
  | list h => exact h

end SlotValue

namespace Node

theorem related_malformed {pointed plain : Tree} {α β : Type} {R : α → β → Prop}
    {a : Node pointed} {b : Node plain} (hk : a.kind = b.kind) (slot : Option Slot)
    {defect other : Defect} (h : defect = other) :
    Related R (a.malformed slot defect) (b.malformed slot other) := by
  unfold malformed
  rw [hk, h]
  exact .error _

theorem related_hold {pointed plain : Tree} {R : Node pointed → Node plain → Prop}
    {a : Node pointed} {b : Node plain} (hk : a.kind = b.kind) (slot : Slot) (arity : Arity)
    {nodes : List (Node pointed)} {others : List (Node plain)} (h : List.Forall₂ R nodes others) :
    Related (SlotValue.Holds R) (a.hold slot arity nodes) (b.hold slot arity others) := by
  have hcount : Defect.heldCount nodes.length arity = .heldCount others.length arity := by
    rw [h.length_eq]
  cases arity with
  | many => exact .ok (.list h)
  | one =>
    match h with
    | .nil => exact related_malformed hk _ hcount
    | .cons hheld .nil => exact .ok (.single (.some hheld))
    | .cons _ (.cons _ _) => exact related_malformed hk _ hcount
  | optional =>
    match h with
    | .nil => exact .ok (.single .none)
    | .cons hheld .nil => exact .ok (.single (.some hheld))
    | .cons _ (.cons _ _) => exact related_malformed hk _ hcount

end Node

namespace Outline

variable {tree : Tree}

theorem StandsAt.exists_slotValue {label : Label} {parts : List Outline} {node : Node tree}
    (h : (Outline.node label parts).StandsAt node) {decl : SlotDecl} {position : Nat}
    (hp : label.kind.slots[position]? = some decl) :
    ∃ nodes, node.slotValue decl.slot = node.hold decl.slot decl.arity nodes ∧
      List.Forall₂ StandsAt
        (parts.filter fun part => part.label.placeIn label.kind == some decl.slot) nodes := by
  obtain ⟨parent, hdata, hparts⟩ := h.exists_data
  obtain ⟨nodes, hnodes, hstands⟩ :=
    hparts.exists_nodesAt (·.placeIn label.kind == some decl.slot)
  refine ⟨nodes, ?_, hstands⟩
  have hkind : node.kind = label.kind := h.kind_eq
  obtain ⟨hlt, hdecl⟩ := List.getElem?_eq_some_iff.1 hp
  have hindex : node.kind.slotIndex? decl.slot = some position := by
    rw [hkind]
    exact NodeKind.slotIndex?_eq_some_iff.2 ⟨hlt, by rw [hdecl]⟩
  have hslot : node.slotAt position = .ok (decl,
      idsWhere (·.placeIn label.kind == some decl.slot) (node.id + 1) parts) := by
    rw [Node.slotAt, hkind, hp, hdata, slots_entry, List.getElem?_map, hp]
    rfl
  rw [Tree.map_id_of_nodesAt hnodes] at hslot
  exact node.slotValue_eq_hold hindex hslot

end Outline

theorem forall₂_of_map {α β γ δ : Type} {R : α → β → Prop} {S : γ → δ → Prop} {f : α → γ}
    {xs : List α} {ys : List β} {zs : List δ} (hr : List.Forall₂ R xs ys)
    (hs : List.Forall₂ S (xs.map f) zs) :
    List.Forall₂ (fun y z => ∃ x ∈ xs, R x y ∧ S (f x) z) ys zs := by
  induction hr generalizing zs with
  | nil =>
    cases hs
    exact .nil
  | @cons x y xs ys hxy _ ih =>
    cases hs with
    | cons hxz hrest =>
      refine .cons ⟨x, List.mem_cons_self, hxy, hxz⟩ ((ih hrest).imp ?_)
      rintro y z ⟨other, hm, hother⟩
      exact ⟨other, List.mem_cons_of_mem _ hm, hother⟩

section

variable {pointed plain : Tree} {outline : Outline} {a : Node pointed} {b : Node plain}

/-- An outline stands at one node, and its erasure at a node of another tree of the same source. -/
structure Outline.Links (outline : Outline) (a : Node pointed) (b : Node plain) : Prop where
  source : plain.source = pointed.source
  points : outline.All Pointed
  ranges : outline.All fun label _ => pointed.covers label.span = true
  left : outline.StandsAt a
  right : outline.erase.StandsAt b

/-- A node and its counterpart in the erased tree. -/
def Node.Alike (a : Node pointed) (b : Node plain) : Prop := ∃ outline : Outline, outline.Links a b

namespace Node.Alike

open Outline

theorem span_eq (h : a.Alike b) : a.span = b.span := by
  obtain ⟨outline, h⟩ := h
  rw [h.left.span_eq, h.right.span_eq, label_erase, Label.span_erase]

theorem kind_eq (h : a.Alike b) (hk : a.kind ≠ .special .variationPoint) : a.kind = b.kind := by
  obtain ⟨outline, h⟩ := h
  rw [h.left.kind_eq] at hk
  rw [h.left.kind_eq, h.right.kind_eq, label_erase, Label.erase_of_ne hk]

theorem apply_kind_eq {α : Type} (h : a.Alike b) (f : NodeKind → α)
    (hf : f (.special .variationPoint) = f (.special .errorTree)) : f a.kind = f b.kind := by
  by_cases hk : a.kind = .special .variationPoint
  · obtain ⟨outline, h⟩ := h
    have hlabel : outline.label.kind = .special .variationPoint := by rw [← h.left.kind_eq, hk]
    have hb : b.kind = .special .errorTree := by
      rw [h.right.kind_eq, label_erase, Label.erase, if_pos hlabel]
    rw [hk, hb, hf]
  · rw [h.kind_eq hk]

theorem has_eq (h : a.Alike b) {capability : Capability}
    (hc : NodeKind.has (.special .variationPoint) capability =
      NodeKind.has (.special .errorTree) capability) : a.has capability = b.has capability :=
  h.apply_kind_eq (·.has capability) hc

theorem declares_eq (h : a.Alike b) {slot : Slot}
    (hs : NodeKind.declares (.special .variationPoint) slot = false) :
    a.kind.declares slot = b.kind.declares slot :=
  h.apply_kind_eq (·.declares slot) hs

theorem text_eq (h : a.Alike b) : a.text = b.text := by
  have hspan := h.span_eq
  obtain ⟨outline, h⟩ := h
  have hcovers : pointed.covers a.span = true := by
    rw [h.left.span_eq]
    exact h.ranges.here
  have hcovers' : plain.covers b.span = true := by
    rw [← hspan, Tree.covers, h.source]
    exact hcovers
  unfold Node.text
  rw [if_pos hcovers, if_pos hcovers', hspan, h.source]

theorem location_eq (h : a.Alike b) : a.location = b.location := by
  have hspan := h.span_eq
  obtain ⟨outline, h⟩ := h
  have hstarts : pointed.lineStarts = plain.lineStarts := by
    rw [pointed.lineStarts_eq, plain.lineStarts_eq, h.source]
  unfold Node.location
  rw [hspan]
  simp only [Tree.location, Tree.lineColumn, hstarts]

end Node.Alike

namespace Outline.Links

theorem alike (h : outline.Links a b) : a.Alike b := ⟨outline, h⟩

theorem of_mem {part : Outline} (h : outline.Links a b) (hm : part ∈ outline.parts)
    {held : Node pointed} {other : Node plain} (hleft : part.StandsAt held)
    (hright : part.erase.StandsAt other) : part.Links held other := by
  cases outline with
  | node label parts =>
    have hpoints := allParts_iff.1 (all_node.1 h.points).2 part hm
    have hranges := allParts_iff.1 (all_node.1 h.ranges).2 part hm
    exact ⟨h.source, hpoints, hranges, hleft, hright⟩

/-- A slot of a node and the same slot of its counterpart hold the nodes of the same parts. -/
theorem related_slotValue (h : outline.Links a b) (hk : a.kind ≠ .special .variationPoint)
    (slot : Slot) :
    Related (SlotValue.Holds fun held other => ∃ part ∈ outline.parts, part.Links held other)
      (a.slotValue slot) (b.slotValue slot) := by
  have hkind := h.alike.kind_eq hk
  cases hindex : a.kind.slotIndex? slot with
  | none =>
    have hindex' : b.kind.slotIndex? slot = none := by rw [← hkind, hindex]
    unfold Node.slotValue
    rw [hindex, hindex', hkind]
    exact .error _
  | some position =>
    obtain ⟨hlt, rfl⟩ := NodeKind.slotIndex?_eq_some_iff.1 hindex
    cases outline with
    | node label parts =>
      have hlabel : a.kind = label.kind := h.left.kind_eq
      have hplain : label.kind ≠ .special .variationPoint := by rwa [← hlabel]
      have hattached := (all_node.1 h.points).1.attached hplain
      have hright := h.right
      rw [erase_node hplain, eraseAll_eq_map hattached] at hright
      have hdecl : label.kind.slots[position]? = some a.kind.slots[position] := by
        rw [← hlabel, List.getElem?_eq_getElem hlt]
      obtain ⟨nodes, hnodes, hstands⟩ := h.left.exists_slotValue hdecl
      obtain ⟨others, hothers, hstands'⟩ := hright.exists_slotValue hdecl
      rw [hnodes, hothers]
      apply Node.related_hold hkind
      rw [List.filter_map] at hstands'
      simp only [Function.comp_def, label_erase, Label.placeIn_erase] at hstands'
      refine (forall₂_of_map hstands hstands').imp ?_
      rintro held other ⟨part, hm, hleft, hright⟩
      have hpart := (List.mem_filter.1 hm).1
      exact ⟨part, hpart, h.of_mem hpart hleft hright⟩

end Outline.Links

end

end CodeTree
