import CodeTree.Proofs.Ancestry
import CodeTree.Proofs.OutlineWalk

/-!
# Ranges of ids

An outline is numbered in pre-order, so what is below a node has the ids that follow the id of the
node, and what is below one part comes before what is below the next. In a valid tree the nodes that
are reached from a node, through children and alternatives, are those in the range of ids that its
outline takes (`StandsAt.reaches_iff`).
-/

namespace CodeTree

open Relation

namespace Outline

section

variable {first : Nat} {parts : List Outline}

theorem bounds_of_mem_numbered {id : Nat} {part : Outline} (h : (id, part) ∈ numbered first parts) :
    first ≤ id ∧ id + part.size ≤ first + sizeAll parts := by
  induction parts generalizing first with
  | nil => cases h
  | cons head rest ih =>
    rw [sizeAll_cons]
    rcases List.mem_cons.1 h with heq | h
    · cases heq
      exact ⟨Nat.le_refl _, by omega⟩
    · obtain ⟨hle, hbound⟩ := ih h
      exact ⟨Nat.le_trans (Nat.le_add_right _ _) hle, by omega⟩

theorem pairwise_numbered (first : Nat) (parts : List Outline) :
    (numbered first parts).Pairwise fun before after => before.1 + before.2.size ≤ after.1 := by
  induction parts generalizing first with
  | nil => exact .nil
  | cons part rest ih => exact .cons (fun head hm => (bounds_of_mem_numbered hm).1) (ih _)

theorem exists_mem_numbered {i : Nat} (hle : first ≤ i) (hlt : i < first + sizeAll parts) :
    ∃ head ∈ numbered first parts, head.1 ≤ i ∧ i < head.1 + head.2.size := by
  induction parts generalizing first with
  | nil =>
    rw [sizeAll_nil] at hlt
    omega
  | cons part rest ih =>
    rw [sizeAll_cons] at hlt
    by_cases hpart : i < first + part.size
    · exact ⟨(first, part), List.mem_cons_self, hle, hpart⟩
    · have hfrom : first + part.size ≤ i := Nat.le_of_not_lt hpart
      obtain ⟨head, hm, hhead⟩ := ih hfrom (by omega)
      exact ⟨head, List.mem_cons_of_mem _ hm, hhead⟩

/-- Of two parts, one and what is below it come before the other. -/
theorem numbered_cases {i j : Nat} {part other : Outline} (h : (i, part) ∈ numbered first parts)
    (h' : (j, other) ∈ numbered first parts) :
    (i, part) = (j, other) ∨ i + part.size ≤ j ∨ j + other.size ≤ i := by
  have hpairwise := pairwise_numbered first parts
  have hforth : (numbered first parts).Pairwise fun a b =>
      a = b ∨ a.1 + a.2.size ≤ b.1 ∨ b.1 + b.2.size ≤ a.1 :=
    hpairwise.imp fun hle => .inr (.inl hle)
  have hback : (numbered first parts).Pairwise fun b a =>
      a = b ∨ a.1 + a.2.size ≤ b.1 ∨ b.1 + b.2.size ≤ a.1 :=
    hpairwise.imp fun hle => .inr (.inr hle)
  exact hforth.forall_of_forall_of_flip (fun _ _ => .inl rfl) hback h h'

theorem numbered_inj {id : Nat} {part other : Outline} (h : (id, part) ∈ numbered first parts)
    (h' : (id, other) ∈ numbered first parts) : part = other := by
  have hpart := part.size_pos
  have hother := other.size_pos
  rcases numbered_cases h h' with heq | hle | hle
  · exact (Prod.mk.inj heq).2
  · omega
  · omega

theorem add_size_le_of_lt {i j : Nat} {part other : Outline}
    (h : (i, part) ∈ numbered first parts) (h' : (j, other) ∈ numbered first parts) (hlt : i < j) :
    i + part.size ≤ j := by
  rcases numbered_cases h h' with heq | hle | hle
  · cases heq
    exact absurd hlt (Nat.lt_irrefl i)
  · exact hle
  · omega

end

variable {tree : Tree} {node held : Node tree} {label : Label} {parts : List Outline}

theorem AllLaidOut.exists_node {parent first : NodeId} (h : AllLaidOut tree parent first parts)
    {head : NodeId × Outline} (hm : head ∈ numbered first parts) :
    ∃ node : Node tree, node.id = head.1 ∧ head.2.StandsAt node ∧
      node.data.parent = some parent := by
  obtain ⟨id, part⟩ := head
  have hlaid := h.of_mem hm
  cases part with
  | node label below =>
    obtain ⟨hlt, hdata⟩ := Array.getElem?_eq_some_iff.1 (laidOut_node.1 hlaid).1
    refine ⟨⟨id, hlt⟩, rfl, ⟨some parent, hlaid⟩, ?_⟩
    have hparent := congrArg NodeData.parent hdata
    exact hparent

theorem AllLaidOut.standsAt {parent first : NodeId} (h : AllLaidOut tree parent first parts)
    {part : Outline} (hm : (held.id, part) ∈ numbered first parts) : part.StandsAt held :=
  ⟨some parent, h.of_mem hm⟩

theorem StandsAt.exists_childPart (h : (Outline.node label parts).StandsAt node)
    (hc : node.HasChild held) :
    ∃ part, (held.id, part) ∈ numbered (node.id + 1) parts ∧ part.label.detached = false ∧
      part.StandsAt held := by
  obtain ⟨parent, hdata, hparts⟩ := h.exists_data
  rw [Node.HasChild, hdata, children_entry] at hc
  obtain ⟨part, hm, hattached⟩ := mem_idsWhere.1 hc
  exact ⟨part, hm, by simpa using hattached, hparts.standsAt hm⟩

theorem StandsAt.exists_part (h : (Outline.node label parts).StandsAt node)
    (ho : node.Owns held) :
    ∃ part, (held.id, part) ∈ numbered (node.id + 1) parts ∧ part.StandsAt held := by
  rcases List.mem_append.1 ho with hm | hm
  · obtain ⟨part, hm, -, hstands⟩ := h.exists_childPart hm
    exact ⟨part, hm, hstands⟩
  · obtain ⟨parent, hdata, hparts⟩ := h.exists_data
    obtain ⟨⟨decl, ids⟩, hzip, hm⟩ := List.mem_flatMap.1 hm
    have hids : held.id ∈ ids := by
      simp only at hm
      split at hm
      · exact hm
      · cases hm
    have hslots := (List.of_mem_zip hzip).2
    rw [hdata, slots_entry] at hslots
    obtain ⟨other, -, rfl⟩ := List.mem_map.1 hslots
    obtain ⟨part, hm, -⟩ := mem_idsWhere.1 hids
    exact ⟨part, hm, hparts.standsAt hm⟩

theorem StandsAt.exists_held (h : (Outline.node label parts).StandsAt node)
    {head : NodeId × Outline} (hm : head ∈ numbered (node.id + 1) parts) :
    ∃ held : Node tree, held.id = head.1 ∧ head.2.StandsAt held ∧ held.HasParent node := by
  obtain ⟨_, -, hparts⟩ := h.exists_data
  obtain ⟨held, hid, hstands, hparent⟩ := hparts.exists_node hm
  exact ⟨held, hid, hstands, Node.hasParent_iff.2 hparent⟩

/-- What is reached from a node has its id in the range of the node's outline. -/
theorem StandsAt.lt_of_reaches {outline : Outline} (h : outline.StandsAt node)
    (hr : node.Reaches held) : node.id ≤ held.id ∧ held.id < node.id + outline.size := by
  induction hr using ReflTransGen.head_induction_on generalizing outline with
  | refl => exact ⟨Nat.le_refl _, Nat.lt_add_of_pos_right outline.size_pos⟩
  | @head node middle ho _ ih =>
    cases outline with
    | node label parts =>
      obtain ⟨part, hm, hstands⟩ := h.exists_part ho
      obtain ⟨hle, hbound⟩ := bounds_of_mem_numbered hm
      obtain ⟨hfrom, hto⟩ := ih hstands
      rw [size_node]
      unfold NodeId at *
      omega

theorem StandsAt.lt_of_owns {outline : Outline} (h : outline.StandsAt node)
    (ho : node.Owns held) : node.id < held.id := by
  cases outline with
  | node label parts =>
    obtain ⟨part, hm, -⟩ := h.exists_part ho
    exact (bounds_of_mem_numbered hm).1

/-- Every id in the range of an outline is that of a node that is reached. -/
theorem StandsAt.reaches_of_lt (hv : tree.Valid) {outline : Outline} (h : outline.StandsAt node)
    (hle : node.id ≤ held.id) (hlt : held.id < node.id + outline.size) : node.Reaches held := by
  induction hsize : outline.size using Nat.strong_induction_on generalizing outline node with
  | _ size ih =>
    cases outline with
    | node label parts =>
      by_cases hid : held.id = node.id
      · rw [Tree.node_ext hid]
        exact .refl
      · rw [size_node] at hlt
        have hfirst : node.id + 1 ≤ held.id := Nat.lt_of_le_of_ne hle (Ne.symm hid)
        have hlast : held.id < node.id + 1 + sizeAll parts := by
          unfold NodeId at *
          omega
        obtain ⟨head, hm, hfrom, hto⟩ := exists_mem_numbered hfirst hlast
        obtain ⟨part, hid, hstands, hparent⟩ := h.exists_held hm
        have hsmaller : head.2.size < size := by
          rw [← hsize]
          exact size_lt_of_mem (mem_of_mem_numbered hm)
        rw [← hid] at hfrom hto
        exact .head (hv.owns_iff.2 hparent) (ih _ hsmaller hstands hfrom hto rfl)

theorem StandsAt.reaches_iff (hv : tree.Valid) {outline : Outline} (h : outline.StandsAt node) :
    node.Reaches held ↔ node.id ≤ held.id ∧ held.id < node.id + outline.size :=
  ⟨h.lt_of_reaches, fun hrange => h.reaches_of_lt hv hrange.1 hrange.2⟩

/-- In the tree of an outline the outline stands at the root, from which every node is reached. -/
theorem exists_standing_root {language : Language} {source : String} {outline : Outline}
    (hv : (outline.toTree language source).Valid) :
    ∃ root, (outline.toTree language source).root = .ok root ∧ outline.StandsAt root ∧
      ∀ other, root.Reaches other := by
  obtain ⟨root, hroot, -⟩ := hv.exists_root
  have hid : root.id = NodeId.root := Tree.id_of_root hroot
  have hstands : outline.StandsAt root := by
    refine ⟨none, ?_⟩
    rw [hid]
    exact laidOut_toTree language source outline
  refine ⟨root, hroot, hstands, fun other => (hstands.reaches_iff hv).2 ?_⟩
  have hlt : other.id < outline.size := by
    rw [← size_toTree language source outline]
    exact other.id_lt
  rw [hid]
  exact ⟨Nat.zero_le _, by rwa [NodeId.root, Nat.zero_add]⟩

end Outline

end CodeTree
