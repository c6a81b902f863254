import CodeTree.Proofs.Ancestry
import CodeTree.Tree.Walk

/-!
# Walks of valid trees

`Listed` gives the pre-order of nodes without a bound on the steps: a node, all that is below its
children, and then what comes after. In a valid tree every node with a depth has such a list
(`Valid.exists_listed`), and the walk gives this list (`Valid.exists_descendants`): no node is in it
twice, so there are no more steps than nodes. The leaves in a list cover what its nodes cover,
because the children of a node cover what it covers.
-/

namespace CodeTree

namespace Node

variable {tree : Tree}

/-- Whether a list has the given nodes and all that is below them, in pre-order. -/
inductive Listed : List (Node tree) → List (Node tree) → Prop where
  | nil : Listed [] []
  | cons {node : Node tree} {children siblings below after : List (Node tree)}
    (hc : node.children = .ok children) (hb : Listed children below)
    (ha : Listed siblings after) : Listed (node :: siblings) (node :: (below ++ after))

variable {pending all : List (Node tree)}

/-- A walk gives the list of the nodes it starts with, and then goes on. -/
theorem Listed.visit (h : Listed pending all) {steps : Nat} {rest tail : List (Node tree)}
    (ht : visit steps rest = .ok (some tail)) :
    visit (all.length + steps) (pending ++ rest) = .ok (some (all ++ tail)) := by
  induction h generalizing steps rest tail with
  | nil =>
    rw [List.length_nil, Nat.zero_add]
    exact ht
  | @cons node children siblings below after hc _ _ ihb iha =>
    have hlength : (node :: (below ++ after)).length + steps =
        below.length + (after.length + steps) + 1 := by
      rw [List.length_cons, List.length_append]
      omega
    have hbelow := ihb (iha ht)
    rw [hlength, List.cons_append, Node.visit, hc]
    simp only [bind, Except.bind, hbelow]
    rw [List.cons_append, List.append_assoc]
    rfl

theorem Listed.mem_iff (h : Listed pending all) {other : Node tree} :
    other ∈ all ↔ ∃ node ∈ pending, node.Above other := by
  induction h with
  | nil => simp
  | @cons node children siblings below after hc _ _ ihb iha =>
    have hnode : node.Above other ↔ other = node ∨ ∃ child ∈ children, child.Above other := by
      constructor
      · intro ha
        rcases Relation.ReflTransGen.cases_head ha with rfl | ⟨child, hchild, hrest⟩
        · exact .inl rfl
        · exact .inr ⟨child, (hasChild_iff hc).1 hchild, hrest⟩
      · rintro (rfl | ⟨child, hchild, hrest⟩)
        · exact .refl
        · exact .head ((hasChild_iff hc).2 hchild) hrest
    rw [List.mem_cons, List.mem_append, ihb, iha, List.exists_mem_cons_iff, hnode, or_assoc]

end Node

namespace Tree

open Node

variable {tree : Tree} {pending all : List (Node tree)}

/-- No node is listed twice, and none behind a node that it is above. -/
theorem Valid.nodup_of_listed (h : tree.Valid) (hl : Listed pending all) {depth : Nat}
    (hd : ∀ node ∈ pending, AtDepth depth node) (hn : pending.Nodup) :
    all.Nodup ∧ all.Pairwise fun before after => ¬after.Above before := by
  induction hl generalizing depth with
  | nil => exact ⟨List.nodup_nil, .nil⟩
  | @cons node children siblings below after hc hb ha ihb iha =>
    obtain ⟨hnode, hsiblings⟩ := List.forall_mem_cons.1 hd
    obtain ⟨hfresh, hrest⟩ := List.nodup_cons.1 hn
    have hchildren : ∀ child ∈ children, AtDepth (depth + 1) child := fun child hm =>
      h.atDepth_of_owns ((hasChild_iff hc).2 hm).owns hnode
    have hchildrenNodup : children.Nodup := by
      apply List.Nodup.of_map (·.id)
      rw [← map_id_of_nodesAt hc]
      exact h.nodup_children node
    obtain ⟨hbnodup, hbpairwise⟩ := ihb hchildren hchildrenNodup
    obtain ⟨hanodup, hapairwise⟩ := iha hsiblings hrest
    -- What is below the node is deeper than it, and no sibling is above the node or what is below.
    have hdeeper : ∀ other ∈ below, ¬other.Above node := by
      intro other hm habove
      obtain ⟨child, hchild, hother⟩ := hb.mem_iff.1 hm
      obtain ⟨i, hi, hle, -⟩ := h.exists_depth_of_above (hother.trans habove) (hchildren child hchild)
      rw [h.depth_unique hi hnode] at hle
      omega
    have hbeside : ∀ other ∈ after, ∀ inner, node.Above inner → ¬other.Above inner := by
      intro other hm inner hinner habove
      obtain ⟨sibling, hsibling, hother⟩ := ha.mem_iff.1 hm
      have heq := h.eq_of_above hnode (hsiblings sibling hsibling) hinner (hother.trans habove)
      rw [heq] at hfresh
      exact hfresh hsibling
    have hbelow : ∀ other ∈ below, node.Above other := by
      intro other hm
      obtain ⟨child, hchild, hother⟩ := hb.mem_iff.1 hm
      exact .head ((hasChild_iff hc).2 hchild) hother
    constructor
    · rw [List.nodup_cons, List.mem_append, List.nodup_append]
      refine ⟨?_, hbnodup, hanodup, fun x hx y hy heq => ?_⟩
      · rintro (hm | hm)
        · exact hdeeper node hm .refl
        · exact hbeside node hm node .refl .refl
      · exact hbeside y hy x (hbelow x hx) (heq ▸ .refl)
    · rw [List.pairwise_cons, List.pairwise_append]
      refine ⟨fun other hm => ?_, hbpairwise, hapairwise, fun x hx y hy => ?_⟩
      · rcases List.mem_append.1 hm with hm | hm
        · exact hdeeper other hm
        · exact hbeside other hm node .refl
      · exact hbeside y hy x (hbelow x hx)

theorem Valid.consecutive_leaves (h : tree.Valid) (hl : Listed pending all) {start stop : Nat}
    (hc : Consecutive start (pending.map (·.span)) stop) :
    Consecutive start ((all.filter (·.data.children.isEmpty)).map (·.span)) stop := by
  induction hl generalizing start stop with
  | nil => exact hc
  | @cons node children siblings below after hchildren hb _ ihb iha =>
    obtain ⟨others, hok, hids, -, hspans⟩ := h.exists_children node
    obtain rfl : children = others := Except.ok.inj (hchildren.symm.trans hok)
    obtain ⟨hstart, hle, hrest⟩ := hc
    rw [List.filter_cons, List.filter_append]
    cases hlist : children with
    | nil =>
      subst hlist
      cases hb
      have hleaf : node.data.children.isEmpty = true := by
        rw [← hids]
        rfl
      rw [if_pos hleaf]
      exact ⟨hstart, hle, iha hrest⟩
    | cons first others =>
      have hne : children ≠ [] := by
        rw [hlist]
        exact List.cons_ne_nil _ _
      have hinner : ¬node.data.children.isEmpty = true := by
        rw [← hids, hlist]
        exact Bool.false_ne_true
      have hbelow := hspans hne
      rw [hstart] at hbelow
      rw [if_neg hinner, List.map_append]
      exact (ihb hbelow).append (iha hrest)

theorem Valid.pairwise_start (h : tree.Valid) (hl : Listed pending all) {start stop : Nat}
    (hc : Consecutive start (pending.map (·.span)) stop) :
    (∀ node ∈ all, start ≤ node.span.start ∧ node.span.start ≤ stop) ∧
      all.Pairwise fun before after => before.span.start ≤ after.span.start := by
  induction hl generalizing start stop with
  | nil => exact ⟨by simp, .nil⟩
  | @cons node children siblings below after hchildren hb _ ihb iha =>
    obtain ⟨others, hok, hids, -, hspans⟩ := h.exists_children node
    obtain rfl : children = others := Except.ok.inj (hchildren.symm.trans hok)
    obtain ⟨rfl, hle, hrest⟩ := hc
    have hstop : node.span.stop ≤ stop := hrest.le
    obtain ⟨habounds, hapairwise⟩ := iha hrest
    obtain ⟨hbbounds, hbpairwise⟩ : (∀ other ∈ below, node.span.start ≤ other.span.start ∧
        other.span.start ≤ node.span.stop) ∧
          below.Pairwise fun before after => before.span.start ≤ after.span.start := by
      by_cases hne : children = []
      · subst hne
        cases hb
        exact ⟨by simp, .nil⟩
      · exact ihb (hspans hne)
    refine ⟨List.forall_mem_cons.2 ⟨⟨Nat.le_refl _, Nat.le_trans hle hstop⟩, ?_⟩, ?_⟩
    · intro other hm
      rcases List.mem_append.1 hm with hm | hm
      · obtain ⟨hfirst, hlast⟩ := hbbounds other hm
        exact ⟨hfirst, Nat.le_trans hlast hstop⟩
      · obtain ⟨hfirst, hlast⟩ := habounds other hm
        exact ⟨Nat.le_trans hle hfirst, hlast⟩
    · rw [List.pairwise_cons, List.pairwise_append]
      refine ⟨fun other hm => ?_, hbpairwise, hapairwise, fun x hx y hy => ?_⟩
      · rcases List.mem_append.1 hm with hm | hm
        · exact (hbbounds other hm).1
        · exact Nat.le_trans hle (habounds other hm).1
      · exact Nat.le_trans (hbbounds x hx).2 (habounds y hy).1

/-- Below nodes of one depth there is an end, since no depth reaches the number of nodes. -/
theorem Valid.exists_listed (h : tree.Valid) (height : Nat) {depth : Nat}
    (hh : tree.nodes.size ≤ depth + height) (nodes : List (Node tree))
    (hd : ∀ node ∈ nodes, AtDepth depth node) : ∃ all, Listed nodes all := by
  induction height generalizing depth nodes with
  | zero =>
    cases nodes with
    | nil => exact ⟨[], .nil⟩
    | cons node rest =>
      have hlt := h.depth_lt (hd node List.mem_cons_self)
      omega
  | succ height ih =>
    induction nodes with
    | nil => exact ⟨[], .nil⟩
    | cons node rest ihrest =>
      obtain ⟨hnode, hrest⟩ := List.forall_mem_cons.1 hd
      obtain ⟨children, hok, -, -, -⟩ := h.exists_children node
      have hchildren : ∀ child ∈ children, AtDepth (depth + 1) child := fun child hm =>
        h.atDepth_of_owns ((hasChild_iff hok).2 hm).owns hnode
      obtain ⟨below, hbelow⟩ := ih (by omega) children hchildren
      obtain ⟨after, hafter⟩ := ihrest hrest
      exact ⟨_, .cons hok hbelow hafter⟩

/-- The walk from a node with a depth ends, and visits each node below it once. -/
theorem Valid.exists_descendants (h : tree.Valid) {node : Node tree} {depth : Nat}
    (hd : AtDepth depth node) :
    ∃ nodes, node.descendants = .ok nodes ∧ Listed [node] nodes ∧ nodes.Nodup ∧
      nodes.Pairwise fun before after => ¬after.Above before := by
  have hsingle : ∀ other ∈ [node], AtDepth depth other := by
    intro other hm
    rwa [List.mem_singleton.1 hm]
  obtain ⟨nodes, hlisted⟩ := h.exists_listed tree.nodes.size (Nat.le_add_left _ _) [node] hsingle
  obtain ⟨hnodup, hpairwise⟩ := h.nodup_of_listed hlisted hsingle (List.nodup_singleton _)
  obtain ⟨steps, hsteps⟩ := Nat.exists_eq_add_of_le (length_le_size hnodup)
  have hend : visit steps ([] : List (Node tree)) = .ok (some []) := by cases steps <;> rfl
  have hvisit := hlisted.visit hend
  rw [← hsteps, List.append_nil, List.append_nil] at hvisit
  refine ⟨nodes, ?_, hlisted, hnodup, hpairwise⟩
  rw [Node.descendants, hvisit]
  rfl

theorem Valid.exists_leaves (h : tree.Valid) {node : Node tree} {depth : Nat}
    (hd : AtDepth depth node) :
    ∃ leaves, node.leaves = .ok leaves ∧
      Consecutive node.span.start (leaves.map (·.span)) node.span.stop := by
  obtain ⟨nodes, hok, hlisted, -, -⟩ := h.exists_descendants hd
  refine ⟨_, ?_, h.consecutive_leaves hlisted ⟨rfl, h.span_le node, rfl⟩⟩
  rw [Node.leaves, hok]
  rfl

theorem Valid.leaves_root (h : tree.Valid) :
    ∃ root leaves, tree.root = .ok root ∧ root.leaves = .ok leaves ∧
      Consecutive 0 (leaves.map (·.span)) tree.sourceSize := by
  obtain ⟨root, hroot, hspan⟩ := h.exists_root
  obtain ⟨leaves, hleaves, hspans⟩ := h.exists_leaves (.root (id_of_root hroot))
  rw [hspan] at hspans
  exact ⟨root, leaves, hroot, hleaves, hspans⟩

end Tree

end CodeTree
