import CodeTree.Proofs.Walks
import CodeTree.Query.Parts
import CodeTree.Tree.Expression
import CodeTree.Tree.Stored

/-!
# Where walks end

From a node with a depth, whatever goes down a valid tree ends: its expression and the chain of
declarators take one unit of their bound for each level, and there are fewer levels than nodes.

Reading a stored tree checks each node's owners and parent but not that its parent links lead to the
root. A node may own itself, and then nothing that goes down from it ends (`ofJson_detachedCycle`).
That is all that can be wrong: from a node whose parent links lead to the root every walk ends, and
the parent links of any other node lead into a cycle (`walks_of_ofJson`).
-/

namespace CodeTree

theorem exists_mapM_forall {ε α β : Type} {f : α → Except ε β} {P : β → Prop} {xs : List α}
    (h : ∀ x ∈ xs, ∃ y, f x = .ok y ∧ P y) : ∃ ys, xs.mapM f = .ok ys ∧ ∀ y ∈ ys, P y := by
  induction xs with
  | nil => exact ⟨[], rfl, by simp⟩
  | cons x rest ih =>
    obtain ⟨⟨y, hy, hp⟩, hrest⟩ := List.forall_mem_cons.1 h
    obtain ⟨ys, hys, hps⟩ := ih hrest
    refine ⟨y :: ys, ?_, List.forall_mem_cons.2 ⟨hp, hps⟩⟩
    rw [List.mapM_cons, hy, hys]
    rfl

theorem exists_mapM {ε α β : Type} {f : α → Except ε β} {xs : List α}
    (h : ∀ x ∈ xs, ∃ y, f x = .ok y) : ∃ ys, xs.mapM f = .ok ys := by
  have hs : ∀ x ∈ xs, ∃ y, f x = .ok y ∧ True := by simpa using h
  obtain ⟨ys, hys, -⟩ := exists_mapM_forall hs
  exact ⟨ys, hys⟩

namespace Tree

open Node Relation

variable {tree : Tree}

theorem Valid.exists_first (h : tree.Valid) (node : Node tree) {slot : Slot}
    (hs : node.kind.declares slot = true) :
    ∃ held, node.first slot = .ok held ∧ ∀ other, held = some other → other.HasParent node := by
  obtain ⟨value, hvalue, hparents⟩ := h.exists_slotValue node hs
  refine ⟨value.nodes.head?, ?_, fun other ho => ?_⟩
  · rw [first, hvalue]
    rfl
  · exact hasParent_iff.2 (hparents other (List.mem_of_mem_head? ho))

/-- A chain of declarators goes one level down with each node. -/
theorem Valid.exists_chainWithin (h : tree.Valid) (bound : Nat) {depth : Nat}
    (hb : tree.nodes.size ≤ depth + bound) {held : Option (Node tree)}
    (hd : ∀ node, held = some node → AtDepth depth node) :
    ∃ chain, chainWithin bound held = .ok (some chain) := by
  induction bound generalizing depth held with
  | zero =>
    cases held with
    | none => exact ⟨[], rfl⟩
    | some node =>
      have hlt := h.depth_lt (hd node rfl)
      omega
  | succ bound ih =>
    cases held with
    | none => exact ⟨[], rfl⟩
    | some node =>
      have hnext : ∀ next : Option (Node tree),
          (∀ other, next = some other → other.HasParent node) →
            ∃ chain, chainWithin bound next = .ok (some chain) := fun next hparents =>
        ih (by omega) fun other ho => .step (hparents other ho) (hd node rfl)
      rw [chainWithin]
      split
      · next hs =>
        obtain ⟨next, hfirst, hparents⟩ := h.exists_first node hs
        obtain ⟨chain, hchain⟩ := hnext next hparents
        simp only [bind, Except.bind, hfirst, hchain]
        exact ⟨_, rfl⟩
      · obtain ⟨chain, hchain⟩ := hnext none (by simp)
        simp only [bind, Except.bind, hchain]
        exact ⟨_, rfl⟩

theorem Valid.exists_declaratorChain (h : tree.Valid) {node : Node tree} {depth : Nat}
    (hd : AtDepth depth node) {slot : Slot} (hs : node.kind.declares slot = true) :
    ∃ chain, node.declaratorChain slot = .ok chain := by
  obtain ⟨held, hheld, hparents⟩ := h.exists_first node hs
  obtain ⟨chain, hchain⟩ := h.exists_chainWithin tree.nodes.size (Nat.le_add_left _ _)
    fun other ho => AtDepth.step (hparents other ho) hd
  refine ⟨chain, ?_⟩
  rw [declaratorChain, hheld]
  simp only [bind, Except.bind, hchain]
  rfl

theorem Valid.exists_alternatives (h : tree.Valid) (node : Node tree) :
    ∃ alternatives, node.alternatives = .ok alternatives ∧
      ∀ held ∈ alternatives, held.HasParent node := by
  unfold alternatives
  split
  · next position _ _ =>
    by_cases hlt : position < node.data.slots.length
    · obtain ⟨nodes, hnodes, -, hparents⟩ := h.exists_slotted node (List.getElem_mem hlt)
      rw [List.getD_eq_getElem?_getD, List.getElem?_eq_getElem hlt]
      exact ⟨nodes, hnodes, fun held hm => hasParent_iff.2 (hparents held hm)⟩
    · rw [List.getD_eq_getElem?_getD, List.getElem?_eq_none (Nat.le_of_not_lt hlt)]
      exact ⟨[], rfl, by simp⟩
  · exact ⟨[], rfl, by simp⟩

theorem exists_parentSlot {node parent : Node tree} (hp : node.HasParent parent) :
    ∃ slot, node.parentSlot = .ok slot := by
  rw [parentSlot, hp]
  exact ⟨_, rfl⟩

/-- An expression goes one level down with each bracket. -/
theorem Valid.exists_expressionIn (h : tree.Valid) (bound : Nat) {depth : Nat}
    (hb : tree.nodes.size ≤ depth + bound) {node : Node tree} (hd : AtDepth depth node)
    (slot : Option Slot) : ∃ text, expressionIn bound slot node = .ok text := by
  induction bound generalizing depth node slot with
  | zero =>
    have hlt := h.depth_lt hd
    omega
  | succ bound ih =>
    rw [expressionIn]
    split
    · rw [h.text_eq node]
      exact ⟨_, rfl⟩
    · have hbelow : ∀ held : Node tree, held.HasParent node → ∀ slot,
          ∃ text, expressionIn bound slot held = .ok text := fun held hp slot =>
        ih (by omega) (.step hp hd) slot
      obtain ⟨children, hchildren, -, -, -⟩ := h.exists_children node
      have hnamed : node.namedChildren = .ok (children.filter (·.kind.isNamed)) := by
        rw [namedChildren, hchildren]
        rfl
      obtain ⟨texts, htexts⟩ : ∃ texts, ((children.filter (·.kind.isNamed)).mapM fun child => do
          expressionIn bound (← child.parentSlot) child) = .ok texts := by
        apply exists_mapM
        intro child hm
        have hp := h.owns_iff.1 ((hasChild_iff hchildren).2 (List.mem_filter.1 hm).1).owns
        obtain ⟨slot, hslot⟩ := exists_parentSlot hp
        rw [hslot]
        exact hbelow child hp slot
      obtain ⟨alternatives, halternatives, hparents⟩ := h.exists_alternatives node
      obtain ⟨others, hothers⟩ :
          ∃ others, alternatives.mapM (expressionIn bound (some .alternatives)) = .ok others :=
        exists_mapM fun held hm => hbelow held (hparents held hm) _
      rw [hnamed, halternatives]
      simp only [bind, Except.bind] at htexts ⊢
      rw [htexts]
      simp only [hothers]
      exact ⟨_, rfl⟩

theorem Valid.exists_expression (h : tree.Valid) {node : Node tree} {depth : Nat}
    (hd : AtDepth depth node) : ∃ text, node.expression = .ok text :=
  h.exists_expressionIn tree.nodes.size (Nat.le_add_left _ _) hd none

theorem ofJson_eq_ok_iff {json : Json} :
    ofJson json = .ok tree ↔ Stored.tree? json = some tree ∧ tree.Valid := by
  rw [ofJson]
  cases Stored.tree? json with
  | none => simp
  | some other =>
    cases hv : other.validate with
    | error error =>
      simp only [hv, reduceCtorEq, Option.some.injEq, false_iff, not_and]
      rintro rfl hvalid
      rw [Valid, hv] at hvalid
      cases hvalid
    | ok _ =>
      simp only [hv, Except.ok.injEq, Option.some.injEq]
      constructor
      · rintro rfl
        exact ⟨rfl, hv⟩
      · exact fun h => h.1

/-- In a tree that was read, the nodes whose parent links lead to the root are those that are
reached from the root, and from them every walk ends. The parent links of the other nodes lead into
a cycle. -/
theorem walks_of_ofJson (json : Json) (tree : Tree) (h : ofJson json = .ok tree) :
    ∃ root, tree.root = .ok root ∧ ∀ node : Node tree,
      (node.ClimbsTo root ↔ root.Reaches node) ∧
      (¬node.ClimbsTo root ↔ ∃ ancestor, node.ClimbsTo ancestor ∧ ancestor.OwnAncestor) ∧
      (node.ClimbsTo root → (∃ nodes, node.descendants = .ok nodes) ∧
        (∃ leaves, node.leaves = .ok leaves) ∧ (∃ text, node.expression = .ok text) ∧
        ∀ slot, node.kind.declares slot = true →
          ∃ chain, node.declaratorChain slot = .ok chain) := by
  have hvalid := (ofJson_eq_ok_iff.1 h).2
  obtain ⟨root, hroot, -⟩ := hvalid.exists_root
  refine ⟨root, hroot, fun node => ⟨hvalid.reaches_iff_climbsTo.symm, ⟨fun hno => ?_, ?_⟩, ?_⟩⟩
  · rcases hvalid.climbsTo_root_or_cycle hroot node with hclimbs | hcycle
    · exact absurd hclimbs hno
    · exact hcycle
  · rintro ⟨ancestor, hup, hcycle⟩ hclimbs
    obtain ⟨depth, hd⟩ := (exists_depth_iff hroot).2 hclimbs
    obtain ⟨i, -, hancestor⟩ := hvalid.exists_depth_of_climbsTo hup hd
    exact hvalid.not_ownAncestor hancestor hcycle
  · intro hclimbs
    obtain ⟨depth, hd⟩ := (exists_depth_iff hroot).2 hclimbs
    obtain ⟨nodes, hnodes, -, -, -⟩ := hvalid.exists_descendants hd
    obtain ⟨leaves, hleaves, -⟩ := hvalid.exists_leaves hd
    exact ⟨⟨nodes, hnodes⟩, ⟨leaves, hleaves⟩, hvalid.exists_expression hd,
      fun slot hs => hvalid.exists_declaratorChain hd hs⟩

/-- The stored form of a tree whose second node is its own and only child. -/
def detachedCycle : Json :=
  .object [("language", .string "Python"), ("source", .string ""), ("nodes", .array [
    .object [("kind", .object [("Special", .string "ParseError")]),
      ("span", .object [("start", .nat 0), ("end", .nat 0)]), ("parent", .null),
      ("children", .array []), ("slots", .array [.array []])],
    .object [("kind", .object [("Special", .string "ParseError")]),
      ("span", .object [("start", .nat 0), ("end", .nat 0)]), ("parent", .nat 1),
      ("children", .array [.nat 1]), ("slots", .array [.array [.nat 1]])]])]

def selfOwned : Tree :=
  .ofParts .python "" #[⟨.special .parseError, ⟨0, 0⟩, none, [], [[]]⟩,
    ⟨.special .parseError, ⟨0, 0⟩, some 1, [1], [[1]]⟩]

theorem walks_of_detachedCycle :
    ofJson detachedCycle = .ok selfOwned ∧ ∃ root, selfOwned.root = .ok root ∧
      (∃ nodes, root.descendants = .ok nodes) ∧ ∃ text, root.expression = .ok text := by
  have hread : ofJson detachedCycle = .ok selfOwned := by decide +kernel
  obtain ⟨root, hroot, hnodes⟩ := walks_of_ofJson detachedCycle selfOwned hread
  obtain ⟨hdescendants, -, hexpression, -⟩ := (hnodes root).2.2 .refl
  exact ⟨hread, root, hroot, hdescendants, hexpression⟩

/-- A tree that was read may have a node whose parent links never lead to the root, and from which
no walk ends. -/
theorem ofJson_detachedCycle :
    ofJson detachedCycle = .ok selfOwned ∧ ∃ root node, selfOwned.root = .ok root ∧
      selfOwned.node 1 = .ok node ∧ ¬node.ClimbsTo root ∧ ¬root.Reaches node ∧ node.OwnAncestor ∧
      node.descendants = .error (.endless 1) ∧ node.leaves = .error (.endless 1) ∧
      node.expression = .error (.endless 1) := by
  have hread : ofJson detachedCycle = .ok selfOwned := by decide +kernel
  have hvalid := (ofJson_eq_ok_iff.1 hread).2
  let root : Node selfOwned := ⟨0, by decide⟩
  let node : Node selfOwned := ⟨1, by decide⟩
  have hroot : selfOwned.root = .ok root := node_eq_ok _
  have hcycle : node.OwnAncestor := .single (hasParent_iff.2 rfl)
  have hclimbs : ¬node.ClimbsTo root := by
    intro hclimbs
    obtain ⟨depth, hd⟩ := (exists_depth_iff hroot).2 hclimbs
    exact hvalid.not_ownAncestor hd hcycle
  refine ⟨hread, root, node, hroot, node_eq_ok _, hclimbs, ?_, hcycle, ?_, ?_, ?_⟩
  · rwa [hvalid.reaches_iff_climbsTo]
  · decide +kernel
  · decide +kernel
  · decide +kernel

end Tree

end CodeTree
