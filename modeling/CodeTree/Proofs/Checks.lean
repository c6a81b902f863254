import CodeTree.Tree.Validity

/-!
# What the checks of a tree decide

Validity is stated as a sequence of checks that stop at the first violation. Here each check is
given the condition that it decides: `Chained` for children that follow one another, `SlotSound` for
one slot, `NodeSound` for one node, and the number of owners for all of them. Together they say when
a tree is valid (`Tree.valid_iff`).
-/

namespace CodeTree

theorem bind_eq_ok_iff {ε α β : Type} {x : Except ε α} {f : α → Except ε β} {b : β} :
    x >>= f = .ok b ↔ ∃ a, x = .ok a ∧ f a = .ok b := by
  cases x <;> simp [bind, Except.bind]

theorem unit_bind_eq_ok_iff {ε β : Type} {x : Except ε Unit} {f : Unit → Except ε β} {b : β} :
    x >>= f = .ok b ↔ x = .ok () ∧ f () = .ok b := by
  rw [bind_eq_ok_iff]
  constructor
  · rintro ⟨_, hx, hf⟩
    exact ⟨hx, hf⟩
  · rintro ⟨hx, hf⟩
    exact ⟨(), hx, hf⟩

theorem exists_of_isOk {ε α : Type} {x : Except ε α} (h : x.isOk = true) : ∃ a, x = .ok a := by
  cases x with
  | ok a => exact ⟨a, rfl⟩
  | error e => cases h

theorem forM_eq_ok_iff {ε α : Type} {f : α → Except ε Unit} {xs : List α} :
    xs.forM f = .ok () ↔ ∀ x ∈ xs, f x = .ok () := by
  induction xs with
  | nil => simp [List.forM, pure, Except.pure]
  | cons x rest ih =>
    change (f x >>= fun _ => rest.forM f) = .ok () ↔ _
    rw [unit_bind_eq_ok_iff, List.forall_mem_cons, ← ih]

namespace Tree

variable (tree : Tree)

/-- The children exist, point back to the node `id`, and follow one another from `start` to
`stop`. -/
def Chained (id : NodeId) : Nat → List NodeId → Nat → Prop
  | start, [], stop => start = stop
  | start, child :: rest, stop => ∃ data, tree.nodes[child]? = some data ∧
      data.parent = some id ∧ data.span.start = start ∧ Chained id data.span.stop rest stop

/-- What one slot of a node has to hold. -/
structure SlotSound (id : NodeId) (owner : NodeData) (decl : SlotDecl) (ids : List NodeId) :
    Prop where
  arity : decl.arity.accepts ids.length = true
  held : ∀ slotted ∈ ids, ∃ data, tree.nodes[slotted]? = some data ∧ data.parent = some id ∧
    if NodeData.holdsAlternatives owner.kind decl.slot then
      owner.span.start ≤ data.span.start ∧ data.span.stop ≤ owner.span.stop
    else slotted ∈ owner.children

/-- What holds of one node of a valid tree, owners apart. -/
structure NodeSound (id : NodeId) (data : NodeData) : Prop where
  language : ∀ language, data.kind.language? = some language → language = tree.language
  range : tree.covers data.span = true
  leaf : data.kind.isTerminal = true → data.children = [] ∧ data.slots = []
  children : ∃ stop, tree.Chained id data.span.start data.children stop ∧
    (data.kind.isTerminal = false → stop = data.span.stop)
  slots_length : data.slots.length = data.kind.slots.length
  slots : ∀ decl ids, (decl, ids) ∈ data.kind.slots.zip data.slots →
    tree.SlotSound id data decl ids

variable {tree}

theorem checkChildren_eq_ok_iff {id : NodeId} {kind : NodeKind} {start stop : Nat}
    {children : List NodeId} :
    tree.checkChildren id kind start children = .ok stop ↔
      tree.Chained id start children stop := by
  induction children generalizing start with
  | nil => simp [checkChildren, Chained]
  | cons child rest ih =>
    rw [checkChildren, Chained]
    cases hd : tree.nodes[child]? with
    | none => simp
    | some data =>
      by_cases hp : data.parent = some id
      · by_cases hs : data.span.start = start
        · simp [hp, hs, ih]
        · simp [hp, hs]
      · simp [hp]

theorem checkChildren_bind_eq_ok_iff {α : Type} {id : NodeId} {kind : NodeKind} {start : Nat}
    {children : List NodeId} {rest : Nat → Except TreeError α} {a : α} :
    tree.checkChildren id kind start children >>= rest = .ok a ↔
      ∃ stop, tree.Chained id start children stop ∧ rest stop = .ok a := by
  simp only [bind_eq_ok_iff, checkChildren_eq_ok_iff]

theorem checkSlotted_eq_ok_iff {id : NodeId} {owner : NodeData} {slot : Slot}
    {slotted : NodeId} :
    tree.checkSlotted id owner slot slotted = .ok () ↔
      ∃ data, tree.nodes[slotted]? = some data ∧ data.parent = some id ∧
        if NodeData.holdsAlternatives owner.kind slot then
          owner.span.start ≤ data.span.start ∧ data.span.stop ≤ owner.span.stop
        else slotted ∈ owner.children := by
  rw [checkSlotted]
  cases hd : tree.nodes[slotted]? with
  | none => simp
  | some data =>
    rw [unit_bind_eq_ok_iff, ensure_eq_ok_iff]
    split <;> simp

theorem checkSlot_eq_ok_iff {id : NodeId} {owner : NodeData} {decl : SlotDecl}
    {ids : List NodeId} :
    tree.checkSlot id owner decl ids = .ok () ↔ tree.SlotSound id owner decl ids := by
  rw [checkSlot, unit_bind_eq_ok_iff, ensure_eq_ok_iff, forM_eq_ok_iff]
  simp only [checkSlotted_eq_ok_iff]
  exact ⟨fun h => ⟨h.1, h.2⟩, fun h => ⟨h.arity, h.held⟩⟩

theorem checkKind_eq_ok_iff {kind : NodeKind} :
    tree.checkKind kind = .ok () ↔
      ∀ language, kind.language? = some language → language = tree.language := by
  rw [checkKind]
  cases kind.language? with
  | none => simp
  | some language => simp

theorem checkNode_eq_ok_iff {id : NodeId} {data : NodeData} :
    tree.checkNode id data = .ok () ↔ tree.NodeSound id data := by
  rw [checkNode]
  simp only [unit_bind_eq_ok_iff, ensure_eq_ok_iff, checkKind_eq_ok_iff,
    checkChildren_bind_eq_ok_iff, forM_eq_ok_iff, checkSlot_eq_ok_iff]
  constructor
  · rintro ⟨hlanguage, hrange, hleaf, stop, hchildren, hstop, hlength, hslots⟩
    refine ⟨hlanguage, hrange, fun ht => ?_, ⟨stop, hchildren, fun ht => ?_⟩, ?_, ?_⟩
    · simpa [ht] using hleaf
    · simpa [ht] using hstop
    · exact (of_decide_eq_true hlength).symm
    · exact fun decl ids hmem => hslots (decl, ids) hmem
  · intro h
    obtain ⟨stop, hchildren, hstop⟩ := h.children
    refine ⟨h.language, h.range, ?_, stop, hchildren, ?_, ?_, ?_⟩
    · cases ht : data.kind.isTerminal with
      | false => rfl
      | true =>
        obtain ⟨hc, hs⟩ := h.leaf ht
        simp [hc, hs]
    · cases ht : data.kind.isTerminal with
      | false => simp [hstop ht]
      | true => rfl
    · exact decide_eq_true h.slots_length.symm
    · exact fun entry hmem => h.slots entry.1 entry.2 hmem

theorem getD_foldl_modify (ids : List Nat) (counts : Array Nat) {id : Nat}
    (h : id < counts.size) :
    (ids.foldl (fun counts id => counts.modify id (· + 1)) counts).getD id 0 =
      counts.getD id 0 + ids.count id := by
  induction ids generalizing counts with
  | nil => simp
  | cons first rest ih =>
    have hsize : id < (counts.modify first (· + 1)).size := by simpa using h
    rw [List.foldl_cons, ih _ hsize, List.count_cons]
    have hget : (counts.modify first (· + 1)).getD id 0 =
        counts.getD id 0 + if first = id then 1 else 0 := by
      rw [Array.getD_eq_getD_getElem?, Array.getD_eq_getD_getElem?, Array.getElem?_eq_getElem hsize,
        Array.getElem?_eq_getElem h, Array.getElem_modify]
      split <;> simp
    rw [hget]
    by_cases he : first = id
    · simp only [he, if_true, beq_self_eq_true]
      omega
    · simp [he]

def owned (tree : Tree) : List NodeId := tree.nodes.toList.flatMap NodeData.owned

theorem getD_ownerCounts {id : Nat} (h : id < tree.nodes.size) :
    tree.ownerCounts.getD id 0 = tree.owned.count id := by
  rw [ownerCounts, getD_foldl_modify _ _ (by simpa using h), owned]
  simp [Array.getD_eq_getD_getElem?, h]

theorem mem_allNodes (node : Node tree) : node ∈ tree.allNodes := by
  rw [allNodes, List.mem_map]
  exact ⟨node.index, List.mem_finRange _, rfl⟩

theorem map_data_allNodes (tree : Tree) : tree.allNodes.map Node.data = tree.nodes.toList := by
  rw [allNodes, List.map_map]
  exact List.ext_getElem (by simp) fun i _ _ => by simp [Node.data, Node.index]

theorem mem_drop_allNodes {node : Node tree} :
    node ∈ tree.allNodes.drop 1 ↔ node.id ≠ NodeId.root := by
  rw [allNodes, ← List.map_drop, List.mem_map]
  constructor
  · rintro ⟨index, hmem, rfl⟩
    obtain ⟨i, hi, hget⟩ := List.getElem_of_mem hmem
    rw [List.getElem_drop, List.getElem_finRange] at hget
    have hval := congrArg Fin.val hget
    simp only [Fin.val_cast] at hval
    intro (h0 : index.val = 0)
    omega
  · intro hne
    refine ⟨node.index, ?_, rfl⟩
    obtain ⟨i, hi⟩ : ∃ i : Nat, node.id = 1 + i :=
      ⟨node.id - 1, (Nat.add_sub_cancel' (Nat.pos_of_ne_zero hne)).symm⟩
    have hlt : i < ((List.finRange tree.nodes.size).drop 1).length := by
      have hbound : 1 + i < tree.nodes.size := hi ▸ node.id_lt
      rw [List.length_drop, List.length_finRange]
      omega
    have hget : ((List.finRange tree.nodes.size).drop 1)[i] = node.index := by
      rw [List.getElem_drop, List.getElem_finRange]
      exact Fin.ext hi.symm
    rw [← hget]
    exact List.getElem_mem hlt

theorem checkOwners_eq_ok_iff :
    tree.checkOwners = .ok () ↔
      ∀ id, id < tree.nodes.size → id ≠ NodeId.root → tree.owned.count id = 1 := by
  rw [checkOwners, forM_eq_ok_iff]
  constructor
  · intro h id hlt hne
    have hnode := h ⟨id, hlt⟩ (mem_drop_allNodes.2 hne)
    rw [ensure_eq_ok_iff, getD_ownerCounts hlt] at hnode
    simpa using hnode
  · intro h node hmem
    rw [ensure_eq_ok_iff, getD_ownerCounts node.id_lt,
      h node.id node.id_lt (mem_drop_allNodes.1 hmem)]
    rfl

theorem checkRoot_eq_ok_iff :
    tree.checkRoot = .ok () ↔ ∃ root, tree.nodes[NodeId.root]? = some root ∧
      root.parent = none ∧ root.span = ⟨0, tree.sourceSize⟩ := by
  rw [checkRoot]
  cases tree.nodes[NodeId.root]? with
  | none => simp
  | some root => simp [unit_bind_eq_ok_iff, ensure_eq_ok_iff]

theorem forM_checkNode_eq_ok_iff :
    (tree.allNodes.forM fun node => tree.checkNode node.id node.data) = .ok () ↔
      ∀ id data, tree.nodes[id]? = some data → tree.NodeSound id data := by
  rw [forM_eq_ok_iff]
  constructor
  · intro h id data hd
    obtain ⟨hlt, rfl⟩ := Array.getElem?_eq_some_iff.1 hd
    exact checkNode_eq_ok_iff.1 (h ⟨id, hlt⟩ (mem_allNodes _))
  · intro h node _
    exact checkNode_eq_ok_iff.2 (h node.id _ (Array.getElem?_eq_getElem node.id_lt))

/-- A tree is valid when its root covers the source, every node is sound, and every node but the
root is owned once. -/
theorem valid_iff :
    tree.Valid ↔ tree.size ≤ idLimit ∧
      (∃ root, tree.nodes[NodeId.root]? = some root ∧ root.parent = none ∧
        root.span = ⟨0, tree.sourceSize⟩) ∧
      (∀ id data, tree.nodes[id]? = some data → tree.NodeSound id data) ∧
      ∀ id, id < tree.nodes.size → id ≠ NodeId.root → tree.owned.count id = 1 := by
  rw [Valid, validate]
  simp only [unit_bind_eq_ok_iff, ensure_eq_ok_iff, checkRoot_eq_ok_iff, forM_checkNode_eq_ok_iff,
    checkOwners_eq_ok_iff, decide_eq_true_eq]

theorem validated_eq_ok_iff {result : Tree} :
    tree.validated = .ok result ↔ tree.Valid ∧ result = tree := by
  rw [validated, Valid]
  cases tree.validate with
  | ok _ => simp [Except.map, eq_comm]
  | error _ => simp [Except.map]

end Tree

end CodeTree
