import CodeTree.Proofs.ErasedSlots

/-!
# Calls and functions of erased trees

A query reads slots of calls and functions, of list nodes and of declarators, none of which is a
variation point. So it finds nodes in a tree and their counterparts in the erased tree, step by step
and slot by slot, and where it fails it fails with the same error.
-/

namespace CodeTree

section

variable {α β : Type} {R : α → β → Prop} {xs : List α} {ys : List β}

theorem rel_head? (h : List.Forall₂ R xs ys) : Option.Rel R xs.head? ys.head? := by
  cases h with
  | nil => exact .none
  | cons hfirst _ => exact .some hfirst

theorem rel_find? {p : α → Bool} {q : β → Bool} (hpq : ∀ a b, R a b → p a = q b)
    (h : List.Forall₂ R xs ys) : Option.Rel R (xs.find? p) (ys.find? q) := by
  induction h with
  | nil => exact .none
  | @cons x y xs ys hxy _ ih =>
    rw [List.find?_cons, List.find?_cons, hpq x y hxy]
    cases q y with
    | true => exact .some hxy
    | false => exact ih

end

namespace Node

variable {pointed plain : Tree} {a : Node pointed} {b : Node plain}

theorem expectArity_congr (hk : a.kind = b.kind) (slot : Slot) (arity : Arity) :
    a.expectArity slot arity = b.expectArity slot arity := by rw [expectArity, expectArity, hk]

theorem Alike.related_slotValue (h : a.Alike b) (hk : a.kind ≠ .special .variationPoint)
    (slot : Slot) : Related (SlotValue.Holds Alike) (a.slotValue slot) (b.slotValue slot) := by
  obtain ⟨outline, hlinks⟩ := h
  refine (hlinks.related_slotValue hk slot).imp fun value other hvalue => ?_
  exact hvalue.imp fun _ _ ⟨part, _, hpart⟩ => ⟨part, hpart⟩

theorem Alike.related_many (h : a.Alike b) (hk : a.kind ≠ .special .variationPoint)
    (slot : Slot) : Related (List.Forall₂ Alike) (a.many slot) (b.many slot) := by
  unfold many
  rw [expectArity_congr (h.kind_eq hk)]
  refine Related.bind_same fun _ => ?_
  refine (h.related_slotValue hk slot).bind fun value other hvalue => ?_
  exact .ok hvalue.nodes

theorem Alike.related_one (h : a.Alike b) (hk : a.kind ≠ .special .variationPoint)
    (slot : Slot) : Related Alike (a.one slot) (b.one slot) := by
  unfold one
  rw [expectArity_congr (h.kind_eq hk)]
  refine Related.bind_same fun _ => ?_
  refine (h.related_slotValue hk slot).bind fun value other hvalue => ?_
  cases hvalue with
  | single hheld =>
    cases hheld with
    | none => exact related_malformed (h.kind_eq hk) _ rfl
    | some hheld => exact .ok hheld
  | list _ => exact related_malformed (h.kind_eq hk) _ rfl

theorem related_first {R : Node pointed → Node plain → Prop} {slot : Slot}
    (h : Related (SlotValue.Holds R) (a.slotValue slot) (b.slotValue slot)) :
    Related (Option.Rel R) (a.first slot) (b.first slot) := by
  unfold first
  exact h.bind fun value other hvalue => .ok (rel_head? hvalue.nodes)

theorem Alike.related_items (h : a.Alike b) (hk : a.kind ≠ .special .variationPoint)
    (slot : Slot) : Related (List.Forall₂ Alike) (a.items slot) (b.items slot) := by
  unfold items
  refine (h.related_slotValue hk slot).bind fun value other hvalue => ?_
  refine (Related.mapM hvalue.nodes fun held other hheld => ?_).bind
    fun lists others hlists => .ok (List.rel_flatten hlists)
  rw [← hheld.declares_eq (by decide)]
  split
  · next hitems => exact hheld.related_many (NodeKind.ne_of_declares (by decide) hitems) .items
  · exact .ok (.cons hheld .nil)

/-- A node and its counterpart that stand for an outline, before and after erasing, of at most so
many nodes. -/
def Within (bound bound' : Nat) (a : Node pointed) (b : Node plain) : Prop :=
  ∃ outline : Outline, outline.Links a b ∧ outline.size ≤ bound ∧ outline.erase.size ≤ bound'

theorem Within.related_first {bound bound' : Nat} (h : Within (bound + 1) (bound' + 1) a b)
    (hk : a.kind ≠ .special .variationPoint) (slot : Slot) :
    Related (Option.Rel (Within bound bound')) (a.first slot) (b.first slot) := by
  obtain ⟨outline, hlinks, hsize, hsize'⟩ := h
  have hplain : outline.label.kind ≠ .special .variationPoint := by rwa [← hlinks.left.kind_eq]
  apply Node.related_first
  refine (hlinks.related_slotValue hk slot).imp fun value other hvalue => hvalue.imp ?_
  rintro held other ⟨part, hm, hpart⟩
  have hlt := Outline.size_lt_of_mem hm
  have hlt' := Outline.size_lt_of_mem (Outline.erase_mem_parts hlinks.points hplain hm)
  exact ⟨part, hpart, by omega, by omega⟩

def Ended (chain : Option (List (Node pointed))) (other : Option (List (Node plain))) : Prop :=
  ∃ nodes others, chain = some nodes ∧ other = some others ∧ List.Forall₂ Alike nodes others

/-- The next declarator stands for a part, so an outline has as many nodes as a chain can have. -/
theorem related_chainWithin (bound bound' : Nat) (x : Option (Node pointed))
    (y : Option (Node plain)) (h : Option.Rel (Within bound bound') x y) :
    Related Ended (chainWithin bound x) (chainWithin bound' y) := by
  induction bound generalizing bound' x y with
  | zero =>
    cases h with
    | none =>
      rw [chainWithin, chainWithin]
      exact .ok ⟨[], [], rfl, rfl, .nil⟩
    | some h =>
      obtain ⟨outline, -, hsize, -⟩ := h
      have hpos := outline.size_pos
      omega
  | succ bound ih =>
    cases h with
    | none =>
      rw [chainWithin, chainWithin]
      exact .ok ⟨[], [], rfl, rfl, .nil⟩
    | @some a b h =>
      have halike : a.Alike b := h.imp fun _ h => h.1
      have hpos : 0 < bound' := by
        obtain ⟨outline, -, -, hsize⟩ := h
        exact Nat.lt_of_lt_of_le outline.erase.size_pos hsize
      -- The erased outline may be smaller, so the second bound falls on its own.
      obtain ⟨bound', rfl⟩ := Nat.exists_eq_succ_of_ne_zero (Nat.ne_of_gt hpos)
      have hrest : ∀ x y, Option.Rel (Within bound bound') x y →
          Related Ended (do return (← chainWithin bound x).map (a :: ·))
            (do return (← chainWithin bound' y).map (b :: ·)) := by
        intro x y hxy
        refine (ih bound' x y hxy).bind fun chain other hchain => ?_
        obtain ⟨nodes, others, rfl, rfl, hnodes⟩ := hchain
        exact .ok ⟨a :: nodes, b :: others, rfl, rfl, .cons halike hnodes⟩
      rw [chainWithin, chainWithin, ← halike.declares_eq (by decide)]
      split
      · next hdeclares =>
        have hk : a.kind ≠ .special .variationPoint := NodeKind.ne_of_declares (by decide) hdeclares
        exact (h.related_first hk .declarator).bind hrest
      · exact hrest none none .none

theorem related_chain {x : Option (Node pointed)} {y : Option (Node plain)}
    (h : Option.Rel Alike x y) :
    Related Ended (chainWithin pointed.nodes.size x) (chainWithin plain.nodes.size y) := by
  apply related_chainWithin
  cases h with
  | none => exact .none
  | some hheld =>
    obtain ⟨outline, hlinks⟩ := hheld
    exact .some ⟨outline, hlinks, hlinks.left.size_le, hlinks.right.size_le⟩

theorem Alike.related_declaratorChain (h : a.Alike b) (hk : a.kind ≠ .special .variationPoint)
    (slot : Slot) :
    Related (List.Forall₂ Alike) (a.declaratorChain slot) (b.declaratorChain slot) := by
  unfold declaratorChain
  refine (related_first (h.related_slotValue hk slot)).bind fun x y hxy => ?_
  refine (related_chain hxy).bind fun chain other hended => ?_
  obtain ⟨nodes, others, rfl, rfl, hnodes⟩ := hended
  exact .ok hnodes

theorem Alike.related_readList (h : a.Alike b) (hk : a.kind ≠ .special .variationPoint)
    (rule : ListRule) : Related (List.Forall₂ Alike) (a.readList rule) (b.readList rule) := by
  cases rule with
  | items slot => exact h.related_items hk slot
  | declarator slot =>
    unfold readList
    refine (h.related_declaratorChain hk slot).bind fun nodes others hnodes => ?_
    have hfound : Option.Rel Alike (nodes.reverse.find? (·.kind.declares .parameters))
        (others.reverse.find? (·.kind.declares .parameters)) :=
      rel_find? (fun _ _ hheld => hheld.declares_eq (by decide)) (List.rel_reverse hnodes)
    generalize hx : nodes.reverse.find? (·.kind.declares .parameters) = x at hfound ⊢
    generalize others.reverse.find? (·.kind.declares .parameters) = y at hfound ⊢
    cases hfound with
    | none => exact .ok .nil
    | @some held other hheld =>
      have hdeclares : held.kind.declares .parameters = true := by simpa using List.find?_some hx
      exact hheld.related_items (NodeKind.ne_of_declares (by decide) hdeclares) .parameters
  | absent => exact .ok .nil

theorem callRule_congr (hk : a.kind = b.kind) : a.callRule = b.callRule := by
  unfold callRule
  rw [require, require, has, has, hk]

theorem functionRule_congr (hk : a.kind = b.kind) : a.functionRule = b.functionRule := by
  unfold functionRule
  rw [require, require, has, has, hk]

theorem Alike.related_callee (h : a.Alike b) (hk : a.kind ≠ .special .variationPoint) :
    Related Alike a.callee b.callee := by
  unfold callee
  rw [callRule_congr (h.kind_eq hk)]
  refine Related.bind_same fun rule => ?_
  exact (h.related_one hk rule.callee).mapError QueryError.tree

theorem Alike.related_callArguments (h : a.Alike b) (hk : a.kind ≠ .special .variationPoint) :
    Related (List.Forall₂ Alike) a.callArguments b.callArguments := by
  unfold callArguments
  rw [callRule_congr (h.kind_eq hk)]
  refine Related.bind_same fun rule => ?_
  exact (h.related_readList hk rule.arguments).mapError QueryError.tree

theorem Alike.related_nameNode (h : a.Alike b) (hk : a.kind ≠ .special .variationPoint)
    (rule : NameRule) : Related (Option.Rel Alike) (a.nameNode rule) (b.nameNode rule) := by
  cases rule with
  | slot slot => exact related_first (h.related_slotValue hk slot)
  | declarator slot =>
    unfold nameNode
    refine (h.related_declaratorChain hk slot).bind fun nodes others hnodes => .ok ?_
    exact rel_find? (fun _ _ hheld => hheld.has_eq (by decide)) hnodes
  | anonymous => exact .ok .none

theorem Alike.related_functionName (h : a.Alike b) (hk : a.kind ≠ .special .variationPoint) :
    Related (· = ·) a.functionName b.functionName := by
  unfold functionName
  rw [functionRule_congr (h.kind_eq hk)]
  refine Related.bind_same fun rule => ?_
  have hnode := (h.related_nameNode hk rule.name).mapError QueryError.tree
  refine hnode.bind fun name other hname => ?_
  cases hname with
  | none => exact .ok rfl
  | some hheld =>
    simp only [hheld.text_eq]
    exact Related.bind_same fun text => .ok rfl

theorem Alike.related_functionParameters (h : a.Alike b)
    (hk : a.kind ≠ .special .variationPoint) :
    Related (List.Forall₂ Alike) a.functionParameters b.functionParameters := by
  unfold functionParameters
  rw [functionRule_congr (h.kind_eq hk)]
  refine Related.bind_same fun rule => ?_
  have hrules : List.Forall₂ (· = ·) rule.parameters rule.parameters := List.forall₂_eq_eq_eq ▸ rfl
  refine ((Related.mapM hrules fun list _ hlist => ?_).mapError QueryError.tree).bind
    fun lists others hlists => .ok (List.rel_flatten hlists)
  subst hlist
  exact h.related_readList hk list

theorem Alike.related_functionBody (h : a.Alike b) (hk : a.kind ≠ .special .variationPoint) :
    Related (Option.Rel Alike) a.functionBody b.functionBody := by
  unfold functionBody
  rw [functionRule_congr (h.kind_eq hk)]
  refine Related.bind_same fun rule => ?_
  exact (related_first (h.related_slotValue hk rule.body)).mapError QueryError.tree

end Node

/-- Whether two calls have the same kind, range and texts. -/
structure CallParts.Agrees {pointed plain : Tree} (a : CallParts pointed) (b : CallParts plain) :
    Prop where
  kind : a.node.kind = b.node.kind
  span : a.node.span = b.node.span
  location : a.node.location = b.node.location
  callee : a.callee.text = b.callee.text
  arguments : a.arguments.map Node.text = b.arguments.map Node.text

/-- Whether two functions have the same kind, range, name and texts. -/
structure FunctionParts.Agrees {pointed plain : Tree} (a : FunctionParts pointed)
    (b : FunctionParts plain) : Prop where
  kind : a.node.kind = b.node.kind
  span : a.node.span = b.node.span
  location : a.node.location = b.node.location
  name : a.name = b.name
  parameters : a.parameters.map Node.text = b.parameters.map Node.text
  body : a.body.map Node.span = b.body.map Node.span

namespace Node

variable {pointed plain : Tree} {a : Node pointed} {b : Node plain}

theorem map_text_eq {nodes : List (Node pointed)} {others : List (Node plain)}
    (h : List.Forall₂ Alike nodes others) : nodes.map text = others.map text := by
  induction h with
  | nil => rfl
  | cons hnode _ ih => rw [List.map_cons, List.map_cons, hnode.text_eq, ih]

theorem Alike.related_callParts (h : a.Alike b) (hk : a.kind ≠ .special .variationPoint) :
    Related CallParts.Agrees a.callParts b.callParts := by
  unfold callParts
  refine (h.related_callee hk).bind fun _ _ hcallee => ?_
  refine (h.related_callArguments hk).bind fun _ _ harguments => .ok ?_
  exact ⟨h.kind_eq hk, h.span_eq, h.location_eq, hcallee.text_eq, map_text_eq harguments⟩

theorem Alike.related_functionParts (h : a.Alike b) (hk : a.kind ≠ .special .variationPoint) :
    Related FunctionParts.Agrees a.functionParts b.functionParts := by
  unfold functionParts
  refine (h.related_functionName hk).bind fun _ _ hname => ?_
  refine (h.related_functionParameters hk).bind fun _ _ hparameters => ?_
  refine (h.related_functionBody hk).bind fun body other hbody => .ok ?_
  have hspan : body.map span = other.map span := by
    cases hbody with
    | none => rfl
    | some hheld => rw [Option.map_some, Option.map_some, hheld.span_eq]
  exact ⟨h.kind_eq hk, h.span_eq, h.location_eq, hname, map_text_eq hparameters, hspan⟩

end Node

namespace Outline.Links

variable {pointed plain : Tree} {outline : Outline} {a : Node pointed} {b : Node plain}

/-- Of kinds that are neither variation points nor error leaves, the walks of a node and of its
counterpart meet counterparts. -/
theorem exists_descendants (h : outline.Links a b) (p : NodeKind → Bool)
    (hpoint : p (.special .variationPoint) = false) (herror : p (.special .errorTree) = false) :
    ∃ nodes others, a.descendants = .ok nodes ∧ b.descendants = .ok others ∧
      List.Forall₂ (fun node other => node.Alike other ∧ node.kind ≠ .special .variationPoint)
        (nodes.filter fun node => p node.kind) (others.filter fun node => p node.kind) := by
  obtain ⟨nodes, hnodes, hstands⟩ := h.left.exists_descendants
  obtain ⟨others, hothers, hstands'⟩ := h.right.exists_descendants
  refine ⟨nodes, others, hnodes, hothers, ?_⟩
  have hleft := rel_filter_kind hstands p
  have hright := rel_filter_kind hstands' p
  rw [filter_walk_erase hpoint herror h.points] at hright
  refine (forall₂_of_map hleft hright).imp ?_
  rintro node other ⟨part, hm, hnode, hother⟩
  obtain ⟨hwalk, hp⟩ := List.mem_filter.1 hm
  have hpoints := all_of_mem_walk h.points part hwalk
  have hranges := all_of_mem_walk h.ranges part hwalk
  refine ⟨⟨part, h.source, hpoints, hranges, hnode, hother⟩, fun hk => ?_⟩
  rw [← hnode.kind_eq, hk, hpoint] at hp
  cases hp

end Outline.Links

namespace Tree

variable {pointed plain : Tree} {outline : Outline} {a : Node pointed} {b : Node plain}

theorem exists_nodesWith (h : outline.Links a b) (ha : pointed.root = .ok a)
    (hb : plain.root = .ok b) (capability : Capability)
    (hpoint : NodeKind.has (.special .variationPoint) capability = false)
    (herror : NodeKind.has (.special .errorTree) capability = false) :
    ∃ nodes others, pointed.nodesWith capability = .ok nodes ∧
      plain.nodesWith capability = .ok others ∧
      List.Forall₂ (fun node other => node.Alike other ∧ node.kind ≠ .special .variationPoint)
        nodes others := by
  obtain ⟨nodes, others, hnodes, hothers, halike⟩ :=
    h.exists_descendants (·.has capability) hpoint herror
  refine ⟨_, _, ?_, ?_, halike⟩
  · rw [nodesWith, ha]
    simp only [bind, Except.bind, hnodes]
    rfl
  · rw [nodesWith, hb]
    simp only [bind, Except.bind, hothers]
    rfl

theorem exists_calls (h : outline.Links a b) (ha : pointed.root = .ok a) (hb : plain.root = .ok b) :
    ∃ calls others, pointed.calls = .ok calls ∧ plain.calls = .ok others ∧
      List.Forall₂ (Related CallParts.Agrees) calls others := by
  obtain ⟨nodes, others, hnodes, hothers, halike⟩ :=
    exists_nodesWith h ha hb .call (by decide) (by decide)
  refine ⟨nodes.map Node.callParts, others.map Node.callParts, ?_, ?_, ?_⟩
  · rw [calls, hnodes]
    rfl
  · rw [calls, hothers]
    rfl
  · rw [List.forall₂_map_left_iff, List.forall₂_map_right_iff]
    exact halike.imp fun _ _ hnode => hnode.1.related_callParts hnode.2

theorem exists_functions (h : outline.Links a b) (ha : pointed.root = .ok a)
    (hb : plain.root = .ok b) :
    ∃ functions others, pointed.functions = .ok functions ∧ plain.functions = .ok others ∧
      List.Forall₂ (Related FunctionParts.Agrees) functions others := by
  obtain ⟨nodes, others, hnodes, hothers, halike⟩ :=
    exists_nodesWith h ha hb .function (by decide) (by decide)
  refine ⟨nodes.map Node.functionParts, others.map Node.functionParts, ?_, ?_, ?_⟩
  · rw [functions, hnodes]
    rfl
  · rw [functions, hothers]
    rfl
  · rw [List.forall₂_map_left_iff, List.forall₂_map_right_iff]
    exact halike.imp fun _ _ hnode => hnode.1.related_functionParts hnode.2

end Tree

end CodeTree
