import CodeTree.Proofs.Queries
import CodeTree.Proofs.SlotDistribution

/-!
# What a list gives

Arguments and parameters are read from slots. A node in such a slot is an element, unless it is a
list node: then its items are (`Node.Lists`). The arguments of a call are read from its `arguments`,
and the parameters of a function from `parameter` and `parameters`, its own or those of a declarator
further down.
-/

namespace CodeTree

def ListRule.listSlot? : ListRule → Option Slot
  | .items slot => some slot
  | .declarator _ => some .parameters
  | .absent => none

/-- What the roles agree on about lists. -/
def Role.ReadsLists : Role → Prop
  | .call rule => rule.arguments = .items .arguments
  | .function rule =>
    ∀ list ∈ rule.parameters, ∀ slot ∈ list.listSlot?, slot = .parameter ∨ slot = .parameters
  | .other => True

instance : DecidablePred Role.ReadsLists := fun role =>
  match role with
  | .call rule => inferInstanceAs (Decidable (rule.arguments = .items .arguments))
  | .function rule => inferInstanceAs (Decidable (∀ list ∈ rule.parameters,
      ∀ slot ∈ list.listSlot?, slot = .parameter ∨ slot = .parameters))
  | .other => .isTrue trivial

theorem Role.readsLists_of_mem_table (language : Language) :
    ∀ entry ∈ table language, entry.2.ReadsLists := by
  cases language <;> decide

namespace NodeKind

variable {kind : NodeKind}

theorem readsLists (kind : NodeKind) : kind.role.ReadsLists := by
  rw [role]
  split
  · next language _ =>
    cases hrole : (Role.table language).lookup kind.name with
    | none => trivial
    | some role =>
      obtain ⟨before, after, htable, -⟩ := List.lookup_eq_some_iff.1 hrole
      have hmem : (kind.name, role) ∈ Role.table language := by simp [htable]
      exact Role.readsLists_of_mem_table language _ hmem
  · trivial

theorem arguments_of_callRule {rule : CallRule} (h : kind.role = .call rule) :
    rule.arguments = .items .arguments := by
  have hlists := kind.readsLists
  rwa [h] at hlists

theorem listSlot_of_functionRule {rule : FunctionRule} (h : kind.role = .function rule)
    {list : ListRule} (hl : list ∈ rule.parameters) {slot : Slot} (hs : slot ∈ list.listSlot?) :
    slot = .parameter ∨ slot = .parameters := by
  have hlists := kind.readsLists
  rw [h] at hlists
  exact hlists list hl slot hs

end NodeKind

theorem mem_of_mapM_ok {ε α β : Type} {f : α → Except ε β} {xs : List α} {ys : List β}
    (h : xs.mapM f = .ok ys) {y : β} : y ∈ ys ↔ ∃ x ∈ xs, f x = .ok y := by
  induction xs generalizing ys with
  | nil =>
    cases h
    simp
  | cons x rest ih =>
    rw [List.mapM_cons] at h
    obtain ⟨first, hfirst, h⟩ := bind_eq_ok_iff.1 h
    obtain ⟨others, hothers, h⟩ := bind_eq_ok_iff.1 h
    cases h
    rw [List.mem_cons, ih hothers, List.exists_mem_cons_iff, hfirst, Except.ok.injEq, eq_comm]

theorem ok_of_mapError {α ε ε' : Type} {read : Except ε α} {f : ε → ε'} {answer : α}
    (h : read.mapError f = .ok answer) : read = .ok answer := by
  cases read with
  | ok other =>
    cases h
    rfl
  | error => cases h

namespace Node

variable {tree : Tree}

/-- Whether a node is among those that a slot of another lists: it stands in the slot and is no list
node, or it is an item of a list node that stands there. -/
def Lists (node : Node tree) (slot : Slot) (item : Node tree) : Prop :=
  ∃ held, node.InSlot slot held ∧
    if held.kind.declares .items then held.InSlot .items item else item = held

variable {node item held : Node tree} {slot : Slot} {value : SlotValue tree}
  {listed : List (Node tree)}

theorem inSlot_iff_mem (hv : node.slotValue slot = .ok value) :
    node.InSlot slot held ↔ held ∈ value.nodes := by
  constructor
  · rintro ⟨other, ho, hm⟩
    cases hv.symm.trans ho
    exact hm
  · intro hm
    exact ⟨value, hv, hm⟩

theorem mem_many_iff (h : node.many slot = .ok listed) : item ∈ listed ↔ node.InSlot slot item := by
  rw [many] at h
  obtain ⟨_, -, h⟩ := bind_eq_ok_iff.1 h
  obtain ⟨value, hvalue, h⟩ := bind_eq_ok_iff.1 h
  cases h
  exact (inSlot_iff_mem hvalue).symm

theorem mem_items_iff (ht : tree.Valid) (h : node.items slot = .ok listed) :
    item ∈ listed ↔ node.Lists slot item := by
  rw [items] at h
  obtain ⟨value, hvalue, h⟩ := bind_eq_ok_iff.1 h
  obtain ⟨parts, hparts, h⟩ := bind_eq_ok_iff.1 h
  cases h
  rw [List.mem_flatten]
  constructor
  · rintro ⟨part, hpart, hm⟩
    obtain ⟨held, hheld, hread⟩ := (mem_of_mapM_ok hparts).1 hpart
    refine ⟨held, (inSlot_iff_mem hvalue).2 hheld, ?_⟩
    split at hread
    · next hs => rwa [if_pos hs, ← mem_many_iff hread]
    · next hs =>
      cases hread
      rwa [if_neg hs, ← List.mem_singleton]
  · rintro ⟨held, hin, hm⟩
    have hheld := (inSlot_iff_mem hvalue).1 hin
    split at hm
    · next hs =>
      obtain ⟨part, hpart, -⟩ := ht.exists_manyItems hs
      refine ⟨part, (mem_of_mapM_ok hparts).2 ⟨held, hheld, ?_⟩, (mem_many_iff hpart).2 hm⟩
      rw [if_pos hs, hpart]
    · next hs =>
      exact ⟨[held], (mem_of_mapM_ok hparts).2 ⟨held, hheld, if_neg hs⟩, List.mem_singleton.2 hm⟩

theorem exists_lists_of_readList (ht : tree.Valid) {rule : ListRule}
    (h : node.readList rule = .ok listed) (hm : item ∈ listed) :
    ∃ holder : Node tree, ∃ slot ∈ rule.listSlot?, holder.Lists slot item := by
  cases rule with
  | items slot => exact ⟨node, slot, rfl, (mem_items_iff ht h).1 hm⟩
  | declarator slot =>
    rw [readList] at h
    obtain ⟨chain, -, h⟩ := bind_eq_ok_iff.1 h
    split at h
    · next declarator _ => exact ⟨declarator, .parameters, rfl, (mem_items_iff ht h).1 hm⟩
    · cases h
      cases hm
  | absent =>
    cases h
    cases hm

theorem mem_callArguments_iff (ht : tree.Valid) (h : node.callArguments = .ok listed) :
    item ∈ listed ↔ node.Lists .arguments item := by
  cases hc : node.has .call with
  | false =>
    rw [callArguments, Tree.callRule_of_not_has hc] at h
    cases h
  | true =>
    obtain ⟨rule, hrule, hrole⟩ := Tree.exists_callRule hc
    rw [callArguments, hrule] at h
    have hread : node.readList rule.arguments = .ok listed := ok_of_mapError h
    rw [NodeKind.arguments_of_callRule hrole] at hread
    exact mem_items_iff ht hread

theorem exists_lists_of_functionParameters (ht : tree.Valid)
    (h : node.functionParameters = .ok listed) (hm : item ∈ listed) :
    ∃ (holder : Node tree) (slot : Slot), (slot = .parameter ∨ slot = .parameters) ∧
      holder.Lists slot item := by
  cases hc : node.has .function with
  | false =>
    rw [functionParameters, Tree.functionRule_of_not_has hc] at h
    cases h
  | true =>
    obtain ⟨rule, hrule, hrole⟩ := Tree.exists_functionRule hc
    rw [functionParameters] at h
    obtain ⟨other, hother, h⟩ := bind_eq_ok_iff.1 h
    cases hrule.symm.trans hother
    obtain ⟨lists, hlists, h⟩ := bind_eq_ok_iff.1 h
    cases h
    obtain ⟨part, hpart, hm⟩ := List.mem_flatten.1 hm
    obtain ⟨list, hlist, hread⟩ := (mem_of_mapM_ok (ok_of_mapError hlists)).1 hpart
    obtain ⟨holder, slot, hs, hin⟩ := exists_lists_of_readList ht hread hm
    exact ⟨holder, slot, NodeKind.listSlot_of_functionRule hrole hlist hs, hin⟩

end Node

end CodeTree
