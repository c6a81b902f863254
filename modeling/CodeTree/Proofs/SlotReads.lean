import CodeTree.Proofs.ValidNodes
import CodeTree.Tree.View

/-!
# The ways of reading a slot

A slot can be read by its declaration, by its text, as one arity, together with the other slots of
its node, and through the accessor of a view. Each way tells the arities apart by itself. In a valid
tree a declared slot stores as many nodes as its arity accepts, so every way that the arity allows
succeeds, and all of them give the stored nodes.
-/

namespace CodeTree

namespace SlotValue

variable {tree : Tree}

def OfArity : Arity → SlotValue tree → Prop
  | .one, value => ∃ held, value = .single (some held)
  | .optional, value => ∃ held, value = .single held
  | .many, value => ∃ nodes, value = .list nodes

theorem isEmpty_eq_false_iff {value : SlotValue tree} :
    value.isEmpty = false ↔ value.nodes ≠ [] := by
  cases value with
  | single node => cases node <;> simp [isEmpty, nodes]
  | list nodes => simp [isEmpty, SlotValue.nodes]

end SlotValue

def Field.arity {tree : Tree} : Field tree → Arity
  | .one _ => .one
  | .optional _ => .optional
  | .many _ => .many

namespace Node

variable {tree : Tree} {node : Node tree}

/-- Whether a node stores the given nodes in the slot declared at a position, as many as the slot
accepts. -/
structure Stores (node : Node tree) (position : Nat) (decl : SlotDecl) (nodes : List (Node tree)) :
    Prop where
  declared : node.kind.slots[position]? = some decl
  stored : node.data.slots[position]? = some (nodes.map (·.id))
  accepts : decl.arity.accepts nodes.length = true

/-- What the reads of one declared slot give when it holds the given nodes. -/
structure Reads (node : Node tree) (decl : SlotDecl) (nodes : List (Node tree)) : Prop where
  slotValue : ∃ value, node.slotValue decl.slot = .ok value ∧ value.OfArity decl.arity ∧
    value.nodes = nodes
  one : decl.arity = .one → ∃ held, node.one decl.slot = .ok held ∧ [held] = nodes
  not_one : decl.arity ≠ .one →
    node.one decl.slot = .error (.arityMismatch node.kind decl.slot decl.arity .one)
  optional : decl.arity = .one ∨ decl.arity = .optional →
    ∃ held, node.optional decl.slot = .ok held ∧ held.toList = nodes
  not_optional : decl.arity = .many →
    node.optional decl.slot = .error (.arityMismatch node.kind decl.slot decl.arity .optional)
  many : decl.arity = .many → node.many decl.slot = .ok nodes
  not_many : decl.arity ≠ .many →
    node.many decl.slot = .error (.arityMismatch node.kind decl.slot decl.arity .many)

theorem slot?_eq_none (h : node.kind.declares slot = false) : node.kind.slot? slot = none := by
  rwa [NodeKind.declares, Option.isSome_eq_false_iff, Option.isNone_iff_eq_none] at h

theorem slotValue_undeclared {slot : Slot} (h : node.kind.declares slot = false) :
    node.slotValue slot = .error (.undeclaredSlot node.kind slot.text) := by
  have hindex : node.kind.slotIndex? slot = none := by
    rw [← Option.not_isSome_iff_eq_none, NodeKind.slotIndex?_isSome_iff, h]
    exact Bool.false_ne_true
  rw [slotValue, hindex]

theorem expectArity_undeclared {slot : Slot} (h : node.kind.declares slot = false)
    (requested : Arity) :
    node.expectArity slot requested = .error (.undeclaredSlot node.kind slot.text) := by
  rw [expectArity, NodeKind.requireSlot, slot?_eq_none h]
  rfl

theorem one_undeclared {slot : Slot} (h : node.kind.declares slot = false) :
    node.one slot = .error (.undeclaredSlot node.kind slot.text) := by
  rw [one, expectArity_undeclared h]
  rfl

theorem optional_undeclared {slot : Slot} (h : node.kind.declares slot = false) :
    node.optional slot = .error (.undeclaredSlot node.kind slot.text) := by
  rw [optional, expectArity_undeclared h]
  rfl

theorem many_undeclared {slot : Slot} (h : node.kind.declares slot = false) :
    node.many slot = .error (.undeclaredSlot node.kind slot.text) := by
  rw [many, expectArity_undeclared h]
  rfl

theorem slotByText_text (kind : NodeKind) (slot : Slot) :
    kind.slotByText slot.text = kind.requireSlot slot := by
  rw [NodeKind.slotByText, NodeKind.requireSlot, Slot.ofText?_text, Option.bind_some]

theorem slotNamed_text (slot : Slot) : node.slotNamed slot.text = node.slotValue slot := by
  rw [slotNamed, slotByText_text, NodeKind.requireSlot]
  cases hd : node.kind.slot? slot with
  | none =>
    have hdeclares : node.kind.declares slot = false := by rw [NodeKind.declares, hd]; rfl
    rw [slotValue_undeclared hdeclares]
    rfl
  | some decl =>
    obtain ⟨-, rfl⟩ := NodeKind.slot?_eq_some_iff.1 hd
    rfl

theorem slotNamed_other {text : String} (h : ∀ slot : Slot, slot.text ≠ text) :
    node.slotNamed text = .error (.undeclaredSlot node.kind text) := by
  have hnone : Slot.ofText? text = none := by
    cases hs : Slot.ofText? text with
    | none => rfl
    | some slot => exact absurd (Slot.eq_of_ofText? hs) (h slot)
  rw [slotNamed, NodeKind.slotByText, hnone]
  rfl

theorem expectArity_of_mem {decl : SlotDecl} (h : decl ∈ node.kind.slots) (requested : Arity) :
    node.expectArity decl.slot requested = ensure (canRead requested decl.arity)
      (.arityMismatch node.kind decl.slot decl.arity requested) := by
  have hslot : node.kind.slot? decl.slot = some decl := NodeKind.slot?_eq_some_iff.2 ⟨h, rfl⟩
  rw [expectArity, NodeKind.requireSlot, hslot]
  rfl

theorem exists_hold (node : Node tree) (slot : Slot) {arity : Arity} {nodes : List (Node tree)}
    (h : arity.accepts nodes.length = true) :
    ∃ value, node.hold slot arity nodes = .ok value ∧ value.OfArity arity ∧
      value.nodes = nodes := by
  cases arity with
  | many => exact ⟨.list nodes, rfl, ⟨nodes, rfl⟩, rfl⟩
  | one =>
    obtain ⟨held, rfl⟩ := List.length_eq_one_iff.1 (by simpa [Arity.accepts] using h)
    exact ⟨.single (some held), rfl, ⟨held, rfl⟩, rfl⟩
  | optional =>
    rcases nodes with _ | ⟨held, _ | ⟨second, others⟩⟩
    · exact ⟨.single none, rfl, ⟨none, rfl⟩, rfl⟩
    · exact ⟨.single (some held), rfl, ⟨some held, rfl⟩, rfl⟩
    · simp [Arity.accepts] at h

namespace Stores

variable {position : Nat} {decl : SlotDecl} {nodes : List (Node tree)}

theorem mem (h : node.Stores position decl nodes) : decl ∈ node.kind.slots :=
  List.mem_of_getElem? h.declared

theorem slotAt_eq (h : node.Stores position decl nodes) :
    node.slotAt position = .ok (decl, nodes.map (·.id)) := by
  rw [slotAt, h.declared]
  simp only [h.stored]

theorem slotIndex?_eq (h : node.Stores position decl nodes) :
    node.kind.slotIndex? decl.slot = some position := by
  obtain ⟨hlt, rfl⟩ := List.getElem?_eq_some_iff.1 h.declared
  exact NodeKind.slotIndex?_eq_some_iff.2 ⟨hlt, rfl⟩

theorem exists_slotValue (h : node.Stores position decl nodes) :
    ∃ value, node.slotValue decl.slot = .ok value ∧ value.OfArity decl.arity ∧
      value.nodes = nodes := by
  rw [node.slotValue_eq_hold h.slotIndex?_eq h.slotAt_eq]
  exact node.exists_hold decl.slot h.accepts

/-- A projection counts the stored nodes once more, against the arity that it is made for. -/
theorem exists_project (h : node.Stores position decl nodes) :
    ∃ field, node.project decl.arity position = .ok field ∧ field.arity = decl.arity ∧
      field.nodes = nodes := by
  have haccepts := h.accepts
  have hnodes := tree.nodesAt_map_id nodes
  rw [project, h.slotAt_eq]
  simp only [bind, Except.bind]
  cases harity : decl.arity with
  | many =>
    simp only [hnodes]
    exact ⟨.many nodes, rfl, rfl, rfl⟩
  | one =>
    rw [harity] at haccepts
    obtain ⟨held, rfl⟩ := List.length_eq_one_iff.1 (by simpa [Arity.accepts] using haccepts)
    simp only [List.map_cons, List.map_nil, Tree.node_eq_ok held.id_lt]
    exact ⟨.one held, rfl, rfl, rfl⟩
  | optional =>
    rw [harity] at haccepts
    rcases nodes with _ | ⟨held, _ | ⟨second, others⟩⟩
    · exact ⟨.optional none, rfl, rfl, rfl⟩
    · simp only [List.map_cons, List.map_nil, Tree.node_eq_ok held.id_lt]
      exact ⟨.optional (some held), rfl, rfl, rfl⟩
    · simp [Arity.accepts] at haccepts

theorem reads (h : node.Stores position decl nodes) : node.Reads decl nodes := by
  obtain ⟨value, hvalue, hform, rfl⟩ := h.exists_slotValue
  have hexpect := fun requested => expectArity_of_mem h.mem requested
  refine ⟨⟨value, hvalue, hform, rfl⟩, fun ha => ?_, fun ha => ?_, fun ha => ?_, fun ha => ?_,
    fun ha => ?_, fun ha => ?_⟩
  · rw [ha] at hform
    obtain ⟨held, rfl⟩ := hform
    refine ⟨held, ?_, rfl⟩
    rw [Node.one, hexpect, hvalue, ha]
    rfl
  · have hcannot : canRead .one decl.arity = false := by simpa [canRead] using ha
    rw [Node.one, hexpect, hcannot]
    rfl
  · have hcan : canRead .optional decl.arity = true := by
      rcases ha with ha | ha <;> rw [ha] <;> rfl
    obtain ⟨held, rfl⟩ : ∃ held, value = .single held := by
      rcases ha with ha | ha
      · rw [ha] at hform
        obtain ⟨held, rfl⟩ := hform
        exact ⟨some held, rfl⟩
      · rwa [ha] at hform
    refine ⟨held, ?_, rfl⟩
    rw [Node.optional, hexpect, hvalue, hcan]
    rfl
  · rw [Node.optional, hexpect, ha]
    rfl
  · rw [Node.many, hexpect, hvalue, ha]
    rfl
  · have hcannot : canRead .many decl.arity = false := by simpa [canRead] using ha
    rw [Node.many, hexpect, hcannot]
    rfl

end Stores

end Node

namespace View

variable {tree : Tree} {node : Node tree}

theorem cast?_isSome_iff {language : Language} {index : Fin language.grammar.length} :
    (cast? language index node).isSome = true ↔ node.kind = .grammar language index := by
  rw [cast?]
  split
  · next h => simp [h]
  · next h => simp [h]

theorem node_of_cast? {language : Language} {index : Fin language.grammar.length}
    {view : View tree} (h : cast? language index node = some view) : view.node = node := by
  rw [cast?] at h
  split at h
  · cases h
    rfl
  · cases h

theorem slots_eq (view : View tree) : view.production.slots = view.node.kind.slots := by
  rw [NodeKind.slots, view.kind_eq]
  rfl

theorem access_eq_project (view : View tree) {position : Nat} {decl : SlotDecl}
    {nodes : List (Node tree)} (h : view.node.Stores position decl nodes) :
    view.access decl = view.node.project decl.arity position := by
  have hindex : SlotDecl.indexOf? view.production.slots decl.slot = some position := by
    rw [view.slots_eq]
    exact h.slotIndex?_eq
  rw [access, hindex]

/-- A kind of a grammar is the kind of one view only. -/
theorem existsUnique_cast? (h : ∀ kind, node.kind ≠ .special kind) :
    ∃! production : (language : Language) × Fin language.grammar.length,
      (cast? production.1 production.2 node).isSome = true := by
  cases hk : node.kind with
  | special kind => exact absurd hk (h kind)
  | grammar language index =>
    refine ⟨⟨language, index⟩, cast?_isSome_iff.2 hk, ?_⟩
    rintro ⟨other, position⟩ hcast
    have hkind := (cast?_isSome_iff.1 hcast).symm.trans hk
    cases hkind
    rfl

end View

namespace Node

variable {tree : Tree} {node : Node tree}

/-- Of slots that can be read, those that are kept because they are filled. -/
theorem exists_filled {decls : List SlotDecl}
    (keeps : Slot × Except TreeError (SlotValue tree) → Bool)
    (hkeeps : ∀ slot value, keeps (slot, .ok value) = !value.isEmpty)
    (h : ∀ decl ∈ decls, ∃ value, node.slotValue decl.slot = .ok value) :
    ∃ filled : List (Slot × SlotValue tree),
      (decls.map fun decl => (decl.slot, node.slotValue decl.slot)).filter keeps =
        filled.map (fun entry => (entry.1, .ok entry.2)) ∧
      (filled.map (·.1)).Sublist (decls.map (·.slot)) ∧
      ∀ slot value, (slot, value) ∈ filled ↔
        slot ∈ decls.map (·.slot) ∧ node.slotValue slot = .ok value ∧ value.nodes ≠ [] := by
  induction decls with
  | nil => exact ⟨[], rfl, .slnil, by simp⟩
  | cons decl rest ih =>
    obtain ⟨⟨value, hvalue⟩, hrest⟩ := List.forall_mem_cons.1 h
    obtain ⟨filled, hfilter, hsublist, hmem⟩ := ih hrest
    cases hempty : value.isEmpty with
    | true =>
      refine ⟨filled, ?_, hsublist.cons _, fun slot other => ?_⟩
      · rw [List.map_cons, hvalue, List.filter_cons_of_neg (by simp [hkeeps, hempty]), hfilter]
      · rw [hmem, List.map_cons, List.mem_cons]
        constructor
        · rintro ⟨hm, hother, hne⟩
          exact ⟨.inr hm, hother, hne⟩
        · rintro ⟨rfl | hm, hother, hne⟩
          · cases hvalue.symm.trans hother
            rw [SlotValue.isEmpty_eq_false_iff.2 hne] at hempty
            cases hempty
          · exact ⟨hm, hother, hne⟩
    | false =>
      refine ⟨(decl.slot, value) :: filled, ?_, hsublist.cons_cons _, fun slot other => ?_⟩
      · rw [List.map_cons, hvalue, List.filter_cons_of_pos (by simp [hkeeps, hempty]), hfilter,
          List.map_cons]
      · rw [List.mem_cons, hmem, List.map_cons, List.mem_cons, Prod.mk.injEq]
        constructor
        · rintro (⟨rfl, rfl⟩ | ⟨hm, hother, hne⟩)
          · exact ⟨.inl rfl, hvalue, SlotValue.isEmpty_eq_false_iff.1 hempty⟩
          · exact ⟨.inr hm, hother, hne⟩
        · rintro ⟨rfl | hm, hother, hne⟩
          · cases hvalue.symm.trans hother
            exact .inl ⟨rfl, rfl⟩
          · exact .inr ⟨hm, hother, hne⟩

theorem exists_filledSlots
    (h : ∀ decl ∈ node.kind.slots, ∃ value, node.slotValue decl.slot = .ok value) :
    ∃ filled : List (Slot × SlotValue tree),
      node.filledSlots = filled.map (fun entry => (entry.1, .ok entry.2)) ∧
      (filled.map (·.1)).Sublist (node.kind.slots.map (·.slot)) ∧
      ∀ slot value, (slot, value) ∈ filled ↔
        slot ∈ node.kind.slots.map (·.slot) ∧ node.slotValue slot = .ok value ∧
          value.nodes ≠ [] := by
  rw [filledSlots]
  exact exists_filled _ (fun _ _ => rfl) h

/-- Whether all ways of reading the slots of a node agree. -/
structure ReadsAlike (node : Node tree) : Prop where
  undeclared_iff : ∀ slot, node.slotValue slot = .error (.undeclaredSlot node.kind slot.text) ↔
    node.kind.declares slot = false
  undeclared : ∀ slot, node.kind.declares slot = false →
    node.one slot = .error (.undeclaredSlot node.kind slot.text) ∧
      node.optional slot = .error (.undeclaredSlot node.kind slot.text) ∧
      node.many slot = .error (.undeclaredSlot node.kind slot.text)
  declared : ∀ (position : Nat) (decl : SlotDecl), node.kind.slots[position]? = some decl →
    ∃ nodes : List (Node tree), node.data.slots[position]? = some (nodes.map (·.id)) ∧ node.Reads decl nodes
  named : ∀ slot, node.slotNamed slot.text = node.slotValue slot
  named_other : ∀ text, (∀ slot : Slot, slot.text ≠ text) →
    node.slotNamed text = .error (.undeclaredSlot node.kind text)
  /-- The filled slots are those that are not empty, in the order of their declarations. -/
  filled : ∃ filled : List (Slot × SlotValue tree),
    node.filledSlots = filled.map (fun entry => (entry.1, .ok entry.2)) ∧
    (filled.map (·.1)).Sublist (node.kind.slots.map (·.slot)) ∧
    ∀ slot value, (slot, value) ∈ filled ↔
      node.slotValue slot = .ok value ∧ value.nodes ≠ []
  view : (∀ kind, node.kind ≠ .special kind) →
    ∃! production : (language : Language) × Fin language.grammar.length,
      (View.cast? production.1 production.2 node).isSome = true
  access : ∀ language index view, View.cast? language index node = some view →
    view.node = node ∧ view.production.slots = node.kind.slots ∧
      ∀ decl ∈ view.production.slots, ∃ field value, view.access decl = .ok field ∧
        node.slotValue decl.slot = .ok value ∧ field.arity = decl.arity ∧
        field.nodes = value.nodes

end Node

def NodeKind.named (language : Language) (name : String) : NodeKind :=
  (resolve? language name).getD (.special .terminal)

namespace Tree

open Node

variable {tree : Tree}

theorem Valid.exists_stores (h : tree.Valid) (node : Node tree) {position : Nat} {decl : SlotDecl}
    (hd : node.kind.slots[position]? = some decl) :
    ∃ nodes, node.Stores position decl nodes := by
  have hsound := h.nodeSound node
  obtain ⟨hlt, rfl⟩ := List.getElem?_eq_some_iff.1 hd
  have hstored : position < node.data.slots.length := by
    rw [hsound.slots_length]
    exact hlt
  obtain ⟨nodes, -, hids, -⟩ := h.exists_slotted node (List.getElem_mem hstored)
  have hget : node.data.slots[position]? = some (nodes.map (·.id)) := by
    rw [List.getElem?_eq_getElem hstored, hids]
  have hzip : (node.kind.slots[position], nodes.map (·.id)) ∈
      node.data.kind.slots.zip node.data.slots :=
    List.mem_of_getElem? (List.getElem?_zip_eq_some.2 ⟨hd, hget⟩)
  refine ⟨nodes, hd, hget, ?_⟩
  have harity := (hsound.slots _ _ hzip).arity
  rwa [List.length_map] at harity

theorem Valid.readable (h : tree.Valid) (node : Node tree) {decl : SlotDecl}
    (hd : decl ∈ node.kind.slots) : ∃ position nodes, node.Stores position decl nodes := by
  obtain ⟨position, hposition⟩ := List.mem_iff_getElem?.1 hd
  exact ⟨position, h.exists_stores node hposition⟩

/-- In a valid tree all ways of reading a slot agree with what is stored and with one another. -/
theorem Valid.readsAlike (tree : Tree) (h : tree.Valid) (node : Node tree) :
    node.ReadsAlike := by
  have hvalue : ∀ decl ∈ node.kind.slots, ∃ value, node.slotValue decl.slot = .ok value := by
    intro decl hm
    obtain ⟨position, nodes, hstores⟩ := h.readable node hm
    obtain ⟨value, hv, -⟩ := hstores.exists_slotValue
    exact ⟨value, hv⟩
  have hdeclares : ∀ {slot}, node.kind.declares slot = true →
      slot ∈ node.kind.slots.map (·.slot) := by
    intro slot hs
    obtain ⟨decl, hdecl⟩ := Option.isSome_iff_exists.1 hs
    obtain ⟨hm, rfl⟩ := NodeKind.slot?_eq_some_iff.1 hdecl
    exact List.mem_map_of_mem hm
  refine ⟨fun slot => ⟨fun he => ?_, slotValue_undeclared⟩, fun slot hs => ?_,
    fun position decl hd => ?_, slotNamed_text, fun _ => slotNamed_other, ?_,
    View.existsUnique_cast?, fun language index view hcast => ?_⟩
  · cases hs : node.kind.declares slot with
    | false => rfl
    | true =>
      obtain ⟨decl, hm, rfl⟩ := List.mem_map.1 (hdeclares hs)
      obtain ⟨value, hv⟩ := hvalue decl hm
      rw [hv] at he
      cases he
  · exact ⟨one_undeclared hs, optional_undeclared hs, many_undeclared hs⟩
  · obtain ⟨nodes, hstores⟩ := h.exists_stores node hd
    exact ⟨nodes, hstores.stored, hstores.reads⟩
  · obtain ⟨filled, hfilter, hsublist, hmem⟩ := exists_filledSlots hvalue
    refine ⟨filled, hfilter, hsublist, fun slot value => (hmem slot value).trans ?_⟩
    constructor
    · rintro ⟨-, hread⟩
      exact hread
    · rintro ⟨hv, hne⟩
      refine ⟨hdeclares ?_, hv, hne⟩
      cases hs : node.kind.declares slot with
      | true => rfl
      | false =>
        rw [slotValue_undeclared hs] at hv
        cases hv
  · obtain rfl := View.node_of_cast? hcast
    refine ⟨rfl, view.slots_eq, fun decl hm => ?_⟩
    rw [view.slots_eq] at hm
    obtain ⟨position, nodes, hstores⟩ := h.readable view.node hm
    obtain ⟨field, hproject, harity, hfield⟩ := hstores.exists_project
    obtain ⟨value, hv, -, hnodes⟩ := hstores.exists_slotValue
    refine ⟨field, value, ?_, hv, harity, hfield.trans hnodes.symm⟩
    rw [view.access_eq_project hstores, hproject]

/-- The tree of `for(;a;);`, a loop with a condition and nothing else. -/
def bareLoop : Tree :=
  .ofParts .java "for(;a;);"
    #[⟨.named .java "for_statement", ⟨0, 9⟩, none, [1, 2, 3, 4, 5, 6, 7], [[], [4], [], [7]]⟩,
      ⟨.special .terminalSymbol, ⟨0, 3⟩, some 0, [], []⟩,
      ⟨.special .terminalSymbol, ⟨3, 4⟩, some 0, [], []⟩,
      ⟨.special .terminalSymbol, ⟨4, 5⟩, some 0, [], []⟩,
      ⟨.named .java "identifier", ⟨5, 6⟩, some 0, [], []⟩,
      ⟨.special .terminalSymbol, ⟨6, 7⟩, some 0, [], []⟩,
      ⟨.special .terminalSymbol, ⟨7, 8⟩, some 0, [], []⟩,
      ⟨.special .terminalSymbol, ⟨8, 9⟩, some 0, [], []⟩]

theorem reads_bareLoop :
    bareLoop.Valid ∧ ∃ node condition : Node bareLoop, node.id = 0 ∧ condition.id = 4 ∧
      node.optional .condition = .ok (some condition) ∧
      node.one .condition = .error (.arityMismatch node.kind .condition .optional .one) ∧
      node.many .init = .ok [] ∧
      node.slotNamed "items" = .error (.undeclaredSlot node.kind "items") := by
  have hv : bareLoop.Valid := by decide +kernel
  let node : Node bareLoop := ⟨0, by decide +kernel⟩
  let condition : Node bareLoop := ⟨4, by decide +kernel⟩
  have hreads := Valid.readsAlike bareLoop hv node
  obtain ⟨nodes, hids, hcondition⟩ := hreads.declared 1 (.optional .condition) (by decide +kernel)
  obtain ⟨value, hvalue, hnodes⟩ := hcondition.optional (.inr rfl)
  obtain ⟨none, hnone, hinit⟩ := hreads.declared 0 (.many .init) (by decide +kernel)
  have hsame : nodes.map (·.id) = [condition].map (·.id) := Option.some.inj hids.symm
  have hempty : none.map (·.id) = [] := Option.some.inj hnone.symm
  refine ⟨hv, node, condition, rfl, rfl, ?_, hcondition.not_one (by decide), ?_, ?_⟩
  · obtain rfl := List.map_injective_iff.2 (fun _ _ => node_ext) hsame
    cases value with
    | none => cases hnodes
    | some held =>
      cases hnodes
      exact hvalue
  · rw [List.map_eq_nil_iff.1 hempty] at hinit
    exact hinit.many rfl
  · refine (hreads.named .items).trans ((hreads.undeclared_iff .items).2 ?_)
    decide +kernel

end Tree

end CodeTree
