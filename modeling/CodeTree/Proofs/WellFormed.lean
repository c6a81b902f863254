import CodeTree.Concrete
import CodeTree.Proofs.Utf8Slices

/-!
# Well-formed concrete trees

A concrete tree of a source is well-formed when the range of every node is a range of whole
characters of the source, the children of a node come one after another inside its range, and extra
nodes fill no field. Only the offsets are bounded by `OnBoundaries`: there children may overlap,
come in any order and lie outside their parent.
-/

namespace CodeTree

namespace Concrete

mutual

/-- What holds of a node as soon as it holds of its children holds of every node. -/
@[elab_as_elim, induction_eliminator]
theorem induct {motive : Concrete → Prop}
    (node : ∀ head children, (∀ child ∈ children, motive child) → motive (.node head children)) :
    ∀ root : Concrete, motive root
  | .node head children => node head children (forall_mem_induct node children)

theorem forall_mem_induct {motive : Concrete → Prop}
    (node : ∀ head children, (∀ child ∈ children, motive child) → motive (.node head children)) :
    ∀ children : List Concrete, ∀ child ∈ children, motive child
  | [] => List.forall_mem_nil _
  | child :: rest => List.forall_mem_cons.2 ⟨induct node child, forall_mem_induct node rest⟩

end

mutual

def All (P : Head → List Concrete → Prop) : Concrete → Prop
  | .node head children => P head children ∧ AllBelow P children

def AllBelow (P : Head → List Concrete → Prop) : List Concrete → Prop
  | [] => True
  | child :: rest => child.All P ∧ AllBelow P rest

end

variable {P : Head → List Concrete → Prop}

theorem all_node {head : Head} {children : List Concrete} :
    (node head children).All P ↔ P head children ∧ AllBelow P children := by rw [All]

@[simp] theorem allBelow_nil : AllBelow P [] := by
  rw [AllBelow]
  trivial

theorem allBelow_cons {child : Concrete} {rest : List Concrete} :
    AllBelow P (child :: rest) ↔ child.All P ∧ AllBelow P rest := by rw [AllBelow]

theorem allBelow_iff {children : List Concrete} :
    AllBelow P children ↔ ∀ child ∈ children, child.All P := by
  induction children with
  | nil => simp
  | cons first rest ih => rw [allBelow_cons, List.forall_mem_cons, ih]

theorem AllBelow.of_mem {children : List Concrete} (h : AllBelow P children) :
    ∀ child ∈ children, child.All P := allBelow_iff.1 h

theorem All.here {root : Concrete} (h : root.All P) : P root.head root.children := by
  cases root with
  | node head children => exact (all_node.1 h).1

theorem All.below {root : Concrete} (h : root.All P) : AllBelow P root.children := by
  cases root with
  | node head children => exact (all_node.1 h).2

theorem all_of_forall (h : ∀ head children, P head children) (root : Concrete) : root.All P := by
  induction root with
  | node head children ih => exact all_node.2 ⟨h head children, allBelow_iff.2 ih⟩

mutual

def decidableAll [∀ head children, Decidable (P head children)] :
    ∀ root : Concrete, Decidable (root.All P)
  | .node head children =>
    have := decidableAllBelow children
    decidable_of_iff (P head children ∧ AllBelow P children) all_node.symm

def decidableAllBelow [∀ head children, Decidable (P head children)] :
    ∀ children : List Concrete, Decidable (AllBelow P children)
  | [] => isTrue allBelow_nil
  | child :: rest =>
    have := decidableAll child
    have := decidableAllBelow rest
    decidable_of_iff (child.All P ∧ AllBelow P rest) allBelow_cons.symm

end

instance [∀ head children, Decidable (P head children)] (root : Concrete) :
    Decidable (root.All P) := decidableAll root

/-- What a well-formed node and its children satisfy. -/
structure Placed (source : String) (head : Head) (children : List Concrete) : Prop where
  range : Utf8.isRange head.span.start head.span.stop source.toList = true
  fieldless : head.extra = true → head.field = none
  nested : ∀ child ∈ children,
    head.span.start ≤ child.head.span.start ∧ child.head.span.stop ≤ head.span.stop
  ordered : children.Pairwise fun before after => before.head.span.stop ≤ after.head.span.start

instance (source : String) (head : Head) (children : List Concrete) :
    Decidable (Placed source head children) :=
  decidable_of_iff
    (Utf8.isRange head.span.start head.span.stop source.toList = true ∧
      (head.extra = true → head.field = none) ∧
      (∀ child ∈ children,
        head.span.start ≤ child.head.span.start ∧ child.head.span.stop ≤ head.span.stop) ∧
      children.Pairwise fun before after => before.head.span.stop ≤ after.head.span.start)
    ⟨fun h => ⟨h.1, h.2.1, h.2.2.1, h.2.2.2⟩,
      fun h => ⟨h.range, h.fieldless, h.nested, h.ordered⟩⟩

/-- Whether a concrete tree may be what a parser gives for a source. -/
def WellFormed (source : String) (root : Concrete) : Prop := root.All (Placed source)

instance (source : String) (root : Concrete) : Decidable (root.WellFormed source) :=
  inferInstanceAs (Decidable (root.All _))

/-- Whether the offsets of all nodes are boundaries of a source. -/
def OnBoundaries (source : String) (root : Concrete) : Prop :=
  root.All fun head _ => Utf8.isBoundary head.span.start source.toList = true ∧
    Utf8.isBoundary head.span.stop source.toList = true

instance (source : String) (root : Concrete) : Decidable (root.OnBoundaries source) :=
  inferInstanceAs (Decidable (root.All _))

variable {source : String} {head : Head} {children : List Concrete}

theorem Placed.le (h : Placed source head children) : head.span.start ≤ head.span.stop :=
  (Utf8.isRange_iff.1 h.range).1

theorem Placed.le_size (h : Placed source head children) :
    head.span.stop ≤ source.utf8ByteSize := by
  rw [← Utf8.size_toList]
  exact Utf8.le_size_of_isBoundary (Utf8.isRange_iff.1 h.range).2.2

theorem Placed.start_lt (h : Placed source head children) (he : head.isEmpty = false) :
    head.span.start < head.span.stop := by
  have hle := h.le
  have hne : head.span.start ≠ head.span.stop := by
    intro heq
    simp [Head.isEmpty, Span.isEmpty, heq] at he
  omega

/-- Nodes that come one after another between two offsets. -/
structure Between (start stop : Nat) (children : List Concrete) : Prop where
  le : start ≤ stop
  nested : ∀ child ∈ children, start ≤ child.head.span.start ∧ child.head.span.stop ≤ stop
  ordered : children.Pairwise fun before after => before.head.span.stop ≤ after.head.span.start

theorem Placed.between (h : Placed source head children) :
    Between head.span.start head.span.stop children := ⟨h.le, h.nested, h.ordered⟩

variable {start stop : Nat} {child : Concrete} {rest : List Concrete}

theorem Between.from_zero (h : Between start stop children) : Between 0 stop children :=
  ⟨Nat.zero_le _, fun child hm => ⟨Nat.zero_le _, (h.nested child hm).2⟩, h.ordered⟩

theorem Between.skip (h : Between start stop (child :: rest)) : Between start stop rest :=
  ⟨h.le, fun other hm => h.nested other (List.mem_cons_of_mem _ hm),
    (List.pairwise_cons.1 h.ordered).2⟩

theorem Between.behind (h : Between start stop (child :: rest)) :
    Between child.head.span.stop stop rest := by
  obtain ⟨hfirst, hrest⟩ := List.pairwise_cons.1 h.ordered
  refine ⟨(h.nested child List.mem_cons_self).2, fun other hm => ⟨hfirst other hm, ?_⟩, hrest⟩
  exact (h.nested other (List.mem_cons_of_mem _ hm)).2

end Concrete

end CodeTree
