import CodeTree.Proofs.Checks

/-!
# Validation in one pass

`Tree.validate` checks all nodes before it counts what they own. The same can be done in one pass
that hands an array of counters from node to node: whenever a child or an alternative has been
checked, its counter is raised. `Tree.scan` is that pass, and it has no result where it would read
or write outside the bounds of an array. It never does: what is counted was looked up before, so the
pass has a result, and the result is that of the checks (`run_scan`).
-/

namespace CodeTree

/-- A check that may leave the bounds of an array, and then has no result. -/
abbrev Bounded : Type → Type := ExceptT TreeError Option

namespace Bounded

variable {α β γ δ : Type}

def checked (x : Except TreeError α) : Bounded α := ExceptT.mk (some x)

def inside (x : Option α) : Bounded α := ExceptT.mk (x.map .ok)

theorem run_checked (x : Except TreeError α) : (checked x).run = some (x.map id) := by
  cases x <;> rfl

theorem run_bind {x : Bounded β} {y : Except TreeError α} {h : α → β} {f : β → Bounded δ}
    {g : α → Except TreeError γ} {c : γ → δ} (hx : x.run = some (y.map h))
    (hf : ∀ a, y = .ok a → (f (h a)).run = some ((g a).map c)) :
    (x >>= f).run = some ((y >>= g).map c) := by
  obtain rfl : x = ExceptT.mk (some (y.map h)) := hx
  cases y with
  | error error => rfl
  | ok a => exact hf a rfl

end Bounded

namespace Tree

open Bounded

def counted (counts : Array Nat) (ids : List NodeId) : Array Nat :=
  ids.foldl (fun counts id => counts.modify id (· + 1)) counts

theorem counted_append (counts : Array Nat) (first second : List NodeId) :
    counted counts (first ++ second) = counted (counted counts first) second :=
  List.foldl_append

@[simp] theorem size_counted (counts : Array Nat) (ids : List NodeId) :
    (counted counts ids).size = counts.size := by
  induction ids generalizing counts with
  | nil => rfl
  | cons id rest ih => exact (ih _).trans Array.size_modify

def raise (counts : Array Nat) (id : NodeId) : Bounded (Array Nat) :=
  inside (if id < counts.size then some (counts.modify id (· + 1)) else none)

theorem run_raise {counts : Array Nat} {id : NodeId} (h : id < counts.size) :
    (raise counts id).run = some (.ok (counted counts [id])) := by
  rw [raise, if_pos h]
  rfl

/-- Counters are handed on through a list if each step hands them on. -/
theorem run_foldlM {α : Type} {size : Nat} {step : Array Nat → α → Bounded (Array Nat)}
    {check : α → Except TreeError Unit} {owned : α → List NodeId} {xs : List α}
    (hstep : ∀ x counts, counts.size = size →
      (step counts x).run = some ((check x).map fun _ => counted counts (owned x)))
    {counts : Array Nat} (hc : counts.size = size) :
    (xs.foldlM step counts).run =
      some ((xs.forM check).map fun _ => counted counts (xs.flatMap owned)) := by
  induction xs generalizing counts with
  | nil => rfl
  | cons x rest ih =>
    rw [List.foldlM_cons, List.flatMap_cons, counted_append]
    refine run_bind (hstep x counts hc) fun _ _ => ih ?_
    rwa [size_counted]

variable (tree : Tree)

/-- Checks the children of a node and counts each of them. -/
def scanChildren (id : NodeId) (kind : NodeKind) (cursor : Nat) (counts : Array Nat) :
    List NodeId → Bounded (Nat × Array Nat)
  | [] => return (cursor, counts)
  | child :: rest =>
    match tree.nodes[child]? with
    | none => throw (.malformed kind none (.missingChild child))
    | some data =>
      if data.parent ≠ some id then throw (.malformed kind none (.strayChild child))
      else if data.span.start ≠ cursor then
        throw (.malformed kind none (.childStart child data.span.start cursor))
      else do
        scanChildren id kind data.span.stop (← raise counts child) rest

def scanSlotted (id : NodeId) (owner : NodeData) (slot : Slot) (counts : Array Nat)
    (slotted : NodeId) : Bounded (Array Nat) := do
  checked (tree.checkSlotted id owner slot slotted)
  if NodeData.holdsAlternatives owner.kind slot then raise counts slotted else return counts

def scanSlot (id : NodeId) (owner : NodeData) (counts : Array Nat)
    (entry : SlotDecl × List NodeId) : Bounded (Array Nat) := do
  let (decl, ids) := entry
  checked (ensure (decl.arity.accepts ids.length)
    (.malformed owner.kind (some decl.slot) (.heldCount ids.length decl.arity)))
  ids.foldlM (tree.scanSlotted id owner decl.slot) counts

def scanNode (id : NodeId) (data : NodeData) (counts : Array Nat) : Bounded (Array Nat) := do
  let kind := data.kind
  checked (tree.checkKind kind)
  checked (ensure (tree.covers data.span) (.malformed kind none (.notInSource data.span)))
  checked (ensure (!kind.isTerminal || (data.children.isEmpty && data.slots.isEmpty))
    (.malformed kind none .terminalWithChildren))
  let (cursor, counts) ← tree.scanChildren id kind data.span.start counts data.children
  checked (ensure (kind.isTerminal || cursor == data.span.stop)
    (.malformed kind none (.childrenEnd cursor data.span.stop)))
  checked (ensure (kind.slots.length == data.slots.length)
    (.malformed kind none (.slotCount data.slots.length kind.slots.length)))
  (kind.slots.zip data.slots).foldlM (tree.scanSlot id data) counts

def scanOwners (counts : Array Nat) : Bounded Unit :=
  (counts.toList.zipIdx.drop 1).forM fun (count, id) =>
    if count = 1 then return ()
    else do
      let data ← inside tree.nodes[id]?
      throw (.malformed data.kind none (.references id count))

/-- Validates a tree in one pass over its nodes. -/
def scan : Bounded Unit := do
  checked (ensure (tree.size ≤ idLimit) (.malformed (.special .parseError) none .tooManyNodes))
  checked tree.checkRoot
  let counts ← (tree.nodes.toList.zipIdx).foldlM
    (fun counts (data, id) => tree.scanNode id data counts) (Array.replicate tree.size 0)
  tree.scanOwners counts

variable {tree} {counts : Array Nat}

theorem lt_size_of_getElem? {id : NodeId} {data : NodeData} (h : tree.nodes[id]? = some data) :
    id < tree.nodes.size := (Array.getElem?_eq_some_iff.1 h).1

theorem run_scanChildren {id : NodeId} {kind : NodeKind} {cursor : Nat} {children : List NodeId}
    (hc : counts.size = tree.nodes.size) :
    (tree.scanChildren id kind cursor counts children).run =
      some ((tree.checkChildren id kind cursor children).map fun stop =>
        (stop, counted counts children)) := by
  induction children generalizing cursor counts with
  | nil => rfl
  | cons child rest ih =>
    rw [scanChildren, checkChildren]
    cases hd : tree.nodes[child]? with
    | none => rfl
    | some data =>
      simp only
      split
      · rfl
      · split
        · rfl
        · have hlt : child < counts.size := by
            rw [hc]
            exact lt_size_of_getElem? hd
          exact run_bind (y := .ok ()) (h := fun _ => counted counts [child])
            (g := fun _ => tree.checkChildren id kind data.span.stop rest) (run_raise hlt)
            fun _ _ => ih ((size_counted counts [child]).trans hc)

theorem run_scanSlotted {id : NodeId} {owner : NodeData} {slot : Slot} (slotted : NodeId)
    (hc : counts.size = tree.nodes.size) :
    (tree.scanSlotted id owner slot counts slotted).run =
      some ((tree.checkSlotted id owner slot slotted).map fun _ =>
        counted counts (if NodeData.holdsAlternatives owner.kind slot then [slotted] else [])) := by
  rw [scanSlotted]
  cases hchecked : tree.checkSlotted id owner slot slotted with
  | error error => rfl
  | ok _ =>
    obtain ⟨data, hd, -⟩ := checkSlotted_eq_ok_iff.1 hchecked
    have hlt : slotted < counts.size := by
      rw [hc]
      exact lt_size_of_getElem? hd
    split
    · exact run_raise hlt
    · rfl

def heldIn (owner : NodeData) (entry : SlotDecl × List NodeId) : List NodeId :=
  if NodeData.holdsAlternatives owner.kind entry.1.slot then entry.2 else []

theorem run_scanSlot {id : NodeId} {owner : NodeData} (entry : SlotDecl × List NodeId)
    (hc : counts.size = tree.nodes.size) :
    (tree.scanSlot id owner counts entry).run =
      some ((tree.checkSlot id owner entry.1 entry.2).map fun _ =>
        counted counts (heldIn owner entry)) := by
  obtain ⟨decl, ids⟩ := entry
  have hheld : heldIn owner (decl, ids) = ids.flatMap fun slotted =>
      if NodeData.holdsAlternatives owner.kind decl.slot then [slotted] else [] := by
    rw [heldIn]
    split
    · exact (List.flatMap_singleton' ids).symm
    · simp
  rw [hheld]
  exact run_bind (run_checked _) fun _ _ =>
    run_foldlM (fun slotted _ hc => run_scanSlotted slotted hc) hc

theorem run_scanNode {id : NodeId} {data : NodeData} (hc : counts.size = tree.nodes.size) :
    (tree.scanNode id data counts).run =
      some ((tree.checkNode id data).map fun _ => counted counts data.owned) := by
  rw [NodeData.owned, counted_append]
  refine run_bind (run_checked _) fun _ _ => ?_
  refine run_bind (run_checked _) fun _ _ => ?_
  refine run_bind (run_checked _) fun _ _ => ?_
  refine run_bind (run_scanChildren hc) fun stop _ => ?_
  refine run_bind (run_checked _) fun _ _ => ?_
  refine run_bind (run_checked _) fun _ _ => ?_
  exact run_foldlM (fun entry _ hc => run_scanSlot entry hc) (by rwa [size_counted])

theorem zipIdx_counts (hc : counts.size = tree.nodes.size) :
    counts.toList.zipIdx = tree.allNodes.map fun node => (counts.getD node.id 0, node.id) := by
  apply List.ext_getElem
  · simp [allNodes, hc]
  · intro i hi hi'
    have hlt : i < counts.size := by simpa using hi
    simp [allNodes, Array.getD, hlt]

theorem zipIdx_nodes :
    tree.nodes.toList.zipIdx = tree.allNodes.map fun node => (node.data, node.id) := by
  apply List.ext_getElem
  · simp [allNodes]
  · intro i hi hi'
    simp [allNodes, Node.data, Node.index]

theorem run_scanOwners (hc : counts.size = tree.nodes.size) :
    (tree.scanOwners counts).run = some (((tree.allNodes.drop 1).forM fun node =>
      ensure (counts.getD node.id 0 == 1)
        (.malformed node.kind none (.references node.id (counts.getD node.id 0)))).map id) := by
  rw [scanOwners, zipIdx_counts hc, ← List.map_drop]
  induction tree.allNodes.drop 1 with
  | nil => rfl
  | cons node rest ih =>
    refine run_bind (h := id) ?_ fun _ _ => ih
    have hdata : tree.nodes[node.id]? = some node.data := Array.getElem?_eq_getElem node.id_lt
    by_cases hone : counts.getD node.id 0 = 1
    · simp only [hone]
      rfl
    · have hbeq : (counts.getD node.id 0 == 1) = false := by simpa using hone
      simp only [hone, hdata, hbeq]
      rfl

theorem run_scanNodes (hc : counts.size = tree.nodes.size) :
    (tree.allNodes.foldlM (fun counts node => tree.scanNode node.id node.data counts) counts).run =
      some ((tree.allNodes.forM fun node => tree.checkNode node.id node.data).map fun _ =>
        counted counts (tree.allNodes.flatMap fun node => node.data.owned)) := by
  refine run_foldlM ?_ hc
  intro node counts hc
  exact run_scanNode hc

/-- The pass over the nodes stays inside all arrays, and gives what the checks give. -/
theorem run_scan (tree : Tree) : tree.scan.run = some tree.validate := by
  have hsize : (Array.replicate tree.size 0).size = tree.nodes.size := Array.size_replicate
  have hscan : tree.scan.run = some (tree.validate.map id) := by
    rw [scan, zipIdx_nodes, List.foldlM_map]
    refine run_bind (run_checked _) fun _ _ => ?_
    refine run_bind (run_checked _) fun _ _ => ?_
    refine run_bind (run_scanNodes hsize) fun _ _ => ?_
    rw [checkOwners, ownerCounts, ← map_data_allNodes, List.flatMap_map]
    exact run_scanOwners ((size_counted _ _).trans hsize)
  rwa [Except.map_id, id] at hscan

end Tree

end CodeTree
