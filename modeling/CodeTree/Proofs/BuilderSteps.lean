import CodeTree.Proofs.BuilderEffects
import CodeTree.Proofs.OutlineEvents
import CodeTree.Proofs.OutlineSound

/-!
# Steps of a builder

What single steps do when nothing is wrong: opening a node, closing a node to which the parts of an
outline were added, and where the builder stands in the source.

Inside an alternative the builder does not add to the source but compares with it. `Reads` covers
both cases: it says where the builder stands and how far its next leaves may reach.
-/

namespace CodeTree

namespace Builder

open Outline

variable {language : Language} {source : String}

def added (first : NodeId) (parts : List Outline) : List Added :=
  (numbered first parts).map fun head =>
    ⟨head.1, head.2.label.kind, head.2.label.slot, head.2.label.detached⟩

/-- Where a builder stands in a source, and how far its next leaves may reach. -/
inductive Reads (source : String) (pos limit : Nat) (builder : Builder) : Prop where
  /-- The builder has read the source up to here. -/
  | ahead (replays : builder.replays = []) (read : builder.source = textBefore source pos)
      (boundary : Utf8.isBoundary pos source.toList = true) (whole : limit = source.utf8ByteSize)
  /-- The builder goes through text that it has read before. -/
  | again (outer : List Replay) (bound : Nat) (replays : builder.replays = ⟨pos, limit⟩ :: outer)
      (read : builder.source = textBefore source bound) (le : limit ≤ bound)
      (boundary : Utf8.isBoundary bound source.toList = true)

def moveTo (builder : Builder) (source : String) (pos : Nat) : Builder :=
  { builder with
    source := if builder.replays.isEmpty then textBefore source pos else builder.source
    replays := builder.replays.modifyHead fun replay => { replay with cursor := pos } }

variable {builder : Builder} {pos limit : Nat}

theorem Reads.position_eq (h : Reads source pos limit builder) : builder.position = pos := by
  cases h with
  | ahead replays read boundary whole =>
    rw [position, replays, read]
    exact utf8ByteSize_textBefore boundary
  | again outer bound replays read le boundary => rw [position, replays]

/-- Where a builder stands depends on its source and its replays only. -/
theorem Reads.congr {other : Builder} (h : Reads source pos limit builder)
    (hr : other.replays = builder.replays) (hs : other.source = builder.source) :
    Reads source pos limit other := by
  cases h with
  | ahead replays read boundary whole =>
    exact .ahead (hr.trans replays) (hs.trans read) boundary whole
  | again outer bound replays read le boundary =>
    exact .again outer bound (hr.trans replays) (hs.trans read) le boundary

theorem Reads.moveTo_self (h : Reads source pos limit builder) :
    builder.moveTo source pos = builder := by
  obtain ⟨language, text, nodes, stack, replays, errors⟩ := builder
  cases h with
  | ahead replays read boundary whole =>
    simp only at replays read
    subst replays read
    rfl
  | again outer bound replays read le boundary =>
    simp only at replays
    subst replays
    rfl

theorem Reads.moveTo {pos' : Nat} (h : Reads source pos limit builder)
    (hb : Utf8.isBoundary pos' source.toList = true) :
    Reads source pos' limit (builder.moveTo source pos') := by
  cases h with
  | ahead replays read boundary whole =>
    refine .ahead ?_ ?_ hb whole
    · simp [Builder.moveTo, replays]
    · simp [Builder.moveTo, replays]
  | again outer bound replays read le boundary =>
    refine .again outer bound ?_ ?_ le boundary
    · simp [Builder.moveTo, replays]
    · simp [Builder.moveTo, replays, read]

theorem moveTo_moveTo (pos pos' : Nat) :
    (builder.moveTo source pos).moveTo source pos' = builder.moveTo source pos' := by
  obtain ⟨language, text, nodes, stack, replays, errors⟩ := builder
  cases replays <;> rfl

def extend (builder : Builder) (top : OpenNode) (outer : List OpenNode) (parts : List Outline) :
    Builder :=
  { builder with
    nodes := builder.nodes ++ (nodesAll top.id builder.nodes.size parts).toArray
    stack := { top with pending := top.pending ++ added builder.nodes.size parts } :: outer }

variable {top : OpenNode} {outer : List OpenNode}

theorem extend_nil (h : builder.stack = top :: outer) : builder.extend top outer [] = builder := by
  obtain ⟨language, text, nodes, stack, replays, errors⟩ := builder
  simp only at h
  subst h
  simp [extend, added, numbered]

theorem size_nodes_extend (parts : List Outline) :
    (builder.extend top outer parts).nodes.size = builder.nodes.size + sizeAll parts := by
  simp [extend, length_nodesAll]

theorem extend_cons (part : Outline) (rest : List Outline) :
    (builder.extend top outer [part]).extend
        { top with pending := top.pending ++ added builder.nodes.size [part] } outer rest =
      builder.extend top outer (part :: rest) := by
  have hsize : (builder.extend top outer [part]).nodes.size = builder.nodes.size + part.size := by
    rw [size_nodes_extend, sizeAll_cons, sizeAll_nil, Nat.add_zero]
  rw [extend, hsize, extend, extend]
  simp [nodesAll_cons, added, numbered]

theorem moveTo_extend (pos : Nat) (parts : List Outline) :
    (builder.extend top outer parts).moveTo source pos =
      (builder.moveTo source pos).extend top outer parts := rfl

def openFor (id : NodeId) (label : Label) : OpenNode :=
  ⟨id, label.kind, label.span.start, label.detached, []⟩

def unclosed (parent : Option NodeId) (label : Label) : NodeData :=
  ⟨label.kind, ⟨label.span.start, label.span.start⟩, parent, [], []⟩

def opened (builder : Builder) (top : OpenNode) (outer : List OpenNode) (label : Label) : Builder :=
  { builder with
    nodes := builder.nodes.push (unclosed (some top.id) label)
    stack := openFor builder.nodes.size label ::
      { top with pending := top.pending ++ added builder.nodes.size [node label []] } :: outer }

theorem openNode_eq {label : Label} (ht : label.kind.isTerminal = false)
    (hl : ∀ other, label.kind.language? = some other → other = builder.language)
    (hs : builder.stack = top :: outer) (hp : builder.position = label.span.start) :
    builder.openNode label.slot label.kind label.detached = builder.opened top outer label := by
  rw [builder.openNode_eq_entered (by simp [hs]), unopenable_eq_nil_iff.2 ⟨ht, hl⟩, entered,
    push_eq]
  simp [hs, hp, told, withErrors, opened, openFor, unclosed, added, numbered]

theorem openNode_root {label : Label} (ht : label.kind.isTerminal = false)
    (hl : ∀ other, label.kind.language? = some other → other = builder.language)
    (hs : builder.stack = []) (hn : builder.nodes = #[])
    (hp : builder.position = label.span.start) :
    builder.openNode label.slot label.kind label.detached =
      { builder with nodes := #[unclosed none label], stack := [openFor 0 label] } := by
  rw [builder.openNode_eq_entered (fun _ => hn), unopenable_eq_nil_iff.2 ⟨ht, hl⟩, entered, push_eq]
  simp [hs, hn, hp, told, withErrors, openFor, unclosed]

theorem target?_eq_some_iff {kind : NodeKind} {pending : Added} {i : Nat} :
    target? kind pending = some i ↔
      ∃ h : i < kind.slots.length,
        kind.place pending.slot pending.kind = some kind.slots[i].slot := by
  rw [target?]
  cases pending.slot with
  | some slot =>
    simp only [NodeKind.slotIndex?_eq_some_iff, NodeKind.place_some, Option.some.injEq]
    exact exists_congr fun _ => eq_comm
  | none =>
    rw [NodeKind.place_none]
    simp only
    split
    · rw [NodeKind.restIndex?_eq_some_iff]
    · simp

/-- What was added goes to the slots by name as it goes to them by position. -/
theorem distribute_eq (kind : NodeKind) (pending : List Added) :
    distribute kind pending = kind.slots.map fun decl =>
      (pending.filter fun held => kind.place held.slot held.kind == some decl.slot).map
        (·.id) := by
  apply List.ext_getElem
  · simp [distribute]
  · intro i hi hi'
    have hlt : i < kind.slots.length := by simpa [distribute] using hi
    have htarget : ∀ held : Added, (target? kind held == some i) =
        (kind.place held.slot held.kind == some kind.slots[i].slot) := by
      intro held
      rw [Bool.eq_iff_iff, beq_iff_eq, beq_iff_eq, target?_eq_some_iff]
      exact ⟨fun h => h.2, fun h => ⟨hlt, h⟩⟩
    simp only [distribute, List.getElem_map, List.getElem_range, htarget]

theorem distribute_added (kind : NodeKind) (first : NodeId) (parts : List Outline) :
    distribute kind (added first parts) = kind.slots.map fun decl =>
      idsWhere (·.placeIn kind == some decl.slot) first parts := by
  rw [distribute_eq]
  simp only [added, idsWhere, List.filter_map, List.map_map]
  rfl

theorem undeclared?_eq_none_iff {kind : NodeKind} {pending : Added} :
    undeclared? kind pending = none ↔
      ∀ slot, pending.slot = some slot → kind.declares slot = true := by
  rw [undeclared?]
  cases pending.slot with
  | none => simp
  | some slot => simp [← NodeKind.slotIndex?_isSome_iff, Option.isSome_iff_ne_none]

/-- What is wrong when a node is closed are slots that it does not declare and slots that do not
hold as many parts as they may. -/
theorem closingErrors_added_eq_nil_iff {kind : NodeKind} {first : NodeId} {parts : List Outline} :
    closingErrors kind (added first parts) = [] ↔
      (∀ part ∈ parts, ∀ slot, part.label.slot = some slot → kind.declares slot = true) ∧
        ∀ decl ∈ kind.slots, decl.arity.accepts (parts.countP fun part =>
          part.label.placeIn kind == some decl.slot) = true := by
  rw [closingErrors, List.append_eq_nil_iff]
  apply and_congr
  · conv => rhs; rw [← map_snd_numbered first parts]
    simp only [added, List.filterMap_eq_nil_iff, List.forall_mem_map, undeclared?_eq_none_iff]
  · simp only [distribute_added, ← List.map_prod_left_eq_zip, List.filterMap_eq_nil_iff,
      List.forall_mem_map, miscounted?, length_idsWhere, ite_eq_left_iff, reduceCtorEq, imp_false,
      Decidable.not_not]

theorem map_id_filter_added (first : NodeId) (parts : List Outline) :
    ((added first parts).filter (!·.detached)).map (·.id) =
      idsWhere (!·.detached) first parts := by
  simp only [added, idsWhere, List.filter_map, List.map_map]
  rfl

theorem modify_push_append {α : Type} (before : Array α) (x : α) (after : List α) (f : α → α) :
    (before.push x ++ after.toArray).modify before.size f = before ++ (f x :: after).toArray := by
  apply Array.ext'
  rw [Array.toList_modify]
  simp [List.modify_eq_take_cons_drop, List.drop_append]

/-- Closing a node to which the parts of a node of an outline were added. -/
theorem closeNode_eq {label : Label} {parts : List Outline} (nodes : Array NodeData)
    (parent : Option NodeId) (outer : List OpenNode) (h : Buildable language source label parts)
    (hs : builder.stack =
      { openFor nodes.size label with pending := added (nodes.size + 1) parts } :: outer)
    (hn : builder.nodes = nodes.push (unclosed parent label) ++
      (nodesAll nodes.size (nodes.size + 1) parts).toArray)
    (hp : builder.position = label.span.stop) :
    builder.closeNode =
      { builder with
        nodes := nodes ++ ((node label parts).nodes parent nodes.size).toArray
        stack := outer
        replays := if label.detached then builder.replays.drop 1 else builder.replays } := by
  have herrors : closingErrors label.kind (added (nodes.size + 1) parts) = [] :=
    closingErrors_added_eq_nil_iff.2 ⟨h.declared, h.arity⟩
  rw [builder.closeNode_eq_left hs, left]
  simp only [openFor, herrors, List.append_nil, hp, map_id_filter_added, distribute_added, hn,
    modify_push_append, nodes_node]
  rfl

/-- What a finished builder gives is valid and has the builder's source. -/
theorem finish_eq_ok_iff {tree : Tree} :
    builder.finish = .ok tree ↔ builder.errors = [] ∧ builder.stack = [] ∧
      builder.nodes.isEmpty = false ∧ tree.Valid ∧
        tree = Tree.ofParts builder.language builder.source builder.nodes := by
  rw [finish]
  cases builder.errors with
  | cons error rest => simp
  | nil =>
    cases builder.stack with
    | cons node outer => simp
    | nil =>
      cases hn : builder.nodes.isEmpty with
      | true => simp
      | false =>
        simp only [Bool.false_eq_true, if_false, true_and, Tree.validated_eq_ok_iff]
        constructor
        · rintro ⟨hvalid, rfl⟩
          exact ⟨hvalid, rfl⟩
        · rintro ⟨hvalid, rfl⟩
          exact ⟨hvalid, rfl⟩

end Builder

end CodeTree
