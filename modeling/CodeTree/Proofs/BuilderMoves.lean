import CodeTree.Proofs.BuilderSteps
import CodeTree.Proofs.Draft

/-!
# What an event does to a builder

An event is refused or carried out (`Moves`), and what is wrong with it is recorded besides
(`violations`). Neither depends on the errors that were recorded before, so what a step changes and
what it complains about can be looked at apart (`exists_moves`).

What an alternative still has to replay is told by the text it awaits. As long as the cursor and the
stop of a replay lie between characters, that agrees with the bytes that the builder compares
(`fits_eq_true_iff`).
-/

namespace CodeTree

namespace Builder

/-- Whether a text comes next in what is left to replay. -/
def Replay.Awaits (replay : Replay) (source text : String) : Prop :=
  text.toList <+: Utf8.slice replay.cursor replay.stop source.toList

instance (replay : Replay) (source text : String) : Decidable (replay.Awaits source text) :=
  inferInstanceAs (Decidable (text.toList <+: Utf8.slice replay.cursor replay.stop source.toList))

/-- Whether what is left to replay is a run of whole characters of the source. -/
def Replay.Within (replay : Replay) (source : String) : Prop :=
  Utf8.isRange replay.cursor replay.stop source.toList = true

variable {replay : Replay} {source text : String}

theorem Replay.Awaits.isRange (h : replay.Awaits source text) (hw : replay.Within source) :
    Utf8.isRange replay.cursor (replay.cursor + text.utf8ByteSize) source.toList = true ∧
      Utf8.isRange (replay.cursor + text.utf8ByteSize) replay.stop source.toList = true := by
  obtain ⟨before, middle, after, hs, hcursor, hstop⟩ := Utf8.exists_split hw
  rw [Replay.Awaits, hs, Utf8.slice_of_split hcursor hstop] at h
  obtain ⟨rest, rfl⟩ := h
  have hfirst : Occurs source replay.cursor text :=
    ⟨before, rest ++ after, by rw [hs, List.append_assoc], hcursor⟩
  have hsecond : Occurs source (replay.cursor + text.utf8ByteSize) (String.ofList rest) := by
    refine ⟨before ++ text.toList, after, by simp [hs], ?_⟩
    rw [Utf8.size_append, hcursor, Utf8.size_toList]
  refine ⟨hfirst.isRange, ?_⟩
  rw [Utf8.size_append, Utf8.size_toList, hcursor, Utf8.size_eq_utf8ByteSize,
    ← Nat.add_assoc] at hstop
  rw [← hstop]
  exact hsecond.isRange

/-- A builder compares a leaf with the source exactly as far as the replay goes. -/
theorem Replay.fits_eq_true_iff (hw : replay.Within source) :
    replay.fits source text = true ↔ replay.Awaits source text := by
  rw [Replay.fits, Bool.and_eq_true, decide_eq_true_eq, List.isPrefixOf_iff_prefix]
  constructor
  · rintro ⟨hle, hprefix⟩
    obtain ⟨before, middle, after, hs, hcursor, hstop⟩ := Utf8.exists_split hw
    rw [Replay.Awaits, hs, Utf8.slice_of_split hcursor hstop]
    rw [hs, ← hcursor, Utf8.drop_size_append] at hprefix
    have hmiddle : Occurs (String.ofList (middle ++ after)) 0 (String.ofList middle) :=
      ⟨[], after, by simp, rfl⟩
    have htext : Occurs (String.ofList (middle ++ after)) 0 text := by
      obtain ⟨rest, hrest⟩ := hprefix
      exact ⟨[], rest, by simp [hrest], rfl⟩
    have hshort : text.utf8ByteSize ≤ (String.ofList middle).utf8ByteSize := by
      rw [← Utf8.size_eq_utf8ByteSize]
      omega
    simpa using htext.prefix_of_le hmiddle hshort
  · intro h
    refine ⟨(Utf8.isRange_iff.1 (h.isRange hw).2).1, ?_⟩
    obtain ⟨before, middle, after, hs, hcursor, hstop⟩ := Utf8.exists_split hw
    rw [Replay.Awaits, hs, Utf8.slice_of_split hcursor hstop] at h
    rw [hs, ← hcursor, Utf8.drop_size_append]
    exact h.trans (List.prefix_append _ _)

namespace OpenNode

variable (node : OpenNode)

def undeclared : List TreeError :=
  ((node.pending.filterMap (·.slot)).filter fun slot => !node.kind.declares slot).map fun slot =>
    .undeclaredSlot node.kind slot.text

def count (slot : Slot) : Nat :=
  node.pending.countP fun added => node.kind.place added.slot added.kind == some slot

def miscounted : List TreeError :=
  (node.kind.slots.filter fun decl => !decl.arity.accepts (node.count decl.slot)).map fun decl =>
    .malformed node.kind (some decl.slot) (.receivedCount (node.count decl.slot) decl.arity)

end OpenNode

variable (builder : Builder)

/-- What is wrong with an event where it comes, in the order in which it is noticed. -/
def violations : Event → List TreeError
  | .start slot kind =>
    unopenable builder.language slot kind ++
      if builder.depth = 0 ∧ builder.nodes ≠ #[] then [.unbalanced .secondRoot] else []
  | .alternative kind =>
    match builder.currentKind with
    | none => [.unbalanced .alternativeOutside]
    | some owner =>
      if owner = .special .variationPoint then
        unopenable builder.language (some .alternatives) kind
      else [.malformed owner (some .alternatives) .alternativeElsewhere]
  | .finish =>
    match builder.stack with
    | [] => [.unbalanced .unmatchedFinish]
    | node :: _ => node.undeclared ++ node.miscounted
  | .leaf slot kind text =>
    unaddable builder.language slot kind ++
      if builder.depth = 0 then [.unbalanced .leafOutside]
      else
        match builder.replays with
        | [] => []
        | replay :: _ =>
          if replay.Awaits builder.source text then []
          else [.alternativeMismatch replay.cursor text]

/-- Whether an event makes no sense where it comes. -/
inductive Refuses : Event → Prop where
  | leafOutside (slot : Option Slot) (kind : NodeKind) (text : String) (h : builder.depth = 0) :
      Refuses (.leaf slot kind text)
  | secondRoot (slot : Option Slot) (kind : NodeKind) (h : builder.depth = 0)
      (hn : builder.nodes ≠ #[]) : Refuses (.start slot kind)
  | unmatchedFinish (h : builder.depth = 0) : Refuses .finish
  | alternativeElsewhere (kind : NodeKind)
      (h : builder.currentKind ≠ some (.special .variationPoint)) : Refuses (.alternative kind)
  | mismatch (slot : Option Slot) (kind : NodeKind) (text : String) (replay : Replay)
      (outer : List Replay) (h : builder.replays = replay :: outer)
      (hm : ¬replay.Awaits builder.source text) : Refuses (.leaf slot kind text)

/-- What an event does to a builder, errors apart. -/
inductive Moves : Event → Builder → Prop where
  | refused (event : Event) (h : builder.Refuses event) : Moves event builder
  | opened (slot : Option Slot) (kind : NodeKind) (h : builder.stack = [] → builder.nodes = #[]) :
      Moves (.start slot kind) (builder.entered slot kind false)
  | alternative (kind : NodeKind) (point : OpenNode) (outer : List OpenNode)
      (hs : builder.stack = point :: outer) (hk : point.kind = .special .variationPoint) :
      Moves (.alternative kind) ((builder.replaying point).entered (some .alternatives) kind true)
  | closed (node : OpenNode) (outer : List OpenNode) (hs : builder.stack = node :: outer) :
      Moves .finish (builder.left node outer)
  | read (slot : Option Slot) (kind : NodeKind) (text : String) (hs : builder.stack ≠ [])
      (hr : builder.replays = []) :
      Moves (.leaf slot kind text) ((builder.grown text).push kind
        ⟨builder.position, builder.position + text.utf8ByteSize⟩ slot false)
  | replayed (slot : Option Slot) (kind : NodeKind) (text : String) (replay : Replay)
      (outer : List Replay) (hs : builder.stack ≠ []) (hr : builder.replays = replay :: outer)
      (h : replay.Awaits builder.source text) :
      Moves (.leaf slot kind text) ((builder.advanced replay outer text).push kind
        ⟨replay.cursor, replay.cursor + text.utf8ByteSize⟩ slot false)

variable {builder} {slot : Option Slot} {kind : NodeKind} {event : Event} {after : Builder}

/-- An event that is refused can do nothing else. -/
theorem Moves.eq_of_refuses (hm : builder.Moves event after) (h : builder.Refuses event) :
    after = builder := by
  cases hm with
  | refused => rfl
  | opened slot kind hfirst =>
    cases h with
    | secondRoot _ _ hd hn => exact absurd (hfirst (depth_eq_zero_iff.1 hd)) hn
  | alternative kind point outer hs hk =>
    cases h with
    | alternativeElsewhere _ hc => exact absurd (by rw [currentKind, hs, ← hk]; rfl) hc
  | closed node outer hs =>
    cases h with
    | unmatchedFinish hd => simp [depth_eq_zero_iff, hs] at hd
  | read slot kind text hs hr =>
    cases h with
    | leafOutside _ _ _ hd => exact absurd (depth_eq_zero_iff.1 hd) hs
    | mismatch _ _ _ replay outer h _ => simp [hr] at h
  | replayed slot kind text replay outer hs hr ha =>
    cases h with
    | leafOutside _ _ _ hd => exact absurd (depth_eq_zero_iff.1 hd) hs
    | mismatch _ _ _ other _ h hm =>
      obtain ⟨rfl, -⟩ := List.cons.inj (hr.symm.trans h)
      exact absurd ha hm

theorem Moves.size_nodes_le (hm : builder.Moves event after) :
    builder.nodes.size ≤ after.nodes.size := by
  cases hm with
  | refused => exact Nat.le_refl _
  | opened | alternative =>
    rw [size_nodes_entered]
    exact Nat.le_succ _
  | closed => simp [left]
  | read | replayed =>
    rw [size_nodes_push]
    exact Nat.le_succ _

theorem Moves.changes (hm : builder.Moves event after) (h : ¬builder.Refuses event) :
    after.nodes.size ≠ builder.nodes.size ∨ after.depth ≠ builder.depth := by
  cases hm with
  | refused _ hr => exact absurd hr h
  | opened | alternative =>
    rw [size_nodes_entered]
    exact .inl (Nat.succ_ne_self _)
  | closed node outer hs => exact .inr (by simp [left, depth, hs])
  | read | replayed =>
    rw [size_nodes_push]
    exact .inl (Nat.succ_ne_self _)

variable (builder)

theorem filterMap_unless {α β : Type} (right : α → Bool) (f : α → β) (xs : List α) :
    xs.filterMap (fun x => if right x then none else some (f x)) =
      (xs.filter fun x => !right x).map f := by
  induction xs with
  | nil => rfl
  | cons x rest ih => cases h : right x <;> simp [h, ih]

/-- What is wrong with a node that is closed, told by the names of its slots. -/
theorem closingErrors_eq (node : OpenNode) :
    closingErrors node.kind node.pending = node.undeclared ++ node.miscounted := by
  have hundeclared : undeclared? node.kind = fun added => added.slot.bind fun slot =>
      if node.kind.declares slot then none else some (.undeclaredSlot node.kind slot.text) := by
    funext added
    rw [undeclared?]
    congr 1
    funext slot
    rw [Bool.eq_iff_iff.2 NodeKind.slotIndex?_isSome_iff]
  have hcount : ∀ decl : SlotDecl, ((node.pending.filter fun held =>
      node.kind.place held.slot held.kind == some decl.slot).map (·.id)).length =
        node.count decl.slot := by
    intro decl
    rw [List.length_map, ← List.countP_eq_length_filter, OpenNode.count]
  rw [closingErrors, OpenNode.undeclared, OpenNode.miscounted, ← filterMap_unless,
    ← filterMap_unless, List.filterMap_filterMap, distribute_eq, ← List.map_prod_left_eq_zip,
    List.filterMap_map, hundeclared]
  simp only [Function.comp_def, miscounted?, hcount]

def Reaches (event : Event) (after : Builder) : Prop :=
  ∀ errors, (builder.withErrors errors).step event =
    after.withErrors (errors ++ builder.violations event)

theorem exists_moves_start (slot : Option Slot) (kind : NodeKind) :
    ∃ after, builder.Moves (.start slot kind) after ∧ builder.Reaches (.start slot kind) after := by
  by_cases h : builder.depth = 0 ∧ builder.nodes ≠ #[]
  · have hs : builder.stack = [] := depth_eq_zero_iff.1 h.1
    refine ⟨builder, .refused _ (.secondRoot slot kind h.1 h.2), fun errors => ?_⟩
    rw [violations, if_pos h]
    exact (builder.withErrors errors).openNode_of_secondRoot hs h.2 slot kind false
  · have hfirst : builder.stack = [] → builder.nodes = #[] := by
      simpa [depth_eq_zero_iff] using h
    refine ⟨_, .opened slot kind hfirst, fun errors => ?_⟩
    rw [violations, if_neg h, List.append_nil]
    exact (builder.withErrors errors).openNode_eq_entered hfirst slot kind false

theorem exists_moves_alternative (kind : NodeKind) :
    ∃ after, builder.Moves (.alternative kind) after ∧
      builder.Reaches (.alternative kind) after := by
  cases hs : builder.stack with
  | nil =>
    have hkind : builder.currentKind = none := by rw [currentKind, hs]; rfl
    refine ⟨builder, .refused _ (.alternativeElsewhere kind (by simp [hkind])), fun errors => ?_⟩
    rw [violations, hkind]
    exact (builder.withErrors errors).openAlternative_outside hs kind
  | cons point outer =>
    have hkind : builder.currentKind = some point.kind := by rw [currentKind, hs]; rfl
    by_cases hk : point.kind = .special .variationPoint
    · refine ⟨_, .alternative kind point outer hs hk, fun errors => ?_⟩
      have hopen := ((builder.replaying point).withErrors errors).openNode_eq_entered
        (fun hnil => absurd (hs.symm.trans hnil) (List.cons_ne_nil _ _)) (some .alternatives)
        kind true
      rw [violations, hkind]
      simp only [hk, if_true]
      exact ((builder.withErrors errors).openAlternative_eq_openNode hs hk kind).trans hopen
    · refine ⟨builder, .refused _ (.alternativeElsewhere kind (by simpa [hkind] using hk)),
        fun errors => ?_⟩
      rw [violations, hkind]
      simp only [hk, if_false]
      exact (builder.withErrors errors).openAlternative_elsewhere hs hk kind

theorem exists_moves_finish :
    ∃ after, builder.Moves .finish after ∧ builder.Reaches .finish after := by
  cases hs : builder.stack with
  | nil =>
    refine ⟨builder, .refused _ (.unmatchedFinish (depth_eq_zero_iff.2 hs)), fun errors => ?_⟩
    rw [violations, hs]
    exact (builder.withErrors errors).closeNode_unmatched hs
  | cons node outer =>
    refine ⟨_, .closed node outer hs, fun errors => ?_⟩
    simp only [violations, hs, ← closingErrors_eq]
    exact (builder.withErrors errors).closeNode_eq_left hs

theorem exists_moves_leaf
    (hw : ∀ replay ∈ builder.replays.head?, replay.Within builder.source) (slot : Option Slot)
    (kind : NodeKind) (text : String) :
    ∃ after, builder.Moves (.leaf slot kind text) after ∧
      builder.Reaches (.leaf slot kind text) after := by
  by_cases hs : builder.stack = []
  · refine ⟨builder, .refused _ (.leafOutside _ _ _ (depth_eq_zero_iff.2 hs)), fun errors => ?_⟩
    rw [violations, if_pos (depth_eq_zero_iff.2 hs)]
    exact (builder.withErrors errors).addLeaf_outside hs slot kind text
  · have hd : ¬builder.depth = 0 := fun h => hs (depth_eq_zero_iff.1 h)
    cases hr : builder.replays with
    | nil =>
      refine ⟨_, .read slot kind text hs hr, fun errors => ?_⟩
      rw [violations, if_neg hd, hr, List.append_nil]
      exact (builder.withErrors errors).addLeaf_read hs hr slot kind text
    | cons replay outer =>
      have hfits : replay.fits builder.source text = true ↔ replay.Awaits builder.source text :=
        Replay.fits_eq_true_iff (hw replay (by simp [hr]))
      have hleaf := fun errors =>
        (builder.withErrors errors).addLeaf_replay hs hr slot kind text
      by_cases h : replay.Awaits builder.source text
      · refine ⟨_, .replayed slot kind text replay outer hs hr h, fun errors => ?_⟩
        have hnone : builder.violations (.leaf slot kind text) =
            unaddable builder.language slot kind := by simp [violations, hd, hr, h]
        rw [hnone]
        exact (hleaf errors).trans (if_pos (hfits.2 h))
      · refine ⟨builder, .refused _ (.mismatch slot kind text replay outer hr h),
          fun errors => ?_⟩
        have hone : builder.violations (.leaf slot kind text) =
            unaddable builder.language slot kind ++ [.alternativeMismatch replay.cursor text] := by
          simp [violations, hd, hr, h]
        rw [hone]
        exact (hleaf errors).trans (if_neg fun hf => h (hfits.1 hf))

/-- Every event is refused or carried out, and what is wrong with it is recorded. -/
theorem exists_moves (hw : ∀ replay ∈ builder.replays.head?, replay.Within builder.source)
    (event : Event) :
    ∃ after, builder.Moves event after ∧ builder.Reaches event after := by
  cases event with
  | start slot kind => exact builder.exists_moves_start slot kind
  | alternative kind => exact builder.exists_moves_alternative kind
  | finish => exact builder.exists_moves_finish
  | leaf slot kind text => exact builder.exists_moves_leaf hw slot kind text

end Builder

end CodeTree
