import CodeTree.Proofs.LoweringTranslation
import CodeTree.Proofs.OutlineRun

/-!
# The translation is sound

The translation of a well-formed concrete tree is an outline in which every node may stand where it
does: its parts fill its range, and what was counted among the children of the concrete node is what
its slots hold. The second point rests on `slot_node`: a node may lose the slot that its parent
has for it only if it is a comment or spells a symbol, and of those none has such a slot.
-/

namespace CodeTree

namespace Translation

open Lowering (Setting)
open Outline

variable {setting : Setting} {points : Bool} {parent kind : NodeKind} {start stop : Nat}
  {siblings children : List Concrete}

/-- A child keeps the slot that its parent has for it. -/
theorem slot_node {child : Concrete} (h : child.head.extra = true → child.head.field = none) :
    (node setting points (child.slotIn? setting.language parent siblings) child).label.slot =
      child.slotIn? setting.language parent siblings := by
  cases child with
  | node head children =>
    rw [node]
    cases hv : verdict setting.language
        ((Concrete.node head children).slotIn? setting.language parent siblings)
        (.node head children) with
    | single slot kind =>
      obtain ⟨-, -, hslot⟩ := verdict_single hv
      rcases hslot with hslot | ⟨hslot, hcomment | hsymbol⟩
      · exact hslot
      · rw [Concrete.slotIn?_of_fieldless (h hcomment.1)]
        exact hslot
      · rw [Concrete.slotIn?_of_spellsSymbol hsymbol]
        exact hslot
    | error => cases points <;> rfl
    | structured kind => rfl

/-- The parts of a slot are the children that cover text and have the slot. -/
theorem countP_parts (slot : Slot)
    (h : ∀ child ∈ children, child.head.extra = true → child.head.field = none) :
    (parts setting points parent siblings start stop children).countP
        (fun part => part.label.slot == some slot) =
      children.countP fun child =>
        child.head.Covers ∧ child.slotIn? setting.language parent siblings = some slot := by
  have hfiller : ∀ start stop : Nat, (filler setting start stop).countP
      (fun part => part.label.slot == some slot) = 0 := by
    intro start stop
    rw [filler]
    split <;> rfl
  induction children generalizing start with
  | nil => rw [parts, hfiller, List.countP_nil]
  | cons child rest ih =>
    obtain ⟨hchild, hrest⟩ := List.forall_mem_cons.1 h
    rw [parts, List.countP_cons]
    by_cases hcovers : child.head.Covers
    · rw [if_pos hcovers, List.countP_append, hfiller, List.countP_cons, slot_node hchild, ih hrest]
      simp [hcovers]
    · rw [if_neg hcovers, ih hrest]
      simp [hcovers]

theorem mem_parts {part : Outline}
    (h : part ∈ parts setting points parent siblings start stop children) :
    (∃ start stop : Nat, part ∈ filler setting start stop) ∨
      ∃ child ∈ children, part =
        node setting points (child.slotIn? setting.language parent siblings) child := by
  induction children generalizing start with
  | nil =>
    rw [parts] at h
    exact .inl ⟨start, stop, h⟩
  | cons child rest ih =>
    have hstep : ∀ start : Nat, part ∈ parts setting points parent siblings start stop rest →
        (∃ start stop : Nat, part ∈ filler setting start stop) ∨
          ∃ other ∈ child :: rest, part =
            node setting points (other.slotIn? setting.language parent siblings) other := by
      intro start hm
      rcases ih hm with hfiller | ⟨other, hother, heq⟩
      · exact .inl hfiller
      · exact .inr ⟨other, List.mem_cons_of_mem _ hother, heq⟩
    rw [parts] at h
    split at h
    · rcases List.mem_append.1 h with hfiller | hm
      · exact .inl ⟨_, _, hfiller⟩
      · rcases List.mem_cons.1 hm with heq | hm
        · exact .inr ⟨child, List.mem_cons_self, heq⟩
        · exact hstep _ hm
    · exact hstep start h

/-- What holds of all nodes of the fillers and the children holds of all nodes of the parts. -/
theorem allParts_of_children {P : Label → List Outline → Prop}
    (hf : ∀ start stop : Nat, AllParts P (filler setting start stop))
    (hc : ∀ child ∈ children, ∀ slot, (node setting points slot child).All P) :
    AllParts P (parts setting points parent siblings start stop children) := by
  rw [allParts_iff]
  intro part hm
  rcases mem_parts hm with ⟨_, _, hfiller⟩ | ⟨child, hchild, rfl⟩
  · exact allParts_iff.1 (hf _ _) part hfiller
  · exact hc child hchild _

theorem eq_of_mem_filler {part : Outline} (h : part ∈ filler setting start stop) :
    part = leaf none (fillerKind setting ⟨start, stop⟩) ⟨start, stop⟩ := by
  rw [filler] at h
  split at h
  · cases h
  · exact List.mem_singleton.1 h

theorem detached_of_mem_parts {part : Outline}
    (h : part ∈ parts setting points parent siblings start stop children) :
    part.label.detached = false := by
  rcases mem_parts h with ⟨_, _, hfiller⟩ | ⟨child, -, rfl⟩
  · rw [eq_of_mem_filler hfiller]
    rfl
  · exact detached_node setting points _ child

theorem declares_of_mem_parts
    (hf : ∀ child ∈ children, child.head.extra = true → child.head.field = none) {part : Outline}
    (h : part ∈ parts setting points parent siblings start stop children) {slot : Slot}
    (hs : part.label.slot = some slot) : parent.declares slot = true := by
  rcases mem_parts h with ⟨_, _, hfiller⟩ | ⟨child, hm, rfl⟩
  · rw [eq_of_mem_filler hfiller] at hs
    cases hs
  · rw [slot_node (hf child hm)] at hs
    exact (Concrete.slotIn?_eq_some_iff.1 hs).2.2.2

theorem tiles_filler (setting : Setting) {first last : Nat} {rest : List Outline}
    (hle : start ≤ stop) (h : Tiles first stop rest last) :
    Tiles first start (filler setting start stop ++ rest) last := by
  rw [filler]
  by_cases hs : stop ≤ start
  · have heq : start = stop := Nat.le_antisymm hle hs
    rw [if_pos hs, heq]
    exact h
  · rw [if_neg hs]
    exact (Tiles.cons_attached rfl).2 ⟨rfl, h⟩

/-- The parts follow one another, and the children keep their places. -/
theorem tiles_parts (first : Nat) {after : List Outline} {last : Nat}
    (hb : Concrete.Between start stop children) (ha : Tiles first stop after last)
    (hc : Concrete.AllBelow (Concrete.Placed setting.source) children) :
    Tiles first start (parts setting points parent siblings start stop children ++ after) last := by
  induction children generalizing start with
  | nil =>
    rw [parts]
    exact tiles_filler setting hb.le ha
  | cons child rest ih =>
    obtain ⟨-, hrest⟩ := Concrete.allBelow_cons.1 hc
    rw [parts]
    split
    · rw [List.append_assoc]
      apply tiles_filler setting (hb.nested child List.mem_cons_self).1
      refine (Tiles.cons_attached (detached_node setting points _ child)).2 ⟨?_, ?_⟩
      · rw [span_node]
      · rw [span_node]
        exact ih hb.behind hrest
    · exact ih hb.skip hrest

variable {language : Language} {source : String} {span : Span}

theorem sound_leaf {slot : Option Slot} (hk : kind.isTerminal = true)
    (hl : ∀ other, kind.language? = some other → other = language)
    (hr : Utf8.isRange span.start span.stop source.toList = true) :
    (leaf slot kind span).All (Sound language source) := by
  refine all_node.2 ⟨⟨⟨hl, hr, fun _ => rfl, ?_, by simp, ?_, by simp, by simp⟩, by simp⟩, trivial⟩
  · intro hf
    rw [hk] at hf
    cases hf
  · intro decl hd
    rw [NodeKind.slots_of_isTerminal hk] at hd
    cases hd

theorem allParts_filler (setting : Setting) (language : Language)
    (hs : Utf8.isBoundary start setting.source.toList = true)
    (ht : Utf8.isBoundary stop setting.source.toList = true) :
    AllParts (Sound language setting.source) (filler setting start stop) := by
  rw [allParts_iff]
  intro part hm
  have hle : start ≤ stop := by
    rw [filler] at hm
    split at hm
    · cases hm
    · omega
  rw [eq_of_mem_filler hm]
  apply sound_leaf (isTerminal_fillerKind setting _)
  · intro other
    rw [fillerKind]
    split <;> simp [NodeKind.language?]
  · exact Utf8.isRange_iff.2 ⟨hle, hs, ht⟩

/-- A node that is no variation point is sound when its parts are children that fill it and its
slots hold as many as they may. -/
theorem sound_of_opens {slot : Option Slot} {detached : Bool} {parts : List Outline}
    (ho : Opens language kind children)
    (hr : Utf8.isRange span.start span.stop source.toList = true)
    (hd : ∀ part ∈ parts, part.label.detached = false)
    (ht : Tiles span.start span.start parts span.stop)
    (hs : ∀ part ∈ parts, ∀ slot, part.label.slot = some slot → kind.declares slot = true)
    (ha : ∀ decl ∈ kind.slots, decl.rest = false → decl.arity.accepts
      (parts.countP fun part => part.label.slot == some decl.slot) = true) :
    Sound language source ⟨kind, slot, span, detached⟩ parts := by
  refine ⟨⟨ho.ofLanguage, hr, ?_, fun _ => ht, hs, ?_, ?_, ?_⟩, fun _ _ hk => absurd hk ho.plain⟩
  · intro hterminal
    rw [show kind.isTerminal = false from ho.structured] at hterminal
    cases hterminal
  · intro decl hm
    cases hrest : decl.rest with
    | true =>
      rw [NodeKind.arity_of_rest hm hrest]
      rfl
    | false =>
      have hcount : (parts.countP fun part => part.label.placeIn kind == some decl.slot) =
          parts.countP fun part => part.label.slot == some decl.slot := by
        apply List.countP_congr
        intro part _
        rw [beq_iff_eq, beq_iff_eq, Label.placeIn, NodeKind.place_eq_some_iff hm hrest]
      rw [hcount]
      exact ha decl hm hrest
  · intro part hm h
    rw [hd part hm] at h
    cases h
  · intro part hm h
    rw [hd part hm] at h
    cases h

/-- A node whose children are translated is sound. Text may be left after the children. -/
theorem sound_parts (setting : Setting) (points : Bool) (slot : Option Slot) (detached : Bool)
    {last : Nat} {after : List Outline}
    (ho : Opens setting.language kind children)
    (hr : Utf8.isRange start last setting.source.toList = true)
    (hb : Concrete.Between start stop children)
    (hc : Concrete.AllBelow (Concrete.Placed setting.source) children)
    (hafter : ∀ part ∈ after, part.label.slot = none ∧ part.label.detached = false)
    (ht : Tiles start stop after last) :
    Sound setting.language setting.source ⟨kind, slot, ⟨start, last⟩, detached⟩
      (parts setting points kind children start stop children ++ after) := by
  have hf : ∀ child ∈ children, child.head.extra = true → child.head.field = none :=
    fun child hm => (hc.of_mem child hm).here.fieldless
  apply sound_of_opens ho hr
  · intro part hm
    rcases List.mem_append.1 hm with hm | hm
    · exact detached_of_mem_parts hm
    · exact (hafter part hm).2
  · exact tiles_parts start hb ht hc
  · intro part hm other hs
    rcases List.mem_append.1 hm with hm | hm
    · exact declares_of_mem_parts hf hm hs
    · rw [(hafter part hm).1] at hs
      cases hs
  · intro decl hm hrest
    have hnone : after.countP (fun part => part.label.slot == some decl.slot) = 0 := by
      rw [List.countP_eq_zero]
      intro part hpart
      rw [(hafter part hpart).1]
      simp
    have hfit := ho.fitting
    rw [accepts, List.all_eq_true] at hfit
    have hdecl := hfit decl hm
    rw [hrest, Bool.false_or] at hdecl
    rw [List.countP_append, hnone, countP_parts decl.slot hf, Nat.add_zero]
    exact hdecl

theorem sound_children (setting : Setting) (points : Bool) (slot : Option Slot) (detached : Bool)
    (ho : Opens setting.language kind children)
    (hr : Utf8.isRange start stop setting.source.toList = true)
    (hb : Concrete.Between start stop children)
    (hc : Concrete.AllBelow (Concrete.Placed setting.source) children) :
    Sound setting.language setting.source ⟨kind, slot, ⟨start, stop⟩, detached⟩
      (parts setting points kind children start stop children) := by
  have hend : Tiles start stop [] stop := rfl
  have hsound := sound_parts setting points slot detached ho hr hb hc (List.forall_mem_nil _) hend
  rwa [List.append_nil] at hsound

theorem all_errorRegion (points : Bool) {slot : Option Slot} {attempt : List Outline}
    (hr : Utf8.isRange span.start span.stop source.toList = true)
    (hs : Sound language source ⟨.special .parseError, some .alternatives, span, true⟩ attempt)
    (ha : AllParts (Sound language source) attempt) :
    (errorRegion points slot span attempt).All (Sound language source) := by
  have hleaf : ∀ slot, (leaf slot (.special .errorTree) span).All (Sound language source) :=
    fun slot => sound_leaf rfl (NodeKind.belongsTo_special _ _) hr
  rw [errorRegion]
  cases points with
  | false => exact hleaf slot
  | true =>
    have hterminal : NodeKind.isTerminal (.special .variationPoint) = false := rfl
    rw [if_pos rfl]
    refine all_node.2 ⟨⟨⟨NodeKind.belongsTo_special _ _, hr, ?_, ?_, ?_, ?_, ?_, ?_⟩, ?_⟩,
      hleaf _, all_node.2 ⟨hs, ha⟩, trivial⟩
    · intro h
      rw [hterminal] at h
      cases h
    · intro _
      exact (Tiles.cons_attached rfl).2 ⟨rfl, (Tiles.cons_detached rfl).2 ⟨rfl, Nat.le_refl _, rfl⟩⟩
    · intro part hm other hslot
      rcases List.mem_cons.1 hm with rfl | hm
      · cases hslot
        rfl
      · rcases List.mem_singleton.1 hm with rfl
        cases hslot
        rfl
    · simp [NodeKind.slots, NodeKind.production, SpecialKind.production, Production.node,
        SlotDecl.one, SlotDecl.many, leaf, Label.placeIn, Arity.accepts]
    · simp [leaf]
    · simp [leaf, NodeKind.isTerminal, NodeKind.production, SpecialKind.production,
        Production.node]
    · simp [leaf]

mutual

theorem all_node (points : Bool) (slot : Option Slot) :
    ∀ tree : Concrete, tree.WellFormed setting.source →
      (node setting points slot tree).All (Sound setting.language setting.source)
  | .node head children, h => by
    obtain ⟨hplaced, hbelow⟩ := Concrete.all_node.1 h
    obtain ⟨-, hstart, hstop⟩ := Utf8.isRange_iff.1 hplaced.range
    have hall := fun points parent => allParts_parts points parent children
      children hbelow hplaced.between hstart hstop
    rw [node]
    cases hv : verdict setting.language slot (.node head children) with
    | single slot' kind =>
      obtain ⟨hk, hl, -⟩ := verdict_single hv
      exact sound_leaf hk hl hplaced.range
    | error =>
      exact all_errorRegion points hplaced.range
        (sound_children setting false _ true (opens_parseError setting.language children)
          hplaced.range hplaced.between hbelow) (hall false _)
    | structured kind =>
      exact Outline.all_node.2 ⟨sound_children setting points slot false (opens_of_verdict hv)
        hplaced.range hplaced.between hbelow, hall points kind⟩

theorem allParts_parts (points : Bool) (parent : NodeKind) (siblings : List Concrete)
    {start stop : Nat} :
    ∀ children : List Concrete, Concrete.AllBelow (Concrete.Placed setting.source) children →
      Concrete.Between start stop children → Utf8.isBoundary start setting.source.toList = true →
      Utf8.isBoundary stop setting.source.toList = true →
        AllParts (Sound setting.language setting.source)
          (parts setting points parent siblings start stop children)
  | [], _, _, hs, ht => by
    rw [parts]
    exact allParts_filler setting _ hs ht
  | child :: rest, hc, hb, hs, ht => by
    obtain ⟨hchild, hrest⟩ := Concrete.allBelow_cons.1 hc
    obtain ⟨-, hstart, hstop⟩ := Utf8.isRange_iff.1 hchild.here.range
    rw [parts]
    split
    · rw [allParts_append, AllParts]
      exact ⟨allParts_filler setting _ hs hstart, all_node points _ child hchild,
        allParts_parts points parent siblings rest hrest hb.behind hstop ht⟩
    · exact allParts_parts points parent siblings rest hrest hb.skip hs ht

end

theorem label_of_mem_filler {part : Outline} (hm : part ∈ filler setting start stop) :
    part.label.slot = none ∧ part.label.detached = false := by
  rw [eq_of_mem_filler hm]
  exact ⟨rfl, rfl⟩

/-- A parse error is sound around children that were given no slot: it has no slot but the one that
takes the rest. -/
theorem sound_slotless {slot : Option Slot} {detached : Bool} {parts : List Outline}
    (hr : Utf8.isRange span.start span.stop source.toList = true)
    (hp : ∀ part ∈ parts, part.label.slot = none ∧ part.label.detached = false)
    (ht : Tiles span.start span.start parts span.stop) :
    Sound language source ⟨.special .parseError, slot, span, detached⟩ parts := by
  apply sound_of_opens (opens_parseError language []) hr
  · exact fun part hm => (hp part hm).2
  · exact ht
  · intro part hm other hs
    rw [(hp part hm).1] at hs
    cases hs
  · intro decl hm hrest
    rcases List.mem_singleton.1 hm with rfl
    cases hrest

/-- The translation of a well-formed concrete tree stands for a tree of the source. -/
theorem whole_root (setting : Setting) (points : Bool) {tree : Concrete}
    (h : tree.WellFormed setting.source) :
    Whole setting.language setting.source (root setting points tree) := by
  have hplaced := h.here
  have hopens := opens_rootKind setting.language tree
  have hbetween := hplaced.between.from_zero
  have hzero := Utf8.isBoundary_zero setting.source.toList
  have hstop := (Utf8.isRange_iff.1 hplaced.range).2.2
  have hsize : Utf8.isBoundary setting.source.utf8ByteSize setting.source.toList = true := by
    rw [← Utf8.size_toList]
    exact Utf8.isBoundary_size _
  have hrange := Utf8.isRange_iff.2 ⟨Nat.zero_le _, hzero, hsize⟩
  have hregion := Utf8.isRange_iff.2 ⟨Nat.zero_le _, hzero, hstop⟩
  have hparts := fun points parent => allParts_parts points parent tree.children
    tree.children h.below hbetween hzero hstop
  have hfiller := allParts_filler setting setting.language hstop hsize
  have htiles : Tiles 0 tree.head.span.stop
      (filler setting tree.head.span.stop setting.source.utf8ByteSize)
      setting.source.utf8ByteSize := by
    have hend : Tiles 0 setting.source.utf8ByteSize [] setting.source.utf8ByteSize := rfl
    have hall := tiles_filler setting hplaced.le_size hend
    rwa [List.append_nil] at hall
  refine ⟨?_, hopens.structured, rfl, rfl⟩
  rw [root]
  cases he : tree.head.error with
  | false =>
    have hsound := sound_parts setting points none false hopens hrange hbetween h.below
      (fun _ => label_of_mem_filler) htiles
    exact Outline.all_node.2 ⟨hsound, allParts_append.2 ⟨hparts points _, hfiller⟩⟩
  | true =>
    have hattempt := sound_children setting false (some .alternatives) true
      (opens_parseError setting.language tree.children) hregion hbetween h.below
    have hbody : (errorRegion points none ⟨0, tree.head.span.stop⟩
        (below setting false (.special .parseError) 0 tree)).All
          (Sound setting.language setting.source) :=
      all_errorRegion points hregion hattempt (hparts false _)
    have hkind : rootKind setting.language tree = .special .parseError := by
      rw [rootKind, Concrete.Head.kind?_of_error he]
    rw [hkind]
    refine Outline.all_node.2 ⟨sound_slotless hrange ?_ ?_, hbody, hfiller⟩
    · refine List.forall_mem_cons.2 ⟨?_, fun _ => label_of_mem_filler⟩
      cases points <;> exact ⟨rfl, rfl⟩
    · cases points <;> exact (Tiles.cons_attached rfl).2 ⟨rfl, htiles⟩

end Translation

end CodeTree
