import CodeTree.Proofs.BuilderSource
import CodeTree.Proofs.LoweringTranslation

/-!
# Lowering keeps the source

Lowering adds the source to the builder, byte for byte, for every concrete tree whose offsets are
boundaries (`source_run_events`): nothing is asked of the order of the nodes. Every part of the
lowering goes from an offset to a later one, and the events it emits add the text between the two.
This is `Covers`; parts that follow one another cover what both cover.
-/

namespace CodeTree

namespace Lowering

open Builder

variable {setting : Setting}

/-- What is emitted from one offset to another. -/
structure Covers (setting : Setting) (pos : Nat) (emitted : Emitted) : Prop where
  range : Utf8.isRange pos emitted.pos setting.source.toList = true
  adds : ∀ kind, Adds kind (textAt setting.source ⟨pos, emitted.pos⟩) emitted.events

theorem Covers.boundary {pos : Nat} {emitted : Emitted} (h : Covers setting pos emitted) :
    Utf8.isBoundary emitted.pos setting.source.toList = true := (Utf8.isRange_iff.1 h.range).2.2

theorem isRange_endOf {pos stop : Nat} (hp : Utf8.isBoundary pos setting.source.toList = true)
    (hs : Utf8.isBoundary stop setting.source.toList = true) :
    Utf8.isRange pos (endOf setting pos stop) setting.source.toList = true := by
  have hsize := Utf8.le_size_of_isBoundary hs
  rw [Utf8.size_toList] at hsize
  have hend : endOf setting pos stop = max pos stop := by rw [endOf, Nat.min_eq_left hsize]
  rw [hend, Utf8.isRange_iff]
  refine ⟨Nat.le_max_left _ _, hp, ?_⟩
  rcases Nat.le_total pos stop with hle | hle
  · rw [Nat.max_eq_right hle]
    exact hs
  · rw [Nat.max_eq_left hle]
    exact hp

variable {pos stop : Nat}

theorem covers_nil (hp : Utf8.isBoundary pos setting.source.toList = true) :
    Covers setting pos ⟨[], pos⟩ := by
  refine ⟨Utf8.isRange_iff.2 ⟨Nat.le_refl _, hp, hp⟩, fun kind => ?_⟩
  have hempty : textAt setting.source ⟨pos, pos⟩ = "" := by
    rw [textAt, Utf8.slice_self hp]
  rw [hempty]
  exact adds_nil kind

theorem Covers.append {first second : Emitted} (h : Covers setting pos first)
    (h' : Covers setting first.pos second) :
    Covers setting pos ⟨first.events ++ second.events, second.pos⟩ := by
  obtain ⟨hle, hstart, -⟩ := Utf8.isRange_iff.1 h.range
  obtain ⟨hle', -, hstop⟩ := Utf8.isRange_iff.1 h'.range
  refine ⟨Utf8.isRange_iff.2 ⟨Nat.le_trans hle hle', hstart, hstop⟩, fun kind => ?_⟩
  have hjoin : textAt setting.source ⟨pos, first.pos⟩ ++
      textAt setting.source ⟨first.pos, second.pos⟩ =
        textAt setting.source ⟨pos, second.pos⟩ := by
    unfold textAt
    rw [← String.ofList_append, Utf8.slice_append_slice h.range h'.range]
  rw [← hjoin]
  exact (h.adds kind).append (h'.adds kind)

theorem covers_single (hp : Utf8.isBoundary pos setting.source.toList = true)
    (hs : Utf8.isBoundary stop setting.source.toList = true) (slot : Option Slot)
    (kind : NodeKind) :
    Covers setting pos ⟨[.leaf slot kind (textOf setting pos stop)], endOf setting pos stop⟩ :=
  ⟨isRange_endOf hp hs, fun parent => adds_leaf parent slot kind _⟩

theorem covers_gap (hp : Utf8.isBoundary pos setting.source.toList = true)
    (hs : Utf8.isBoundary stop setting.source.toList = true) :
    Covers setting pos (gap setting pos stop) := by
  rw [gap]
  split
  · exact covers_nil hp
  · simp only
    split
    · exact covers_single hp hs none _
    · exact covers_single hp hs none _

theorem Covers.thenGap {emitted : Emitted} (h : Covers setting pos emitted)
    (hs : Utf8.isBoundary stop setting.source.toList = true) :
    Covers setting pos (emitted.thenGap setting stop) := h.append (covers_gap h.boundary hs)

theorem Covers.node {emitted : Emitted} (h : Covers setting pos emitted) (slot : Option Slot)
    (kind : NodeKind) :
    Covers setting pos ⟨[.start slot kind] ++ emitted.events ++ [.finish], emitted.pos⟩ :=
  ⟨h.range, fun parent => (h.adds kind).node parent slot⟩

/-- An error region covers its text once, also when an attempt to structure it is kept. -/
theorem covers_errorRegion (points : Bool) (slot : Option Slot) {below : Below}
    (hp : Utf8.isBoundary pos setting.source.toList = true)
    (hs : Utf8.isBoundary stop setting.source.toList = true)
    (hb : Covers setting pos (below false (.special .parseError) pos)) :
    Covers setting pos (errorRegion setting points pos slot stop below) := by
  have hlast : Utf8.isBoundary (max stop pos) setting.source.toList = true := by
    rcases Nat.le_total stop pos with hle | hle
    · rw [Nat.max_eq_right hle]
      exact hp
    · rw [Nat.max_eq_left hle]
      exact hs
  have hsize := Utf8.le_size_of_isBoundary hlast
  rw [Utf8.size_toList] at hsize
  have hend : endOf setting pos (max stop pos) = max stop pos :=
    endOf_eq (Nat.le_max_right _ _) hsize
  have hraw : ∀ slot, Covers setting pos
      ⟨[Event.error slot (textOf setting pos (max stop pos))],
        endOf setting pos (max stop pos)⟩ :=
    fun slot => covers_single hp hlast slot (.special .errorTree)
  rw [errorRegion]
  cases points with
  | false => exact hraw slot
  | true =>
    have hbody := ((hb.thenGap hs).thenGap hlast).adds (.special .parseError)
    have hpoint := ((hraw (some .raw)).adds (.special .variationPoint)).append hbody.alternative
    rw [String.append_empty] at hpoint
    have hrange := isRange_endOf hp hlast
    simp only [hend] at hrange hpoint
    refine ⟨hrange, fun parent => ?_⟩
    have hnode := hpoint.node parent slot
    simpa [Event.error] using hnode

theorem covers_covered {points : Bool} {slot : Option Slot} {node : Concrete} {below : Below}
    (hp : Utf8.isBoundary pos setting.source.toList = true)
    (hs : Utf8.isBoundary node.head.span.stop setting.source.toList = true)
    (hb : ∀ points parent, Covers setting pos (below points parent pos)) :
    Covers setting pos (covered setting points pos slot node below) := by
  rw [covered]
  simp only [leafEvent_eq]
  split
  · exact covers_single hp hs none _
  split
  · exact covers_errorRegion points slot hp hs (hb false _)
  split
  · exact covers_single hp hs slot _
  split
  · exact covers_single hp hs none _
  split
  · exact covers_single hp hs slot _
  split
  · exact covers_single hp hs slot _
  · exact ((hb points _).thenGap hs).node slot _

mutual

theorem covers_lowerNode (points : Bool) (pos : Nat) (slot : Option Slot) :
    ∀ node : Concrete, node.OnBoundaries setting.source →
      Utf8.isBoundary pos setting.source.toList = true →
        Covers setting pos (lowerNode setting points pos slot node)
  | .node head children, h, hp => by
    obtain ⟨⟨hstart, hstop⟩, hbelow⟩ := Concrete.all_node.1 h
    rw [lowerNode]
    split
    · exact covers_nil hp
    · have hbefore := covers_gap hp hstart
      refine hbefore.append (covers_covered hbefore.boundary hstop fun points parent => ?_)
      exact covers_lowerNodes points _ parent (namedFields children) children hbelow
        hbefore.boundary

theorem covers_lowerNodes (points : Bool) (pos : Nat) (parent : NodeKind) (fields : List String) :
    ∀ children : List Concrete,
      Concrete.AllBelow (fun head _ =>
        Utf8.isBoundary head.span.start setting.source.toList = true ∧
          Utf8.isBoundary head.span.stop setting.source.toList = true) children →
      Utf8.isBoundary pos setting.source.toList = true →
        Covers setting pos (lowerNodes setting points pos parent fields children)
  | [], _, hp => by
    rw [lowerNodes]
    exact covers_nil hp
  | child :: rest, h, hp => by
    obtain ⟨hchild, hrest⟩ := Concrete.allBelow_cons.1 h
    have hfirst := covers_lowerNode points pos (slotOf? setting.language parent fields child) child
      hchild hp
    rw [lowerNodes]
    exact hfirst.append (covers_lowerNodes points _ parent fields rest hrest hfirst.boundary)

end

theorem Covers.thenGap_end {emitted : Emitted} (h : Covers setting pos emitted) :
    (emitted.thenGap setting setting.source.utf8ByteSize).pos = setting.source.utf8ByteSize := by
  have hle := Utf8.le_size_of_isBoundary h.boundary
  rw [Utf8.size_toList] at hle
  rw [Emitted.thenGap, gap]
  by_cases hend : setting.source.utf8ByteSize ≤ emitted.pos
  · rw [if_pos hend]
    exact Nat.le_antisymm hle hend
  · rw [if_neg hend]
    exact endOf_eq hle (Nat.le_refl _)

/-- The events of a concrete tree add the whole source. -/
theorem source_run_events (setting : Setting) (points : Bool) {root : Concrete}
    (h : root.OnBoundaries setting.source) :
    ((Builder.new setting.language).run (events setting points root)).source = setting.source := by
  have hzero := Utf8.isBoundary_zero setting.source.toList
  have hsize : Utf8.isBoundary setting.source.utf8ByteSize setting.source.toList = true := by
    rw [← Utf8.size_toList]
    exact Utf8.isBoundary_size _
  have hstop := h.here.2
  have hbelow := fun points parent => covers_lowerNodes points 0 parent (namedFields root.children)
    root.children h.below hzero
  have hwhole : ∀ (kind : NodeKind) (body : Emitted), Covers setting 0 body →
      ((Builder.new setting.language).run ([.start none kind] ++
        (body.thenGap setting setting.source.utf8ByteSize).events ++ [.finish])).source =
          setting.source := by
    intro kind body hbody
    have hadds := (hbody.thenGap hsize).adds kind
    rw [hbody.thenGap_end] at hadds
    rw [source_run_new setting.language none hadds, textAt_zero, textBefore_size]
  rw [events]
  apply hwhole
  split
  · exact covers_errorRegion points none hzero hstop (hbelow false _)
  · exact (hbelow points _).thenGap hstop

end Lowering

end CodeTree
