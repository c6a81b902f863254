import CodeTree.Proofs.Translation
import CodeTree.Proofs.WellFormed
import Mathlib.Data.Option.Basic

/-!
# Lowering follows the translation

Lowering a well-formed concrete tree emits the events of its translation (`events_eq`). What it
asks of single nodes is what they stand for: their kinds (`kindOf?_eq`), their slots (`slotOf?_eq`)
and whether they are comments or spell symbols (`isComment_iff`, `isSymbolLike_iff`). The moving
offset never matters: the nodes come in order, so where a node starts the offset is at or before
its start, and where it ends the offset is at its end. With that, counting the children behind the
offset (`fits`) is counting all that cover text (`accepts`).
-/

namespace CodeTree

namespace Lowering

open Outline

variable {setting : Setting}

theorem endOf_eq {pos stop : Nat} (hle : pos ≤ stop)
    (hs : stop ≤ setting.source.utf8ByteSize) : endOf setting pos stop = stop := by
  rw [endOf, Nat.min_eq_left hs, Nat.max_eq_right hle]

theorem textOf_eq {pos stop : Nat} (hle : pos ≤ stop)
    (hs : stop ≤ setting.source.utf8ByteSize) :
    textOf setting pos stop = textAt setting.source ⟨pos, stop⟩ := by
  rw [textOf, endOf_eq hle hs, textAt]

theorem occursIn_iff {piece text : List Char} : occursIn piece text = true ↔ piece <:+: text := by
  induction text with
  | nil => rw [occursIn, List.isEmpty_iff, List.infix_nil]
  | cons c rest ih =>
    rw [occursIn, Bool.or_eq_true, List.isPrefixOf_iff_prefix, ih, List.infix_cons_iff]

theorem isComment_iff {head : Concrete.Head} : isComment head = true ↔ head.IsComment := by
  rw [isComment, Bool.and_eq_true, occursIn_iff, Concrete.Head.IsComment]

theorem kindOf?_eq (language : Language) (head : Concrete.Head) :
    kindOf? language head = head.kind? language := by
  apply Option.ext
  intro kind
  rw [Concrete.Head.kind?_eq_some_iff, kindOf?, ← NodeKind.resolve?_eq_some_iff]
  cases head.named <;> cases head.error <;> simp

theorem isSymbolLike_iff {language : Language} {node : Concrete} :
    isSymbolLike language node = true ↔ node.SpellsSymbol language := by
  rw [Concrete.SpellsSymbol, ← kindOf?_eq, isSymbolLike, kindOf?]
  cases node.head.named <;> cases node.head.error <;> simp [and_assoc]

theorem slotOf?_eq_some_iff {language : Language} {parent : NodeKind} {fields : List String}
    {child : Concrete} {slot : Slot} :
    slotOf? language parent fields child = some slot ↔
      child.head.field = some slot.text ∧
        (child.head.named = true ∨ slot.text ∉ fields) ∧
        ¬child.SpellsSymbol language ∧ parent.declares slot = true := by
  simp only [slotOf?, Option.bind_eq_bind, Option.bind_eq_some_iff, Option.guard_eq_some',
    Option.pure_def, Option.some.injEq]
  constructor
  · rintro ⟨field, hfield, _, hnamed, _, hsymbol, named, htext, _, hd, rfl⟩
    obtain rfl := Slot.eq_of_ofText? htext
    exact ⟨hfield, by simpa using hnamed, by simpa [← isSymbolLike_iff] using hsymbol, hd⟩
  · rintro ⟨hfield, hnamed, hsymbol, hd⟩
    exact ⟨slot.text, hfield, (), by simpa using hnamed, (),
      by simpa [← isSymbolLike_iff] using hsymbol, slot, Slot.ofText?_text slot, (), hd, rfl⟩

theorem mem_namedFields_iff {siblings : List Concrete} {field : String} :
    field ∈ namedFields siblings ↔
      ∃ sibling ∈ siblings, sibling.head.named = true ∧ sibling.head.field = some field := by
  simp [namedFields]

theorem slotOf?_eq (language : Language) (parent : NodeKind) (siblings : List Concrete)
    (child : Concrete) : slotOf? language parent (namedFields siblings) child =
      child.slotIn? language parent siblings := by
  apply Option.ext
  intro slot
  rw [slotOf?_eq_some_iff, Concrete.slotIn?_eq_some_iff, mem_namedFields_iff, Concrete.Punctuates]
  constructor
  · rintro ⟨hfield, hnamed, hsymbol, hd⟩
    refine ⟨hsymbol, ?_, hfield, hd⟩
    rintro ⟨hunnamed, hsibling⟩
    rw [hfield] at hsibling
    simp [hunnamed, hsibling] at hnamed
  · rintro ⟨hsymbol, hplain, hfield, hd⟩
    refine ⟨hfield, ?_, hsymbol, hd⟩
    rw [hfield] at hplain
    by_cases hnamed : child.head.named = true
    · exact .inl hnamed
    · exact .inr fun hsibling => hplain ⟨by simpa using hnamed, hsibling⟩

theorem leafEvent_eq (slot : Option Slot) (head : Concrete.Head) (text : String) :
    leafEvent setting slot head text =
      .leaf slot (Translation.leafKind setting.language head) text := by
  rw [leafEvent, Translation.leafKind]
  split
  · rfl
  · rw [kindOf?_eq]
    cases head.kind? setting.language <;> rfl

/-- When all children that cover text lie behind the offset, the offset does not matter. -/
theorem fits_eq (language : Language) {pos : Nat} (kind : NodeKind) {children : List Concrete}
    (h : ∀ child ∈ children, child.head.isEmpty = false → pos < child.head.span.stop) :
    fits language pos kind children = Translation.accepts language kind children := by
  rw [fits, Translation.accepts]
  congr 1
  funext decl
  rw [List.countP_filter]
  congr 2
  apply List.countP_congr
  intro child hm
  cases he : child.head.isEmpty with
  | true => simp [Concrete.Head.covers_iff, he]
  | false => simp [Concrete.Head.covers_iff, he, h child hm he, slotOf?_eq]

theorem openedKind_eq {pos : Nat} (kind : NodeKind) {children : List Concrete}
    (h : ∀ child ∈ children, child.head.isEmpty = false → pos < child.head.span.stop) :
    openedKind setting pos kind children =
      Translation.structuredKind setting.language kind children := by
  rw [openedKind, Translation.structuredKind, fits_eq setting.language kind h]

theorem rootKind_eq {root : Concrete}
    (h : ∀ child ∈ root.children, child.head.isEmpty = false → 0 < child.head.span.stop) :
    rootKind setting root = Translation.rootKind setting.language root := by
  rw [rootKind, Translation.rootKind, kindOf?_eq]
  cases root.head.kind? setting.language with
  | none => rfl
  | some kind => simp only [openedKind_eq kind h]

/-- What becomes of a node that covers text is what the translation says. -/
theorem covered_eq_verdict (setting : Setting) (points : Bool) {pos : Nat} (slot : Option Slot)
    (node : Concrete) (below : Below)
    (h : ∀ child ∈ node.children, child.head.isEmpty = false → pos < child.head.span.stop) :
    covered setting points pos slot node below =
      match Translation.verdict setting.language slot node with
      | .single slot kind =>
        ⟨[.leaf slot kind (textOf setting pos node.head.span.stop)],
          endOf setting pos node.head.span.stop⟩
      | .error => errorRegion setting points pos slot node.head.span.stop below
      | .structured kind => structured setting points pos slot kind node.head.span.stop below := by
  rw [covered, Translation.verdict]
  simp only [isComment_iff, isSymbolLike_iff, kindOf?_eq]
  by_cases hc : node.head.IsComment
  · simp only [hc, if_true]
    rfl
  by_cases he : node.head.error = true
  · simp only [hc, he, if_true]
    rfl
  by_cases hn : node.children.isEmpty = true
  · simp only [hc, he, hn, if_true, leafEvent_eq]
    rfl
  by_cases hs : node.SpellsSymbol setting.language
  · simp only [hc, he, hn, hs, if_true]
    rfl
  simp only [hc, he, hn, hs]
  cases node.head.kind? setting.language with
  | none => rfl
  | some kind =>
    cases ht : kind.isTerminal with
    | true => simp [ht]
    | false => simp [ht, openedKind_eq kind h]

theorem events_leaf_eq (source : String) (slot : Option Slot) {kind : NodeKind} (span : Span)
    (h : kind.isTerminal = true) :
    (Translation.leaf slot kind span).events source = [.leaf slot kind (textAt source span)] := by
  rw [Translation.leaf, events_leaf source [] h]

theorem fillerKind_eq (setting : Setting) (span : Span) :
    Translation.fillerKind setting span =
      if Blank.isBlank (textAt setting.source span) then .special .innerWhitespace
      else .special .blot := rfl

theorem gap_eq {pos stop : Nat} (hle : pos ≤ stop) (hs : stop ≤ setting.source.utf8ByteSize) :
    gap setting pos stop =
      ⟨eventsAll setting.source (Translation.filler setting pos stop), stop⟩ := by
  rw [gap, Translation.filler]
  by_cases h : stop ≤ pos
  · have heq : pos = stop := Nat.le_antisymm hle h
    rw [if_pos h, if_pos h, eventsAll_nil, heq]
  · have hleaf := events_leaf_eq setting.source none ⟨pos, stop⟩
      (Translation.isTerminal_fillerKind setting ⟨pos, stop⟩)
    rw [if_neg h, if_neg h, eventsAll_cons, eventsAll_nil, List.append_nil, hleaf, textOf_eq hle hs,
      endOf_eq hle hs, fillerKind_eq]
    simp only
    split <;> rfl

theorem thenGap_eq {events : List Event} {pos stop : Nat} (hle : pos ≤ stop)
    (hs : stop ≤ setting.source.utf8ByteSize) :
    Emitted.thenGap setting ⟨events, pos⟩ stop =
      ⟨events ++ eventsAll setting.source (Translation.filler setting pos stop), stop⟩ := by
  rw [Emitted.thenGap, gap_eq hle hs]

theorem thenGap_self (events : List Event) (pos : Nat) :
    Emitted.thenGap setting ⟨events, pos⟩ pos = ⟨events, pos⟩ := by
  rw [Emitted.thenGap, gap, if_pos (Nat.le_refl pos)]
  simp

/-- An error region, when its children are lowered as they are translated. -/
theorem errorRegion_eq (points : Bool) {pos stop : Nat} (slot : Option Slot) (below : Below)
    {attempt : List Outline} (hle : pos ≤ stop) (hs : stop ≤ setting.source.utf8ByteSize)
    (h : (below false (.special .parseError) pos).thenGap setting stop =
      ⟨eventsAll setting.source attempt, stop⟩) :
    errorRegion setting points pos slot stop below =
      ⟨(Translation.errorRegion points slot ⟨pos, stop⟩ attempt).events setting.source, stop⟩ := by
  rw [errorRegion, Nat.max_eq_left hle]
  simp only [textOf_eq hle hs, endOf_eq hle hs]
  cases points with
  | false =>
    rw [Translation.errorRegion, if_neg (by simp), if_neg (by simp), events_leaf_eq _ _ _ rfl]
    rfl
  | true =>
    have hterminal : NodeKind.isTerminal (.special .errorTree) = true := rfl
    have hraw := events_leaf_eq setting.source (some .raw) ⟨pos, stop⟩ hterminal
    rw [if_pos rfl, h, thenGap_self, Translation.errorRegion, if_pos rfl,
      events_structured _ _ _ rfl, eventsAll_cons, eventsAll_cons, eventsAll_nil, hraw,
      events_structured _ _ _ rfl]
    simp [Label.opening, Event.error]

mutual

/-- A node that covers text is emitted as it is translated, after the text before it. -/
theorem lowerNode_eq (points : Bool) (pos : Nat) (slot : Option Slot) :
    ∀ node : Concrete, node.WellFormed setting.source → node.head.isEmpty = false →
      pos ≤ node.head.span.start →
        lowerNode setting points pos slot node =
          ⟨eventsAll setting.source (Translation.filler setting pos node.head.span.start) ++
            (Translation.node setting points slot node).events setting.source,
            node.head.span.stop⟩
  | .node head children, h, he, hp => by
    obtain ⟨hplaced, hbelow⟩ := Concrete.all_node.1 h
    have hlt : head.span.start < head.span.stop := hplaced.start_lt he
    have hle : head.span.start ≤ head.span.stop := hplaced.le
    have hsize : head.span.stop ≤ setting.source.utf8ByteSize := hplaced.le_size
    have hpos : pos ≤ head.span.start := hp
    have hahead : ∀ child ∈ children, child.head.isEmpty = false →
        head.span.start < child.head.span.stop := by
      intro child hm hc
      have hstart := (hplaced.nested child hm).1
      have hchild := (hbelow.of_mem child hm).here.start_lt hc
      omega
    have hskip : ¬((head.isEmpty || decide (head.span.stop ≤ pos)) = true) := by
      have hb : head.isEmpty = false := he
      simp only [hb, Bool.false_or, decide_eq_true_eq]
      omega
    have hinner := fun points parent => lowerNodes_eq points parent children
      head.span.start head.span.stop children hbelow hplaced.between hsize
    rw [lowerNode, if_neg hskip]
    have hcovered := covered_eq_verdict setting points slot (.node head children)
      (fun points parent pos =>
        lowerNodes setting points pos parent (namedFields children) children) hahead
    simp only [gap_eq hpos (Nat.le_trans hle hsize), hcovered]
    rw [Translation.node]
    cases hv : Translation.verdict setting.language slot (.node head children) with
    | single slot' kind =>
      have hleaf := events_leaf_eq setting.source slot' head.span
        (Translation.verdict_single hv).1
      simp only [hleaf, textOf_eq hle hsize, endOf_eq hle hsize, Concrete.head]
    | error =>
      simp only [Concrete.head]
      rw [errorRegion_eq points slot (fun points parent pos =>
        lowerNodes setting points pos parent (namedFields children) children) hle hsize
        (hinner false (.special .parseError))]
    | structured kind =>
      have hkind := (Translation.opens_of_verdict hv).structured
      have hevents := events_structured setting.source ⟨kind, slot, head.span, false⟩
        (Translation.parts setting points kind children head.span.start head.span.stop children)
        hkind
      simp only [structured, Concrete.head, hinner points kind, hevents, Label.opening]
      simp

theorem lowerNodes_eq (points : Bool) (parent : NodeKind) (siblings : List Concrete)
    (start stop : Nat) : ∀ children : List Concrete,
      Concrete.AllBelow (Concrete.Placed setting.source) children →
      Concrete.Between start stop children → stop ≤ setting.source.utf8ByteSize →
        (lowerNodes setting points start parent (namedFields siblings) children).thenGap setting
            stop =
          ⟨eventsAll setting.source
            (Translation.parts setting points parent siblings start stop children), stop⟩
  | [], _, hb, hs => by
    rw [lowerNodes, Translation.parts, thenGap_eq hb.le hs, List.nil_append]
  | child :: rest, h, hb, hs => by
    obtain ⟨hchild, hrest⟩ := Concrete.allBelow_cons.1 h
    rw [lowerNodes, Translation.parts, slotOf?_eq]
    by_cases hcovers : child.head.Covers
    · have hrec := lowerNodes_eq points parent siblings child.head.span.stop stop rest hrest
        hb.behind hs
      have hstart := (hb.nested child List.mem_cons_self).1
      have he := Concrete.Head.covers_iff.1 hcovers
      rw [if_pos hcovers, lowerNode_eq points start _ child hchild he hstart]
      simp only [Emitted.thenGap] at hrec ⊢
      rw [Emitted.mk.injEq] at hrec ⊢
      refine ⟨?_, hrec.2⟩
      rw [List.append_assoc, hrec.1]
      simp
    · have he := Concrete.Head.not_covers_iff.1 hcovers
      have hnone : lowerNode setting points start (child.slotIn? setting.language parent siblings)
          child = ⟨[], start⟩ := by
        cases child with
        | node head children =>
          have hb' : head.isEmpty = true := he
          rw [lowerNode, hb', Bool.true_or, if_pos rfl]
      rw [if_neg hcovers, hnone]
      simp only [List.nil_append]
      exact lowerNodes_eq points parent siblings start stop rest hrest hb.skip hs

end

/-- Lowering a well-formed concrete tree emits the events of its translation. -/
theorem events_eq (setting : Setting) (points : Bool) {root : Concrete}
    (h : root.WellFormed setting.source) :
    events setting points root =
      (Translation.root setting points root).events setting.source := by
  have hplaced := h.here
  have hsize := hplaced.le_size
  have hbetween := hplaced.between.from_zero
  have hahead : ∀ child ∈ root.children, child.head.isEmpty = false →
      0 < child.head.span.stop := by
    intro child hm hc
    have hchild := (h.below.of_mem child hm).here.start_lt hc
    omega
  have hinner := fun points parent => lowerNodes_eq points parent root.children 0
    root.head.span.stop root.children h.below hbetween hsize
  have herror := errorRegion_eq points none (below setting root)
    (Nat.zero_le root.head.span.stop) hsize (hinner false (.special .parseError))
  have hkind := (Translation.opens_rootKind setting.language root).structured
  rw [events, Translation.root, rootKind_eq hahead]
  rw [events_structured _ _ _ hkind, eventsAll_append, Label.opening]
  cases he : root.head.error with
  | true =>
    simp only [if_true, herror, thenGap_eq hsize (Nat.le_refl _), Translation.below]
    simp
  | false =>
    have hbody := hinner points (Translation.rootKind setting.language root)
    simp only [Bool.false_eq_true, if_false, below, hbody, thenGap_eq hsize (Nat.le_refl _),
      Translation.below]
    simp

end Lowering

end CodeTree
