import CodeTree.Proofs.LoweringResult
import CodeTree.Proofs.OutlineRanges
import CodeTree.Proofs.Queries
import CodeTree.Proofs.Reproduction
import CodeTree.Proofs.SlotReads

/-!
# Error regions of lowered trees

Lowering with variation points translates an error region twice: as raw text, and as a parse error
over the same range in which no region is a variation point again. An outline in which variation
points are just these regions, and in which error leaves stand nowhere else, is `Faithful`. Every
node of its tree stands outside of all regions, is the raw text of one, or is reached from the
attempt of one (`Faithful.exists_place`).
-/

namespace CodeTree

open Relation

namespace Outline

def Unpointed (label : Label) (_ : List Outline) : Prop := label.kind ≠ .special .variationPoint

/-- Whether the variation points of an outline are error regions with an attempt in which there are
none, and error leaves are found in regions only. -/
inductive Faithful : Outline → Prop where
  | region (slot : Option Slot) (span : Span) {attempt : List Outline}
    (h : AllParts Unpointed attempt) : Faithful (Translation.errorRegion true slot span attempt)
  | plain {label : Label} {parts : List Outline} (hpoint : label.kind ≠ .special .variationPoint)
    (herror : label.kind ≠ .special .errorTree) (h : ∀ part ∈ parts, Faithful part) :
    Faithful (.node label parts)

end Outline

namespace Translation

open Outline Concrete.Head
open Lowering (Setting)

variable {setting : Setting} {language : Language} {slot slot' : Option Slot} {kind : NodeKind}
  {tree : Concrete}

theorem kind_ne_of_language {other : NodeKind} (h : kind.language? = some language)
    (ho : other.language? = none) : kind ≠ other := by
  rintro rfl
  rw [h] at ho
  cases ho

theorem leafKind_ne_errorTree (language : Language) (head : Concrete.Head) :
    leafKind language head ≠ .special .errorTree := by
  rw [leafKind]
  split
  · decide
  · cases hk : head.kind? language with
    | none => decide
    | some kind =>
      simp only
      split
      · exact kind_ne_of_language (language_of_kind? hk) rfl
      · decide

theorem verdict_single_ne (h : verdict language slot tree = .single slot' kind) :
    kind ≠ .special .errorTree := by
  have hyields := yields_verdict language slot tree
  rw [h] at hyields
  cases hyields with
  | comment | symbol | blot => decide
  | leaf => exact leafKind_ne_errorTree language tree.head
  | token hk => exact kind_ne_of_language (language_of_kind? hk) rfl

theorem Opens.ne_errorTree {children : List Concrete} (h : Opens language kind children) :
    kind ≠ .special .errorTree := by
  rintro rfl
  cases h.structured

theorem ne_variationPoint_of_isTerminal (h : kind.isTerminal = true) :
    kind ≠ .special .variationPoint := by
  rintro rfl
  cases h

theorem all_unpointed_leaf {span : Span} (h : kind.isTerminal = true) :
    (leaf slot kind span).All Unpointed :=
  Outline.all_node.2 ⟨ne_variationPoint_of_isTerminal h, trivial⟩

theorem allParts_unpointed_filler (setting : Setting) (start stop : Nat) :
    AllParts Unpointed (filler setting start stop) := by
  rw [allParts_iff]
  intro part hm
  rw [eq_of_mem_filler hm]
  exact all_unpointed_leaf (isTerminal_fillerKind setting _)

theorem fillerKind_ne_errorTree (setting : Setting) (span : Span) :
    fillerKind setting span ≠ .special .errorTree := by
  rw [fillerKind]
  split <;> decide

theorem all_unpointed_node (setting : Setting) (slot : Option Slot) (tree : Concrete) :
    (node setting false slot tree).All Unpointed := by
  induction tree generalizing slot with
  | node head children ih =>
    rw [node]
    cases hv : verdict setting.language slot (.node head children) with
    | single slot' kind => exact all_unpointed_leaf (verdict_single hv).1
    | error => exact all_unpointed_leaf rfl
    | structured kind =>
      exact Outline.all_node.2 ⟨(opens_of_verdict hv).plain,
        allParts_of_children (allParts_unpointed_filler setting) ih⟩

theorem allParts_unpointed_parts (setting : Setting) (parent : NodeKind)
    (siblings : List Concrete) (start stop : Nat) (children : List Concrete) :
    AllParts Unpointed (parts setting false parent siblings start stop children) :=
  allParts_of_children (allParts_unpointed_filler setting) fun child _ slot =>
    all_unpointed_node setting slot child

theorem faithful_leaf {span : Span} (ht : kind.isTerminal = true)
    (he : kind ≠ .special .errorTree) : (leaf slot kind span).Faithful :=
  .plain (ne_variationPoint_of_isTerminal ht) he (List.forall_mem_nil _)

theorem faithful_of_mem_filler {start stop : Nat} {part : Outline}
    (h : part ∈ filler setting start stop) : part.Faithful := by
  rw [eq_of_mem_filler h]
  exact faithful_leaf (isTerminal_fillerKind setting _) (fillerKind_ne_errorTree setting _)

theorem faithful_of_mem_parts {parent : NodeKind} {siblings children : List Concrete}
    {start stop : Nat}
    (hc : ∀ child ∈ children, ∀ slot, (node setting true slot child).Faithful) {part : Outline}
    (h : part ∈ parts setting true parent siblings start stop children) : part.Faithful := by
  rcases mem_parts h with ⟨_, _, hfiller⟩ | ⟨child, hchild, rfl⟩
  · exact faithful_of_mem_filler hfiller
  · exact hc child hchild _

theorem faithful_node (setting : Setting) (slot : Option Slot) (tree : Concrete) :
    (node setting true slot tree).Faithful := by
  induction tree generalizing slot with
  | node head children ih =>
    rw [node]
    cases hv : verdict setting.language slot (.node head children) with
    | single slot' kind => exact faithful_leaf (verdict_single hv).1 (verdict_single_ne hv)
    | error => exact .region slot _ (allParts_unpointed_parts setting _ _ _ _ children)
    | structured kind =>
      have hopens := opens_of_verdict hv
      exact .plain hopens.plain hopens.ne_errorTree fun _ => faithful_of_mem_parts ih

/-- The translation with variation points is faithful. -/
theorem faithful_root (setting : Setting) (tree : Concrete) : (root setting true tree).Faithful := by
  have hopens := opens_rootKind setting.language tree
  rw [root]
  refine .plain hopens.plain hopens.ne_errorTree fun part hm => ?_
  rcases List.mem_append.1 hm with hm | hm
  · split at hm
    · rw [List.mem_singleton.1 hm]
      exact .region none _ (allParts_unpointed_parts setting _ _ _ _ tree.children)
    · exact faithful_of_mem_parts (fun child _ slot => faithful_node setting slot child) hm
  · exact faithful_of_mem_filler hm

end Translation

namespace Node

variable {tree : Tree}

/-- Whether a variation point has one child, the raw text, and one alternative, an attempt to
structure it. Both cover what the variation point covers. -/
structure Region (point raw attempt : Node tree) : Prop where
  kind : point.kind = .special .variationPoint
  children : point.children = .ok [raw]
  slotValue_raw : point.slotValue .raw = .ok (.single (some raw))
  kind_raw : raw.kind = .special .errorTree
  span_raw : raw.span = point.span
  slotValue_alternatives : point.slotValue .alternatives = .ok (.list [attempt])
  kind_attempt : attempt.kind = .special .parseError
  span_attempt : attempt.span = point.span
  hasParent : attempt.HasParent point
  not_hasChild : ¬point.HasChild attempt

theorem Region.exists_texts {point raw attempt : Node tree} (h : point.Region raw attempt)
    (hv : tree.Valid) {depth : Nat} (hd : AtDepth depth attempt) :
    ∃ leaves texts, attempt.leaves = .ok leaves ∧
      Consecutive point.span.start (leaves.map (·.span)) point.span.stop ∧
      leaves.mapM Node.text = .ok texts ∧ raw.text = .ok (String.join texts) := by
  obtain ⟨leaves, texts, hleaves, hspans, htexts, htext⟩ := hv.exists_leaf_texts hd
  have hsame : raw.span = attempt.span := h.span_raw.trans h.span_attempt.symm
  rw [h.span_attempt] at hspans
  refine ⟨leaves, texts, hleaves, hspans, htexts, ?_⟩
  rw [hv.text_eq raw, hsame, ← hv.text_eq attempt, htext]

def Plain (node : Node tree) : Prop := ∃ outline : Outline, outline.All Outline.Unpointed ∧
  outline.StandsAt node

theorem Plain.kind_ne {node : Node tree} (h : node.Plain) :
    node.kind ≠ .special .variationPoint := by
  obtain ⟨outline, hall, hstands⟩ := h
  rw [hstands.kind_eq]
  exact hall.here

theorem Plain.of_owns {node held : Node tree} (h : node.Plain) (ho : node.Owns held) :
    held.Plain := by
  obtain ⟨outline, hall, hstands⟩ := h
  cases outline with
  | node label parts =>
    obtain ⟨part, hm, hpart⟩ := hstands.exists_part ho
    have hparts := (Outline.all_node.1 hall).2
    exact ⟨part, Outline.allParts_iff.1 hparts part (Outline.mem_of_mem_numbered hm), hpart⟩

theorem Plain.of_reaches {node held : Node tree} (h : node.Plain) (hr : node.Reaches held) :
    held.Plain := by
  induction hr with
  | refl => exact h
  | tail _ ho ih => exact ih.of_owns ho

end Node

namespace Outline

open Node

variable {tree : Tree} {top node point : Node tree}

theorem exists_region {slot : Option Slot} {span : Span} {attempt : List Outline}
    (hall : AllParts Unpointed attempt)
    (h : (Translation.errorRegion true slot span attempt).StandsAt point) :
    ∃ raw tried : Node tree, point.Region raw tried ∧ tried.Plain ∧
      ∀ held, point.Owns held → held = raw ∨ held = tried := by
  let leaf := Translation.leaf (some .raw) (.special .errorTree) span
  let trial := Outline.node ⟨.special .parseError, some .alternatives, span, true⟩ attempt
  have hregion : (Outline.node ⟨.special .variationPoint, slot, span, false⟩
      [leaf, trial]).StandsAt point := h
  have hsize : leaf.size = 1 := rfl
  have hnumbered : numbered (point.id + 1) [leaf, trial] =
      [(point.id + 1, leaf), (point.id + 2, trial)] := rfl
  have hleaf : (point.id + 1, leaf) ∈ numbered (point.id + 1) [leaf, trial] := by
    rw [hnumbered]
    exact List.mem_cons_self
  have htrial : (point.id + 2, trial) ∈ numbered (point.id + 1) [leaf, trial] := by
    rw [hnumbered]
    exact List.mem_cons_of_mem _ List.mem_cons_self
  obtain ⟨raw, hraw, hrawStands, -⟩ := hregion.exists_held hleaf
  obtain ⟨tried, htried, htriedStands, htriedParent⟩ := hregion.exists_held htrial
  obtain ⟨parent, hdata, -⟩ := hregion.exists_data
  have hkind : point.kind = .special .variationPoint := hregion.kind_eq
  have hchildren : point.data.children = [raw].map (·.id) := by
    rw [hdata, List.map_singleton, hraw]
    rfl
  have hslots : point.data.slots = [[raw].map (·.id), [tried].map (·.id)] := by
    rw [hdata, List.map_singleton, List.map_singleton, hraw, htried]
    rfl
  have hread : point.children = .ok [raw] := by
    rw [Node.children, hchildren]
    exact tree.nodesAt_map_id [raw]
  have hfirst : point.Stores 0 (.one .raw) [raw] :=
    ⟨by rw [hkind]; rfl, by rw [hslots]; rfl, rfl⟩
  have hsecond : point.Stores 1 (.many .alternatives) [tried] :=
    ⟨by rw [hkind]; rfl, by rw [hslots]; rfl, rfl⟩
  refine ⟨raw, tried, ⟨hkind, hread, ?_, hrawStands.kind_eq, ?_, ?_, htriedStands.kind_eq, ?_,
    htriedParent, fun hc => ?_⟩, ⟨trial, ?_, htriedStands⟩, fun held ho => ?_⟩
  · exact point.slotValue_eq_hold hfirst.slotIndex?_eq hfirst.slotAt_eq
  · exact hrawStands.span_eq.trans hregion.span_eq.symm
  · exact point.slotValue_eq_hold hsecond.slotIndex?_eq hsecond.slotAt_eq
  · exact htriedStands.span_eq.trans hregion.span_eq.symm
  · rw [HasChild, hchildren, List.map_singleton, List.mem_singleton, htried, hraw] at hc
    exact absurd hc (by simp)
  · exact all_node.2 ⟨by simp [Unpointed], hall⟩
  · obtain ⟨part, hm, -⟩ := hregion.exists_part ho
    rw [hnumbered, List.mem_cons, List.mem_singleton, Prod.mk.injEq, Prod.mk.injEq] at hm
    rcases hm with ⟨hid, -⟩ | ⟨hid, -⟩
    · exact .inl (Tree.node_ext (hid.trans hraw.symm))
    · exact .inr (Tree.node_ext (hid.trans htried.symm))

/-- Where a node of a faithful tree stands: outside of all regions or as their point, as the raw
text of a region, or in the attempt of one. -/
theorem Faithful.exists_place (hv : tree.Valid) {outline : Outline} (hf : outline.Faithful)
    (hs : outline.StandsAt top) (hr : top.Reaches node) :
    (∃ part : Outline, part.Faithful ∧ part.StandsAt node) ∨
      ∃ point raw attempt : Node tree, point.Region raw attempt ∧ attempt.Plain ∧
        (node = raw ∨ attempt.Above node) := by
  induction hr with
  | refl => exact .inl ⟨outline, hf, hs⟩
  | @tail middle node _ ho ih =>
    rcases ih with ⟨part, hpart, hstands⟩ | ⟨point, raw, attempt, hregion, hplain, rfl | habove⟩
    · cases hpart with
      | region slot span hall =>
        obtain ⟨raw, attempt, hregion, hplain, howned⟩ := exists_region hall hstands
        refine .inr ⟨middle, raw, attempt, hregion, hplain, ?_⟩
        rcases howned node ho with rfl | rfl
        · exact .inl rfl
        · exact .inr .refl
      | plain _ _ hparts =>
        obtain ⟨part, hm, hpart⟩ := hstands.exists_part ho
        exact .inl ⟨part, hparts part (mem_of_mem_numbered hm), hpart⟩
    · -- The raw text is a leaf, which owns nothing.
      have hterminal : middle.data.kind.isTerminal = true := by
        rw [show middle.data.kind = .special .errorTree from hregion.kind_raw]
        rfl
      obtain ⟨hchildren, hslots⟩ := (hv.nodeSound middle).leaf hterminal
      rw [Owns, NodeData.owned, hchildren, hslots] at ho
      simp at ho
    · have hmiddle := hplain.of_reaches habove.reaches
      have hchild := hv.hasChild_of_hasParent hmiddle.kind_ne (hv.owns_iff.1 ho)
      exact .inr ⟨point, raw, attempt, hregion, hplain, .inr (habove.tail hchild)⟩

end Outline

namespace Concrete

open Node Outline

/-- Lowering with variation points gives a tree whose variation points are error regions: raw text
and an attempt to structure the same text, whose leaves have it together and in which there are no
variation points. Error leaves are found only there. -/
theorem lower_errorRegions (language : Language) (source : String) (root : Concrete)
    (h : root.WellFormed source) (tree : Tree) (hl : root.lower language source true = .ok tree) :
    (∀ point : Node tree, point.kind = .special .variationPoint →
      ∃ raw attempt : Node tree, ∃ leaves texts, point.Region raw attempt ∧
        attempt.leaves = .ok leaves ∧
        Consecutive point.span.start (leaves.map (·.span)) point.span.stop ∧
        leaves.mapM Node.text = .ok texts ∧ raw.text = .ok (String.join texts) ∧
        ∀ below, attempt.Reaches below → below.kind ≠ .special .variationPoint) ∧
      ∀ node : Node tree, node.kind = .special .errorTree → ∃ point raw attempt : Node tree,
        point.Region raw attempt ∧ (node = raw ∨ TransGen HasChild attempt node) := by
  rw [lower_eq_validated h] at hl
  obtain ⟨hv, rfl⟩ := Tree.validated_eq_ok_iff.1 hl
  obtain ⟨top, htop, hstands, hreaches⟩ := exists_standing_root hv
  have hplace := fun node => (Translation.faithful_root ⟨language, source⟩ root).exists_place hv
    hstands (hreaches node)
  refine ⟨fun point hk => ?_, fun node hk => ?_⟩
  · rcases hplace point with ⟨part, hpart, hpoint⟩ | ⟨_, _, attempt, hregion, hplain, rfl | habove⟩
    · cases hpart with
      | region slot span hall =>
        obtain ⟨raw, attempt, hregion, hplain, -⟩ := exists_region hall hpoint
        obtain ⟨depth, hdepth⟩ := hv.exists_depth_of_reaches (hreaches attempt)
          (.root (Tree.id_of_root htop))
        obtain ⟨leaves, texts, hleaves, hspans, htexts, hraw⟩ := hregion.exists_texts hv hdepth
        exact ⟨raw, attempt, leaves, texts, hregion, hleaves, hspans, htexts, hraw,
          fun below hr => (hplain.of_reaches hr).kind_ne⟩
      | plain hne _ _ => exact absurd (hpoint.kind_eq.symm.trans hk) hne
    · cases hregion.kind_raw.symm.trans hk
    · exact absurd hk (hplain.of_reaches habove.reaches).kind_ne
  · rcases hplace node with ⟨part, hpart, hnode⟩ | ⟨point, raw, attempt, hregion, -, hwhere⟩
    · cases hpart with
      | region slot span _ => cases hnode.kind_eq.symm.trans hk
      | plain _ hne _ => exact absurd (hnode.kind_eq.symm.trans hk) hne
    · refine ⟨point, raw, attempt, hregion, hwhere.imp id fun habove => ?_⟩
      rcases reflTransGen_iff_eq_or_transGen.1 habove with rfl | hbelow
      · cases hregion.kind_attempt.symm.trans hk
      · exact hbelow

theorem errorRegions_callInError :
    callInError.WellFormed "// é\nf(1) @@@" ∧
      ∃ tree, callInError.lower .rust "// é\nf(1) @@@" true = .ok tree ∧
        ∃ point raw attempt : Node tree, point.id = 3 ∧ point.span = ⟨6, 14⟩ ∧
          point.Region raw attempt ∧
          ∀ below, attempt.Reaches below → below.kind ≠ .special .variationPoint := by
  have hw : callInError.WellFormed "// é\nf(1) @@@" := by decide +kernel
  let tree := (Translation.root ⟨.rust, "// é\nf(1) @@@"⟩ true callInError).toTree .rust
    "// é\nf(1) @@@"
  have hl : callInError.lower .rust "// é\nf(1) @@@" true = .ok tree :=
    lower_eq_toTree hw (by decide +kernel)
  let point : Node tree := ⟨3, by decide +kernel⟩
  obtain ⟨hpoints, -⟩ := lower_errorRegions .rust "// é\nf(1) @@@" callInError hw tree hl
  obtain ⟨raw, attempt, _, _, hregion, -, -, -, -, hbelow⟩ := hpoints point (by decide +kernel)
  exact ⟨hw, tree, hl, point, raw, attempt, rfl, by decide +kernel, hregion, hbelow⟩

end Concrete

end CodeTree
