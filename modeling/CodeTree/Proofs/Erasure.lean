import CodeTree.Proofs.TranslationSound

/-!
# Outlines without alternatives

Erasing an outline deletes its alternatives and puts an error leaf in the place of every variation
point, with the same range and slot. The translation without variation points is what is left of the
translation with them (`Translation.erase_root`).
-/

namespace CodeTree

namespace Outline

def Label.erase (label : Label) : Label :=
  if label.kind = .special .variationPoint then { label with kind := .special .errorTree }
  else label

mutual

/-- The outline without alternatives, with error leaves for variation points. -/
def erase : Outline → Outline
  | .node label parts =>
    if label.kind = .special .variationPoint then .node label.erase []
    else .node label.erase (eraseAll parts)

def eraseAll : List Outline → List Outline
  | [] => []
  | part :: rest =>
    if part.label.detached then eraseAll rest else part.erase :: eraseAll rest

end

variable {label : Label} {parts : List Outline}

theorem Label.erase_of_ne (h : label.kind ≠ .special .variationPoint) : label.erase = label := by
  rw [erase, if_neg h]

@[simp] theorem Label.slot_erase (label : Label) : label.erase.slot = label.slot := by
  rw [erase]
  split <;> rfl

@[simp] theorem Label.span_erase (label : Label) : label.erase.span = label.span := by
  rw [erase]
  split <;> rfl

@[simp] theorem Label.detached_erase (label : Label) : label.erase.detached = label.detached := by
  rw [erase]
  split <;> rfl

@[simp] theorem Label.isNamed_erase (label : Label) :
    label.erase.kind.isNamed = label.kind.isNamed := by
  rw [erase]
  split
  · next h =>
    rw [h]
    change NodeKind.isNamed (.special .errorTree) = NodeKind.isNamed (.special .variationPoint)
    decide
  · rfl

@[simp] theorem Label.placeIn_erase (label : Label) (parent : NodeKind) :
    label.erase.placeIn parent = label.placeIn parent := by
  unfold placeIn
  rw [slot_erase]
  cases label.slot with
  | some slot => rfl
  | none => rw [NodeKind.place_none, NodeKind.place_none, isNamed_erase]

theorem erase_point (h : label.kind = .special .variationPoint) :
    (node label parts).erase = node label.erase [] := by
  rw [erase, if_pos h]

theorem erase_node (h : label.kind ≠ .special .variationPoint) :
    (node label parts).erase = node label (eraseAll parts) := by
  rw [erase, if_neg h, Label.erase_of_ne h]

@[simp] theorem label_erase (outline : Outline) : outline.erase.label = outline.label.erase := by
  cases outline with
  | node label parts =>
    rw [erase]
    split <;> rfl

@[simp] theorem eraseAll_nil : eraseAll [] = [] := by rw [eraseAll]

theorem eraseAll_cons (part : Outline) (rest : List Outline) :
    eraseAll (part :: rest) =
      if part.label.detached then eraseAll rest else part.erase :: eraseAll rest := by rw [eraseAll]

theorem eraseAll_append (first second : List Outline) :
    eraseAll (first ++ second) = eraseAll first ++ eraseAll second := by
  induction first with
  | nil => simp
  | cons part rest ih =>
    rw [List.cons_append, eraseAll_cons, eraseAll_cons, ih]
    split <;> rfl

theorem eraseAll_eq_map (h : ∀ part ∈ parts, part.label.detached = false) :
    eraseAll parts = parts.map erase := by
  induction parts with
  | nil => simp
  | cons part rest ih =>
    obtain ⟨hpart, hrest⟩ := List.forall_mem_cons.1 h
    rw [eraseAll_cons, hpart, if_neg (by simp), ih hrest, List.map_cons]

mutual

theorem size_erase_le : ∀ outline : Outline, outline.erase.size ≤ outline.size
  | .node label parts => by
    have hparts := sizeAll_eraseAll_le parts
    rw [erase]
    split
    · rw [size_node, size_node, sizeAll_nil]
      omega
    · rw [size_node, size_node]
      omega

theorem sizeAll_eraseAll_le : ∀ parts : List Outline, sizeAll (eraseAll parts) ≤ sizeAll parts
  | [] => by simp
  | part :: rest => by
    have hpart := size_erase_le part
    have hrest := sizeAll_eraseAll_le rest
    rw [eraseAll_cons]
    split
    · rw [sizeAll_cons]
      omega
    · rw [sizeAll_cons, sizeAll_cons]
      omega

end

/-- How variation points stand in outlines: only they have alternatives, and besides these they have
error leaves only. -/
structure Pointed (label : Label) (parts : List Outline) : Prop where
  attached : label.kind ≠ .special .variationPoint → ∀ part ∈ parts, part.label.detached = false
  raw : label.kind = .special .variationPoint → ∀ part ∈ parts, part.label.detached = false →
    part.parts = [] ∧ part.label.kind = .special .errorTree

theorem erase_mem_parts {outline part : Outline} (h : outline.All Pointed)
    (hk : outline.label.kind ≠ .special .variationPoint) (hm : part ∈ outline.parts) :
    part.erase ∈ outline.erase.parts := by
  cases outline with
  | node label parts =>
    have hplain : label.kind ≠ .special .variationPoint := hk
    rw [erase_node hplain, eraseAll_eq_map ((all_node.1 h).1.attached hplain)]
    exact List.mem_map_of_mem hm

end Outline

namespace Translation

open Outline
open Lowering (Setting)

variable {setting : Setting}

theorem erase_leaf {slot : Option Slot} {kind : NodeKind} {span : Span}
    (h : kind.isTerminal = true) : (leaf slot kind span).erase = leaf slot kind span := by
  have hne : kind ≠ .special .variationPoint := by
    rintro rfl
    cases h
  rw [leaf, erase_node hne, eraseAll_nil]

theorem all_pointed_leaf {slot : Option Slot} {kind : NodeKind} {span : Span}
    (h : kind.isTerminal = true) : (leaf slot kind span).All Pointed := by
  refine Outline.all_node.2 ⟨⟨by simp, ?_⟩, trivial⟩
  rintro rfl
  cases h

theorem eraseAll_filler (start stop : Nat) :
    eraseAll (filler setting start stop) = filler setting start stop := by
  rw [filler]
  split
  · exact eraseAll_nil
  · have hleaf : (leaf none (fillerKind setting ⟨start, stop⟩) ⟨start, stop⟩).erase =
        leaf none (fillerKind setting ⟨start, stop⟩) ⟨start, stop⟩ :=
      erase_leaf (isTerminal_fillerKind setting ⟨start, stop⟩)
    rw [eraseAll_cons, if_neg (by simp [leaf]), eraseAll_nil, hleaf]

theorem allParts_pointed_filler (setting : Setting) (start stop : Nat) :
    AllParts Pointed (filler setting start stop) := by
  rw [allParts_iff]
  intro part hm
  rw [filler] at hm
  split at hm
  · cases hm
  · rw [List.mem_singleton.1 hm]
    exact all_pointed_leaf (isTerminal_fillerKind setting _)

theorem erase_errorRegion (slot : Option Slot) (span : Span) (first second : List Outline) :
    (errorRegion true slot span first).erase = errorRegion false slot span second := by
  rw [errorRegion, if_pos rfl, erase_point rfl]
  rfl

theorem all_pointed_errorRegion (points : Bool) {slot : Option Slot} {span : Span}
    {attempt : List Outline} (h : AllParts Pointed attempt)
    (hd : ∀ part ∈ attempt, part.label.detached = false) :
    (errorRegion points slot span attempt).All Pointed := by
  rw [errorRegion]
  cases points with
  | false => exact all_pointed_leaf rfl
  | true =>
    rw [if_pos rfl]
    refine Outline.all_node.2 ⟨⟨fun hne => absurd rfl hne, fun _ part hm hdet => ?_⟩,
      all_pointed_leaf rfl, Outline.all_node.2 ⟨⟨fun _ => hd, by simp⟩, h⟩, trivial⟩
    rcases List.mem_cons.1 hm with rfl | hm
    · exact ⟨rfl, rfl⟩
    · rw [List.mem_singleton.1 hm] at hdet
      cases hdet

mutual

theorem erase_node (slot : Option Slot) :
    ∀ tree : Concrete, (node setting true slot tree).erase = node setting false slot tree
  | .node head children => by
    rw [node, node]
    cases hv : verdict setting.language slot (.node head children) with
    | single slot' kind => exact erase_leaf (verdict_single hv).1
    | error => exact erase_errorRegion slot head.span _ _
    | structured kind =>
      have hplain : kind ≠ .special .variationPoint := (opens_of_verdict hv).plain
      rw [Outline.erase_node hplain, eraseAll_parts]

theorem eraseAll_parts (parent : NodeKind) (siblings : List Concrete) (start stop : Nat) :
    ∀ children : List Concrete, eraseAll (parts setting true parent siblings start stop children) =
      parts setting false parent siblings start stop children
  | [] => by
    rw [parts, parts]
    exact eraseAll_filler start stop
  | child :: rest => by
    rw [parts, parts]
    split
    · rw [eraseAll_append, eraseAll_filler, eraseAll_cons, detached_node, if_neg (by simp),
        erase_node _ child, eraseAll_parts parent siblings _ stop rest]
    · exact eraseAll_parts parent siblings start stop rest

end

theorem all_pointed_node (setting : Setting) (points : Bool) (slot : Option Slot)
    (tree : Concrete) : (node setting points slot tree).All Pointed := by
  induction tree generalizing points slot with
  | node head children ih =>
    have hparts : ∀ points parent, AllParts Pointed (parts setting points parent children
        head.span.start head.span.stop children) := fun points parent =>
      allParts_of_children (allParts_pointed_filler setting) fun child hm => ih child hm points
    rw [node]
    cases hv : verdict setting.language slot (.node head children) with
    | single slot' kind => exact all_pointed_leaf (verdict_single hv).1
    | error => exact all_pointed_errorRegion points (hparts false _) fun _ => detached_of_mem_parts
    | structured kind =>
      have hplain : kind ≠ .special .variationPoint := (opens_of_verdict hv).plain
      exact Outline.all_node.2 ⟨⟨fun _ _ => detached_of_mem_parts, fun h => absurd h hplain⟩,
        hparts points kind⟩

theorem allParts_pointed_parts (setting : Setting) (points : Bool) (parent : NodeKind)
    (siblings : List Concrete) (start stop : Nat) (children : List Concrete) :
    AllParts Pointed (parts setting points parent siblings start stop children) :=
  allParts_of_children (allParts_pointed_filler setting) fun child _ slot =>
    all_pointed_node setting points slot child

/-- The translation with variation points, erased, is the translation without them. -/
theorem erase_root (setting : Setting) (tree : Concrete) :
    (root setting true tree).erase = root setting false tree := by
  have hplain := (opens_rootKind setting.language tree).plain
  unfold root
  rw [Outline.erase_node hplain, eraseAll_append, eraseAll_filler]
  congr 2
  split
  · rw [eraseAll_cons, if_neg (by simp [errorRegion]), eraseAll_nil, erase_errorRegion]
  · unfold below
    rw [eraseAll_parts]

theorem all_pointed_root (setting : Setting) (points : Bool) (tree : Concrete) :
    (root setting points tree).All Pointed := by
  have hplain := (opens_rootKind setting.language tree).plain
  have hparts := fun points parent => allParts_pointed_parts setting points parent
    tree.children 0 tree.head.span.stop tree.children
  have hfiller := allParts_pointed_filler setting tree.head.span.stop
    setting.source.utf8ByteSize
  rw [root]
  refine Outline.all_node.2 ⟨⟨fun _ part hm => ?_, fun h => absurd h hplain⟩, ?_⟩
  · rcases List.mem_append.1 hm with hm | hm
    · split at hm
      · rw [List.mem_singleton.1 hm]
        cases points <;> rfl
      · exact detached_of_mem_parts hm
    · rw [eq_of_mem_filler hm]
      rfl
  · rw [allParts_append]
    refine ⟨?_, hfiller⟩
    split
    · exact ⟨all_pointed_errorRegion points (hparts false _) fun _ => detached_of_mem_parts,
        trivial⟩
    · exact hparts points _

end Translation

end CodeTree
