import CodeTree.Proofs.Checks
import CodeTree.Proofs.Outline
import CodeTree.Proofs.Utf8Slices

/-!
# Sound outlines

An outline is sound when each of its nodes is: its kind belongs to the language, its span is a range
of the source, its parts follow one another and fill it, and its slots are declared and hold as many
parts as their arity allows. The tree of a sound outline whose root covers the source is valid,
unless it has too many nodes (`valid_toTree_iff`).

Owners need an argument of their own. The ids below a node are numbered without gaps, and a node
owns the ids of its parts, so by induction every id is owned exactly once.
-/

namespace CodeTree

namespace Outline

/-- The parts follow one another from one offset to another. Alternatives take no place among them:
they start with their owner, at `start`, and end in what came before them. -/
def Tiles (start : Nat) : Nat → List Outline → Nat → Prop
  | pos, [], stop => pos = stop
  | pos, part :: rest, stop =>
    if part.label.detached then
      part.label.span.start = start ∧ part.label.span.stop ≤ pos ∧ Tiles start pos rest stop
    else part.label.span.start = pos ∧ Tiles start part.label.span.stop rest stop

/-- What a builder asks of a node of an outline. -/
structure Buildable (language : Language) (source : String) (label : Label)
    (parts : List Outline) : Prop where
  language : ∀ other, label.kind.language? = some other → other = language
  range : Utf8.isRange label.span.start label.span.stop source.toList = true
  leaf : label.kind.isTerminal = true → parts = []
  tiles : label.kind.isTerminal = false →
    Tiles label.span.start label.span.start parts label.span.stop
  declared : ∀ part ∈ parts, ∀ slot, part.label.slot = some slot →
    label.kind.declares slot = true
  arity : ∀ decl ∈ label.kind.slots,
    decl.arity.accepts (parts.countP fun part =>
      part.label.placeIn label.kind == some decl.slot) = true
  detached : ∀ part ∈ parts, part.label.detached = true →
    label.kind = .special .variationPoint ∧ part.label.slot = some .alternatives
  structured : ∀ part ∈ parts, part.label.detached = true → part.label.kind.isTerminal = false

/-- What makes a node fit into a tree of a source. A builder does not notice a child in the slot of
the alternatives; in a tree it would be owned twice. -/
structure Sound (language : Language) (source : String) (label : Label) (parts : List Outline) :
    Prop extends Buildable language source label parts where
  reserved : ∀ part ∈ parts, label.kind = .special .variationPoint →
    part.label.slot = some .alternatives → part.label.detached = true

variable {language : Language} {source : String} {label : Label} {parts : List Outline}

theorem Tiles.cons_detached {start pos stop : Nat} {part : Outline} {rest : List Outline}
    (hd : part.label.detached = true) :
    Tiles start pos (part :: rest) stop ↔
      part.label.span.start = start ∧ part.label.span.stop ≤ pos ∧ Tiles start pos rest stop := by
  rw [Tiles, if_pos hd]

theorem Tiles.cons_attached {start pos stop : Nat} {part : Outline} {rest : List Outline}
    (hd : part.label.detached = false) :
    Tiles start pos (part :: rest) stop ↔
      part.label.span.start = pos ∧ Tiles start part.label.span.stop rest stop := by
  rw [Tiles, if_neg (by simp [hd])]

theorem Tiles.stop_le {start pos stop : Nat} (h : Tiles start pos parts stop)
    (hr : ∀ part ∈ parts, part.label.span.start ≤ part.label.span.stop) :
    pos ≤ stop ∧ ∀ part ∈ parts, part.label.span.stop ≤ stop := by
  induction parts generalizing pos with
  | nil => exact ⟨Nat.le_of_eq h, by simp⟩
  | cons part rest ih =>
    have hrest : ∀ part ∈ rest, part.label.span.start ≤ part.label.span.stop :=
      fun part hm => hr part (List.mem_cons_of_mem _ hm)
    have hpart := hr part List.mem_cons_self
    cases hd : part.label.detached with
    | true =>
      obtain ⟨-, hle, htiles⟩ := (Tiles.cons_detached hd).1 h
      obtain ⟨hpos, hall⟩ := ih htiles hrest
      refine ⟨hpos, fun other hm => ?_⟩
      rcases List.mem_cons.1 hm with rfl | hm
      · omega
      · exact hall other hm
    | false =>
      obtain ⟨hstart, htiles⟩ := (Tiles.cons_attached hd).1 h
      obtain ⟨hpos, hall⟩ := ih htiles hrest
      refine ⟨by omega, fun other hm => ?_⟩
      rcases List.mem_cons.1 hm with rfl | hm
      · exact hpos
      · exact hall other hm

theorem Tiles.start_eq {start pos stop : Nat} (h : Tiles start pos parts stop) :
    ∀ part ∈ parts, part.label.detached = true → part.label.span.start = start := by
  induction parts generalizing pos with
  | nil => simp
  | cons part rest ih =>
    intro other hm hdo
    cases hd : part.label.detached with
    | true =>
      obtain ⟨hstart, -, htiles⟩ := (Tiles.cons_detached hd).1 h
      rcases List.mem_cons.1 hm with rfl | hm
      · exact hstart
      · exact ih htiles other hm hdo
    | false =>
      rcases List.mem_cons.1 hm with rfl | hm
      · rw [hd] at hdo
        cases hdo
      · exact ih ((Tiles.cons_attached hd).1 h).2 other hm hdo

theorem Sound.detached_iff (h : Sound language source label parts) {part : Outline}
    (hm : part ∈ parts) :
    part.label.detached = true ↔
      label.kind = .special .variationPoint ∧ part.label.slot = some .alternatives :=
  ⟨h.detached part hm, fun hd => h.reserved part hm hd.1 hd.2⟩

theorem AllParts.buildable (h : AllParts (Sound language source) parts) :
    AllParts (Buildable language source) parts :=
  h.imp fun _ _ h => h.toBuildable

theorem AllParts.span_le (h : AllParts (Buildable language source) parts) :
    ∀ part ∈ parts, part.label.span.start ≤ part.label.span.stop := by
  intro part hm
  exact (Utf8.isRange_iff.1 (allParts_iff.1 h part hm).here.range).1

theorem Sound.alternative_within (h : Sound language source label parts)
    (hp : AllParts (Sound language source) parts) {part : Outline} (hm : part ∈ parts)
    (hd : part.label.detached = true) :
    label.span.start ≤ part.label.span.start ∧ part.label.span.stop ≤ label.span.stop := by
  have ht : label.kind.isTerminal = false := by
    cases ht : label.kind.isTerminal with
    | false => rfl
    | true => rw [h.leaf ht] at hm; cases hm
  have htiles := h.tiles ht
  exact ⟨Nat.le_of_eq (htiles.start_eq part hm hd).symm,
    (htiles.stop_le hp.buildable.span_le).2 part hm⟩

/-- The alternatives of a sound node are what its slot of alternatives holds. -/
theorem Sound.holdsAlternatives_iff (h : Sound language source label parts)
    {decl : SlotDecl} {part : Outline} (hm : part ∈ parts)
    (hplace : part.label.placeIn label.kind = some decl.slot) :
    NodeData.holdsAlternatives label.kind decl.slot = true ↔ part.label.detached = true := by
  rw [h.detached_iff hm]
  simp only [NodeData.holdsAlternatives, Bool.and_eq_true, beq_iff_eq]
  constructor
  · rintro ⟨hslot, hkind⟩
    refine ⟨hkind, ?_⟩
    rw [Label.placeIn, hkind, hslot] at hplace
    cases hs : part.label.slot with
    | some slot => rw [hs] at hplace; exact hplace
    | none =>
      rw [hs, NodeKind.place_none] at hplace
      split at hplace
      · cases hplace
      · cases hplace
  · rintro ⟨hkind, hslot⟩
    refine ⟨?_, hkind⟩
    rw [Label.placeIn, hslot] at hplace
    exact (Option.some.inj hplace).symm

theorem idsWhere_cons (p : Label → Bool) (first : NodeId) (part : Outline) (rest : List Outline) :
    idsWhere p first (part :: rest) =
      (if p part.label then [first] else []) ++ idsWhere p (first + part.size) rest := by
  rw [idsWhere, numbered, List.filter_cons]
  split <;> rfl

theorem chained_idsWhere {tree : Tree} {start stop : Nat} (parent : NodeId) :
    ∀ (first : NodeId) (pos : Nat) (parts : List Outline), AllLaidOut tree parent first parts →
      Tiles start pos parts stop →
        tree.Chained parent pos (idsWhere (!·.detached) first parts) stop
  | _, _, [], _, ht => ht
  | first, pos, .node label below :: rest, hl, ht => by
    rw [AllLaidOut] at hl
    rw [idsWhere_cons]
    cases hd : label.detached with
    | true =>
      have hd' : (node label below).label.detached = true := hd
      obtain ⟨-, -, htiles⟩ := (Tiles.cons_detached hd').1 ht
      simpa [hd] using chained_idsWhere parent _ _ rest hl.2 htiles
    | false =>
      have hd' : (node label below).label.detached = false := hd
      obtain ⟨hstart, htiles⟩ := (Tiles.cons_attached hd').1 ht
      simp only [label_node, hd, Bool.not_false, if_true, List.singleton_append, Tree.Chained]
      exact ⟨_, (laidOut_node.1 hl.1).1, rfl, hstart,
        chained_idsWhere parent _ _ rest hl.2 htiles⟩

theorem slotSound_entry {tree : Tree} {parent : Option NodeId} {id : NodeId}
    (hs : Sound language source label parts) (hp : AllParts (Sound language source) parts)
    (hl : AllLaidOut tree id (id + 1) parts) {decl : SlotDecl} (hd : decl ∈ label.kind.slots) :
    tree.SlotSound id (entry parent id label parts) decl
      (idsWhere (·.placeIn label.kind == some decl.slot) (id + 1) parts) := by
  constructor
  · rw [length_idsWhere]
    exact hs.arity decl hd
  · intro slotted hm
    obtain ⟨part, hnum, hplace⟩ := mem_idsWhere.1 hm
    have hpart := mem_of_mem_numbered hnum
    have hiff := hs.holdsAlternatives_iff hpart (by simpa using hplace)
    cases part with
    | node inner below =>
      refine ⟨_, (laidOut_node.1 (hl.of_mem hnum)).1, rfl, ?_⟩
      split
      · next halt => exact hs.alternative_within hp hpart (hiff.1 halt)
      · next hno =>
        have hdet : inner.detached = false := by
          cases hdet : inner.detached with
          | false => rfl
          | true => exact absurd (hiff.2 hdet) hno
        rw [children_entry]
        exact mem_idsWhere.2 ⟨_, hnum, by simp [hdet]⟩

/-- A node of a sound outline passes the checks of the tree in which it is laid out. -/
theorem nodeSound_entry {tree : Tree} (hlang : tree.language = language)
    (hsource : tree.source = source) {parent : Option NodeId} {id : NodeId}
    (hs : Sound language source label parts) (hp : AllParts (Sound language source) parts)
    (hl : AllLaidOut tree id (id + 1) parts) :
    tree.NodeSound id (entry parent id label parts) := by
  constructor
  · rw [hlang]
    exact hs.language
  · rw [Tree.covers, hsource]
    exact hs.range
  · intro ht
    rw [kind_entry] at ht
    simp [hs.leaf ht, NodeKind.slots_of_isTerminal ht, idsWhere, numbered]
  · cases ht : label.kind.isTerminal with
    | false =>
      exact ⟨label.span.stop, chained_idsWhere id _ _ parts hl (hs.tiles ht), fun _ => rfl⟩
    | true =>
      refine ⟨label.span.start, ?_, fun hf => ?_⟩
      · simp [hs.leaf ht, idsWhere, numbered, Tree.Chained]
      · rw [kind_entry, ht] at hf
        cases hf
  · simp
  · intro decl ids hm
    rw [kind_entry, slots_entry, ← List.map_prod_left_eq_zip] at hm
    obtain ⟨other, hd, heq⟩ := List.mem_map.1 hm
    obtain ⟨rfl, rfl⟩ := Prod.mk.inj heq
    exact slotSound_entry hs hp hl hd

def rootIds (first : NodeId) (parts : List Outline) : List NodeId :=
  (numbered first parts).map (·.1)

theorem flatMap_alternatives_nil {kind : NodeKind} (hk : kind ≠ .special .variationPoint)
    (slots : List (SlotDecl × List NodeId)) :
    (slots.flatMap fun (decl, ids) =>
      if NodeData.holdsAlternatives kind decl.slot then ids else []) = [] := by
  simp [NodeData.holdsAlternatives, hk]

theorem idsWhere_append_perm (first : NodeId) (parts : List Outline) :
    (idsWhere (!·.detached) first parts ++ idsWhere (·.detached) first parts).Perm
      (rootIds first parts) := by
  rw [idsWhere, idsWhere, rootIds, ← List.map_append]
  exact (List.perm_append_comm.trans
    (List.filter_append_perm (fun head : NodeId × Outline => head.2.label.detached) _)).map _

theorem Sound.idsWhere_alternatives (h : Sound language source label parts)
    (hk : label.kind = .special .variationPoint) (first : NodeId) :
    idsWhere (·.placeIn label.kind == some .alternatives) first parts =
      idsWhere (·.detached) first parts := by
  have hplace : ∀ head ∈ numbered first parts,
      (head.2.label.placeIn label.kind == some .alternatives) = head.2.label.detached := by
    intro head hm
    rw [Bool.eq_iff_iff, h.detached_iff (mem_of_mem_numbered hm), hk, beq_iff_eq, Label.placeIn]
    cases head.2.label.slot with
    | some slot => simp
    | none =>
      rw [NodeKind.place_none]
      split <;> simp [NodeKind.restSlot?, NodeKind.slots, NodeKind.production,
        SpecialKind.production, Production.node, SlotDecl.one, SlotDecl.many]
  rw [idsWhere, idsWhere, List.filter_congr hplace]

theorem Sound.detached_eq_false (h : Sound language source label parts)
    (hk : label.kind ≠ .special .variationPoint) {part : Outline} (hm : part ∈ parts) :
    part.label.detached = false := by
  cases hd : part.label.detached with
  | false => rfl
  | true => exact absurd ((h.detached_iff hm).1 hd).1 hk

/-- A node owns its parts: the children, and the alternatives through their slot. -/
theorem owned_entry_perm (h : Sound language source label parts) (parent : Option NodeId)
    (id : NodeId) : (entry parent id label parts).owned.Perm (rootIds (id + 1) parts) := by
  rw [NodeData.owned, kind_entry, slots_entry, children_entry]
  by_cases hk : label.kind = .special .variationPoint
  · have hslots : (label.kind.slots.zip (label.kind.slots.map fun decl =>
        idsWhere (·.placeIn label.kind == some decl.slot) (id + 1) parts)).flatMap
          (fun (decl, ids) => if NodeData.holdsAlternatives label.kind decl.slot then ids else []) =
        idsWhere (·.detached) (id + 1) parts := by
      rw [← h.idsWhere_alternatives hk, hk]
      exact List.append_nil _
    rw [hslots]
    exact idsWhere_append_perm (id + 1) parts
  · have hall : idsWhere (!·.detached) (id + 1) parts = rootIds (id + 1) parts := by
      have hd : ∀ head ∈ numbered (id + 1) parts, (!head.2.label.detached) = true := fun _ hm =>
        by rw [h.detached_eq_false hk (mem_of_mem_numbered hm), Bool.not_false]
      rw [idsWhere, rootIds, List.filter_eq_self.2 hd]
    rw [flatMap_alternatives_nil hk, hall, List.append_nil]

mutual

theorem count_owned_nodes (parent : Option NodeId) (id : Nat) (i : Nat) :
    ∀ outline : Outline, outline.All (Sound language source) →
      ((outline.nodes parent id).flatMap NodeData.owned).count i =
        if id < i ∧ i < id + outline.size then 1 else 0
  | .node label parts, h => by
    obtain ⟨hs, hp⟩ := all_node.1 h
    rw [nodes_node, List.flatMap_cons, List.count_append,
      (owned_entry_perm hs parent id).count_eq, ← List.count_append,
      count_owned_nodesAll id (id + 1) i parts hp, size_node]
    congr 1
    apply propext
    omega

theorem count_owned_nodesAll (parent first : Nat) (i : Nat) :
    ∀ parts : List Outline, AllParts (Sound language source) parts →
      (rootIds first parts ++ (nodesAll parent first parts).flatMap NodeData.owned).count i =
        if first ≤ i ∧ i < first + sizeAll parts then 1 else 0
  | [], _ => by
    simp only [rootIds, numbered, List.map_nil, nodesAll_nil, List.flatMap_nil, List.append_nil,
      List.count_nil, sizeAll_nil]
    rw [if_neg (by omega)]
  | part :: rest, h => by
    rw [AllParts] at h
    have hpart := count_owned_nodes (some parent) first i part h.1
    have hrest := count_owned_nodesAll parent (first + part.size) i rest h.2
    have hsize := part.size_pos
    rw [List.count_append] at hrest
    rw [nodesAll_cons, List.flatMap_append, List.count_append, List.count_append, hpart,
      show rootIds first (part :: rest) = first :: rootIds (first + part.size) rest from rfl,
      List.count_cons, sizeAll_cons]
    by_cases he : first = i
    · simp only [he, beq_self_eq_true, if_true] at hrest ⊢
      split at hrest <;> split <;> split <;> omega
    · simp only [beq_iff_eq, he, if_false]
      split at hrest <;> split <;> split <;> omega

end

variable {outline : Outline}

/-- The tree of a sound outline of the source is valid if it does not have too many nodes. -/
theorem valid_toTree_iff (h : outline.All (Sound language source))
    (hspan : outline.label.span = ⟨0, source.utf8ByteSize⟩) :
    (outline.toTree language source).Valid ↔ outline.size ≤ Tree.idLimit := by
  have hlaid := laidOut_toTree language source outline
  rw [Tree.valid_iff, size_toTree]
  constructor
  · intro hv
    exact hv.1
  · intro hsize
    refine ⟨hsize, ?_, ?_, ?_⟩
    · cases outline with
      | node label parts => exact ⟨_, (laidOut_node.1 hlaid).1, rfl, hspan⟩
    · intro id data hd
      have hlt : id < outline.size := by
        rw [← size_toTree language source outline]
        exact (Array.getElem?_eq_some_iff.1 hd).1
      obtain ⟨parent, label, parts, hl, ha⟩ := exists_laidOut_of_lt none 0 outline hlaid h id
        (Nat.zero_le _) (by rw [Nat.zero_add]; exact hlt)
      obtain ⟨hentry, hbelow⟩ := laidOut_node.1 hl
      rw [hentry] at hd
      obtain rfl := Option.some.inj hd
      exact nodeSound_entry rfl rfl (all_node.1 ha).1 (all_node.1 ha).2 hbelow
    · intro id hlt hne
      have hcount := count_owned_nodes none 0 id outline h
      change ((outline.nodes none 0).flatMap NodeData.owned).count id = 1
      rw [hcount, if_pos]
      refine ⟨Nat.pos_of_ne_zero hne, ?_⟩
      rw [Nat.zero_add, ← size_toTree language source outline]
      exact hlt

/-- A child in the slot of the alternatives is owned as a child and as an alternative. -/
theorem two_le_count_owned (parent : Option NodeId) {id child : NodeId} {part : Outline}
    (hm : (child, part) ∈ numbered (id + 1) parts) (hk : label.kind = .special .variationPoint)
    (hs : part.label.slot = some .alternatives) (hd : part.label.detached = false) :
    2 ≤ (entry parent id label parts).owned.count child := by
  have hchild : child ∈ idsWhere (!·.detached) (id + 1) parts :=
    mem_idsWhere.2 ⟨part, hm, by simp [hd]⟩
  have hplace : child ∈ idsWhere (·.placeIn label.kind == some .alternatives) (id + 1) parts :=
    mem_idsWhere.2 ⟨part, hm, by simp [Label.placeIn, hs]⟩
  have hdecl : SlotDecl.many .alternatives ∈ label.kind.slots := by
    rw [hk]
    decide
  have halternative : child ∈ (label.kind.slots.map fun decl =>
      (decl, idsWhere (·.placeIn label.kind == some decl.slot) (id + 1) parts)).flatMap
        fun (decl, ids) => if NodeData.holdsAlternatives label.kind decl.slot then ids else [] := by
    refine List.mem_flatMap.2 ⟨_, List.mem_map_of_mem hdecl, ?_⟩
    have hholds : NodeData.holdsAlternatives label.kind .alternatives = true := by
      rw [hk]
      rfl
    change child ∈ if NodeData.holdsAlternatives label.kind .alternatives then _ else _
    rw [if_pos hholds]
    exact hplace
  have hfirst := List.count_pos_iff.2 hchild
  have hsecond := List.count_pos_iff.2 halternative
  rw [NodeData.owned, kind_entry, slots_entry, children_entry, ← List.map_prod_left_eq_zip,
    List.count_append]
  exact Nat.add_le_add hfirst hsecond

theorem reserved_of_valid {tree : Tree} (hv : tree.Valid) {parent : Option NodeId} {id : NodeId}
    (he : tree.nodes[id]? = some (entry parent id label parts))
    (hl : AllLaidOut tree id (id + 1) parts) {part : Outline} (hm : part ∈ parts)
    (hk : label.kind = .special .variationPoint) (hs : part.label.slot = some .alternatives) :
    part.label.detached = true := by
  obtain ⟨-, ⟨root, hroot, hparent, -⟩, -, howned⟩ := Tree.valid_iff.1 hv
  obtain ⟨child, hnum⟩ : ∃ child, (child, part) ∈ numbered (id + 1) parts := by
    rw [← map_snd_numbered (id + 1) parts] at hm
    obtain ⟨head, hhead, rfl⟩ := List.mem_map.1 hm
    exact ⟨head.1, hhead⟩
  obtain ⟨data, hdata, hup⟩ : ∃ data, tree.nodes[child]? = some data ∧ data.parent = some id := by
    have hpart := hl.of_mem hnum
    cases part with
    | node inner below => exact ⟨_, (laidOut_node.1 hpart).1, rfl⟩
  have hne : child ≠ NodeId.root := by
    rintro rfl
    rw [hroot] at hdata
    obtain rfl := Option.some.inj hdata
    rw [hparent] at hup
    cases hup
  cases hd : part.label.detached with
  | true => rfl
  | false =>
    have htwice := two_le_count_owned parent hnum hk hs hd
    have hall : (entry parent id label parts).owned.count child ≤ tree.owned.count child := by
      have hmem := Array.mem_toList_iff.2 (Array.mem_of_getElem? he)
      exact (List.sublist_flatten_of_mem (List.mem_map_of_mem hmem)).count_le child
    rw [howned child (Array.getElem?_eq_some_iff.1 hdata).1 hne] at hall
    omega

mutual

/-- A buildable outline that is laid out in a valid tree is sound. -/
theorem all_sound_of_valid {tree : Tree} (hv : tree.Valid) (parent : Option NodeId) (id : NodeId) :
    ∀ outline : Outline, outline.LaidOut tree parent id →
      outline.All (Buildable language source) → outline.All (Sound language source)
  | .node label parts, hl, hb => by
    obtain ⟨he, hbelow⟩ := laidOut_node.1 hl
    obtain ⟨hhere, hparts⟩ := all_node.1 hb
    exact all_node.2 ⟨⟨hhere, fun _ hm => reserved_of_valid hv he hbelow hm⟩,
      allParts_sound_of_valid hv id (id + 1) parts hbelow hparts⟩

theorem allParts_sound_of_valid {tree : Tree} (hv : tree.Valid) (parent first : NodeId) :
    ∀ parts : List Outline, AllLaidOut tree parent first parts →
      AllParts (Buildable language source) parts → AllParts (Sound language source) parts
  | [], _, _ => trivial
  | part :: rest, hl, hb => by
    rw [AllLaidOut] at hl
    rw [AllParts] at hb ⊢
    exact ⟨all_sound_of_valid hv (some parent) first part hl.1 hb.1,
      allParts_sound_of_valid hv parent (first + part.size) rest hl.2 hb.2⟩

end

end Outline

end CodeTree
