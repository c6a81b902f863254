import CodeTree.Proofs.Endings
import CodeTree.Proofs.JsonRoundTrip

/-!
# Stored trees are read back

A valid tree is read back from both printed forms of its stored form. Kinds are told apart by their
group and title, ids and offsets fit into words, and the keys of the records are distinct. Ids fit
since they are ids of nodes; offsets fit if the source does, which is so of a tree that was read.
-/

namespace CodeTree

theorem Language.nodup_titles (language : Language) :
    (language.grammar.map (·.title)).Nodup := by
  cases language <;> decide +kernel

theorem NodeKind.ofTitle?_title (kind : NodeKind) :
    ofTitle? kind.title.1 kind.title.2 = some kind := by
  cases kind with
  | special kind => cases kind <;> decide
  | grammar language index =>
    have hgroup : language.title ≠ "Special" := by cases language <;> decide
    have hfind : language.grammar.findFinIdx? (·.title == language.grammar[index].title) =
        some index := by
      rw [List.findFinIdx?_eq_some_iff]
      refine ⟨beq_self_eq_true _, fun j hj he => ?_⟩
      have hj' : j.val < (language.grammar.map (·.title)).length := by simp
      have hi : index.val < (language.grammar.map (·.title)).length := by simp
      have hsame : (language.grammar.map (·.title))[j.val] =
          (language.grammar.map (·.title))[index.val] := by simpa using he
      have hval := language.nodup_titles.getElem_inj_iff.1 hsame
      omega
    rw [ofTitle?, title, if_neg hgroup, Language.ofTitle?_title]
    exact congrArg (Option.map (NodeKind.grammar language)) hfind

namespace Stored

theorem mapM_map_eq_some {α : Type} {read : Json → Option α} {write : α → Json} {items : List α}
    (h : ∀ item ∈ items, read (write item) = some item) :
    (items.map write).mapM read = some items := by
  induction items with
  | nil => rfl
  | cons item rest ih =>
    obtain ⟨hitem, hrest⟩ := List.forall_mem_cons.1 h
    rw [List.map_cons, List.mapM_cons, hitem, ih hrest]
    rfl

theorem natBelow?_nat {limit n : Nat} (h : n < limit) : natBelow? limit (.nat n) = some n := by
  simp [natBelow?, Json.nat?, Option.filter, h]

/-- Whether what is stored of a node consists of words. -/
structure Fits (data : NodeData) : Prop where
  start : data.span.start < 0x10000000000000000
  stop : data.span.stop < 0x10000000000000000
  parent : ∀ id, data.parent = some id → id < 0x100000000
  children : ∀ id ∈ data.children, id < 0x100000000
  slots : ∀ ids ∈ data.slots, ∀ id ∈ ids, id < 0x100000000

theorem language?_title (language : Language) :
    language? (.string language.title) = some language := by
  rw [language?, name?, Option.bind_some, Language.ofTitle?_title]

theorem kind?_ofKind (kind : NodeKind) : kind? (ofKind kind) = some kind := by
  rw [ofKind, kind?, name?, Option.bind_some, NodeKind.ofTitle?_title]

theorem ids?_ofIds {ids : List NodeId} (h : ∀ id ∈ ids, id < 0x100000000) :
    ids? (ofIds ids) = some ids := by
  rw [ids?, Json.listOf?, ofIds, Json.array?, Option.bind_some]
  exact mapM_map_eq_some fun id hm => natBelow?_nat (h id hm)

theorem node?_ofNode {data : NodeData} (h : Fits data) : node? (ofNode data) = some data := by
  have hspan : span? (ofSpan data.span) = some data.span := by
    rw [ofSpan, span?, record?]
    simp [Json.field?, offset?, natBelow?_nat h.start, natBelow?_nat h.stop]
  have hparent : parent? (some (ofParent data.parent)) = some data.parent := by
    cases hp : data.parent with
    | none => rfl
    | some id =>
      have hid : id? (ofId id) = some id := natBelow?_nat (h.parent id hp)
      rw [ofParent, ofId, parent?, ← ofId, hid]
      · rfl
      · nofun
  have hslots : Json.listOf? ids? (.array (data.slots.map ofIds)) = some data.slots := by
    rw [Json.listOf?, Json.array?, Option.bind_some]
    exact mapM_map_eq_some fun ids hm => ids?_ofIds (h.slots ids hm)
  rw [ofNode, node?, record?]
  simp [Json.field?, kind?_ofKind, hspan, hparent, ids?_ofIds h.children, hslots]

theorem tree?_toJson {tree : Tree} (h : ∀ data ∈ tree.nodes.toList, Fits data) :
    tree? tree.toJson = some tree := by
  have hnodes : Json.listOf? node? (.array (tree.nodes.toList.map ofNode)) =
      some tree.nodes.toList := by
    rw [Json.listOf?, Json.array?, Option.bind_some]
    exact mapM_map_eq_some fun data hm => node?_ofNode (h data hm)
  have htree : Tree.ofParts tree.language tree.source tree.nodes = tree :=
    Tree.ext_parts rfl rfl rfl
  rw [Tree.toJson, tree?, record?]
  simp [Json.field?, language?_title, Json.string?, hnodes, htree]

theorem lt_of_natBelow? {limit n : Nat} {json : Json} (h : natBelow? limit json = some n) :
    n < limit := by
  simpa using (Option.filter_eq_some_iff.1 h).2

theorem exists_of_mem_mapM {α β : Type} {f : α → Option β} {items : List α} {results : List β}
    (h : items.mapM f = some results) {result : β} (hm : result ∈ results) :
    ∃ item ∈ items, f item = some result := by
  induction items generalizing results with
  | nil =>
    rw [List.mapM_nil] at h
    obtain rfl := Option.some.inj h
    cases hm
  | cons item rest ih =>
    rw [List.mapM_cons] at h
    obtain ⟨first, hfirst, h⟩ := Option.bind_eq_some_iff.1 h
    obtain ⟨others, hothers, h⟩ := Option.bind_eq_some_iff.1 h
    obtain rfl := Option.some.inj h
    rcases List.mem_cons.1 hm with rfl | hm
    · exact ⟨item, List.mem_cons_self, hfirst⟩
    · obtain ⟨other, ho, hf⟩ := ih hothers hm
      exact ⟨other, List.mem_cons_of_mem _ ho, hf⟩

theorem stop_lt_of_span? {json : Json} {span : Span} (h : span? json = some span) :
    span.stop < 0x10000000000000000 := by
  rw [span?] at h
  split at h
  · obtain ⟨start, -, h⟩ := Option.bind_eq_some_iff.1 h
    obtain ⟨stop, hstop, h⟩ := Option.bind_eq_some_iff.1 h
    obtain rfl := Option.some.inj h
    exact lt_of_natBelow? hstop
  · cases h

theorem stop_lt_of_node? {json : Json} {data : NodeData} (h : node? json = some data) :
    data.span.stop < 0x10000000000000000 := by
  rw [node?] at h
  split at h
  · obtain ⟨kind, -, h⟩ := Option.bind_eq_some_iff.1 h
    obtain ⟨span, hspan, h⟩ := Option.bind_eq_some_iff.1 h
    obtain ⟨parent, -, h⟩ := Option.bind_eq_some_iff.1 h
    obtain ⟨children, -, h⟩ := Option.bind_eq_some_iff.1 h
    obtain ⟨slots, -, h⟩ := Option.bind_eq_some_iff.1 h
    obtain rfl := Option.some.inj h
    exact stop_lt_of_span? hspan
  · cases h

theorem stop_lt_of_tree? {json : Json} {tree : Tree} (h : tree? json = some tree) {data : NodeData}
    (hm : data ∈ tree.nodes.toList) : data.span.stop < 0x10000000000000000 := by
  rw [tree?] at h
  split at h
  · obtain ⟨language, -, h⟩ := Option.bind_eq_some_iff.1 h
    obtain ⟨source, -, h⟩ := Option.bind_eq_some_iff.1 h
    obtain ⟨nodes, hnodes, h⟩ := Option.bind_eq_some_iff.1 h
    obtain rfl := Option.some.inj h
    obtain ⟨items, -, hitems⟩ := Option.bind_eq_some_iff.1 hnodes
    obtain ⟨item, -, hitem⟩ := exists_of_mem_mapM hitems (by simpa [Tree.ofParts] using hm)
    exact stop_lt_of_node? hitem
  · cases h

theorem proper_ofIds (ids : List NodeId) : (ofIds ids).Proper := by
  refine Json.allProper_iff.2 (List.forall_mem_map.2 fun id _ => ?_)
  trivial

theorem proper_ofNode (data : NodeData) : (ofNode data).Proper := by
  have hkind : (ofKind data.kind).Proper := ⟨List.nodup_singleton _, trivial, trivial⟩
  have hspan : (ofSpan data.span).Proper := ⟨by simp, trivial, trivial, trivial⟩
  have hparent : (ofParent data.parent).Proper := by cases data.parent <;> trivial
  have hslots : (Json.array (data.slots.map ofIds)).Proper :=
    Json.allProper_iff.2 (List.forall_mem_map.2 fun ids _ => proper_ofIds ids)
  exact ⟨by simp, hkind, hspan, hparent, proper_ofIds _, hslots, trivial⟩

end Stored

namespace Tree

variable {tree : Tree}

theorem proper_toJson (tree : Tree) : tree.toJson.Proper := by
  refine ⟨by simp, trivial, trivial, ?_, trivial⟩
  exact Json.allProper_iff.2 (List.forall_mem_map.2 fun data _ => Stored.proper_ofNode data)

/-- The ids and offsets of a valid tree are words if the source is not too long. -/
theorem Valid.fits (h : tree.Valid) (hs : tree.sourceSize < 2 ^ 64) :
    ∀ data ∈ tree.nodes.toList, Stored.Fits data := by
  intro data hm
  obtain ⟨id, hid, rfl⟩ := List.getElem_of_mem hm
  let node : Node tree := ⟨id, hid⟩
  have hid : ∀ other : Node tree, other.id < 0x100000000 := fun other =>
    Nat.lt_of_lt_of_le other.id_lt (Nat.le_succ_of_le (valid_iff.1 h).1)
  have hids : ∀ nodes : List (Node tree), ∀ id ∈ nodes.map (·.id), id < 0x100000000 := by
    intro nodes id hm
    obtain ⟨other, -, rfl⟩ := List.mem_map.1 hm
    exact hid other
  obtain ⟨hle, -, hstop⟩ := Utf8.isRange_iff.1 (h.nodeSound node).range
  have hsize := Utf8.le_size_of_isBoundary hstop
  rw [Utf8.size_toList] at hsize
  have hbound : node.data.span.stop < 0x10000000000000000 := Nat.lt_of_le_of_lt hsize hs
  change Stored.Fits node.data
  refine ⟨Nat.lt_of_le_of_lt hle hbound, hbound, ?_, ?_, ?_⟩
  · intro parent hp
    by_cases hr : node.id = NodeId.root
    · rw [h.parent_of_root hr] at hp
      cases hp
    · obtain ⟨other, hother⟩ := h.exists_parent hr
      rw [Node.hasParent_iff.1 hother] at hp
      obtain rfl := Option.some.inj hp
      exact hid other
  · obtain ⟨children, -, hchildren, -, -⟩ := h.exists_children node
    rw [← hchildren]
    exact hids children
  · intro ids hm
    obtain ⟨nodes, -, hnodes, -⟩ := h.exists_slotted node hm
    rw [← hnodes]
    exact hids nodes

theorem sourceSize_lt_of_ofJson {json : Json} (h : ofJson json = .ok tree) :
    tree.sourceSize < 2 ^ 64 := by
  obtain ⟨hread, hvalid⟩ := ofJson_eq_ok_iff.1 h
  obtain ⟨-, ⟨root, hroot, -, hspan⟩, -, -⟩ := valid_iff.1 hvalid
  have hstop := Stored.stop_lt_of_tree? hread (Array.mem_toList_iff.2 (Array.mem_of_getElem? hroot))
  rw [hspan] at hstop
  exact hstop

def expression (tree : Tree) : Except TreeError String := tree.root >>= Node.expression

/-- Whether both printed forms of a tree are read as the tree, which has an s-expression. -/
def ReadsBack (tree : Tree) : Prop :=
  ∃ expression, tree.expression = .ok expression ∧
    ∀ text ∈ [tree.toJson.compact, tree.toJson.pretty], ∃ json back, Json.parse? text = some json ∧
      ofJson json = .ok back ∧ back = tree ∧ back.expression = .ok expression

theorem Valid.ofJson_toJson (h : tree.Valid) (hs : tree.sourceSize < 2 ^ 64) :
    ofJson tree.toJson = .ok tree :=
  ofJson_eq_ok_iff.2 ⟨Stored.tree?_toJson (h.fits hs), h⟩

theorem Valid.readsBack (h : tree.Valid) (hs : tree.sourceSize < 2 ^ 64) : tree.ReadsBack := by
  obtain ⟨root, hroot, -⟩ := h.exists_root
  obtain ⟨depth, hd⟩ := (exists_depth_iff hroot).2 .refl
  obtain ⟨text, htext⟩ := h.exists_expression hd
  have hexpression : tree.expression = .ok text := by
    rw [expression, hroot]
    exact htext
  have hread := h.ofJson_toJson hs
  have hproper := tree.proper_toJson
  refine ⟨text, hexpression, List.forall_mem_cons.2 ⟨?_, List.forall_mem_singleton.2 ?_⟩⟩
  · exact ⟨_, tree, Json.parse?_compact hproper, hread, rfl, hexpression⟩
  · exact ⟨_, tree, Json.parse?_pretty hproper, hread, rfl, hexpression⟩

/-- Valid trees are read back from what is written of them, and so are all trees that were read,
whatever shape they had. Sources are measured in words of 64 bits. -/
theorem readsBack_of_valid_of_read :
    (∀ tree : Tree, tree.Valid → tree.sourceSize < 2 ^ 64 → tree.ReadsBack) ∧
      ∀ (json : Json) (tree : Tree), ofJson json = .ok tree → tree.ReadsBack := by
  refine ⟨fun tree h hs => h.readsBack hs, fun json tree h => ?_⟩
  exact (ofJson_eq_ok_iff.1 h).2.readsBack (sourceSize_lt_of_ofJson h)

/-- A variation point over a quote, a backslash, a NUL and a character of two bytes. Its one
alternative is empty: it ends where it starts. -/
def quoted : Tree :=
  .ofParts .python "\"\\\x00é" #[⟨.special .parseError, ⟨0, 5⟩, none, [1], [[1]]⟩,
    ⟨.special .variationPoint, ⟨0, 5⟩, some 0, [2], [[2], [3]]⟩,
    ⟨.special .errorTree, ⟨0, 5⟩, some 1, [], []⟩,
    ⟨.special .parseError, ⟨0, 0⟩, some 1, [], [[]]⟩]

/-- The same tree with lists for records, objects for names, no parent at the root and a field that
is not known. -/
def quotedLoosely : Json :=
  .array [.object [("Python", .null)], .string "\"\\\x00é", .array [
    .object [("slots", .array [.array [.nat 1]]), ("children", .array [.nat 1]),
      ("color", .string "red"), ("span", .array [.nat 0, .nat 5]),
      ("kind", .object [("Special", .object [("ParseError", .null)])])],
    .array [.object [("Special", .string "VariationPoint")], .array [.nat 0, .nat 5], .nat 0,
      .array [.nat 2], .array [.array [.nat 2], .array [.nat 3]]],
    .array [.object [("Special", .string "ErrorTree")], .array [.nat 0, .nat 5], .nat 1,
      .array [], .array []],
    .array [.object [("Special", .string "ParseError")], .array [.nat 0, .nat 0], .nat 1,
      .array [], .array [.array []]]]]

theorem readsBack_quoted :
    quoted.Valid ∧ quoted.sourceSize < 2 ^ 64 ∧ quoted.ReadsBack ∧
      ∃ tree, ofJson quotedLoosely = .ok tree ∧ tree.ReadsBack := by
  have hv : quoted.Valid := by decide +kernel
  have hs : quoted.sourceSize < 2 ^ 64 := by decide +kernel
  have hread : ofJson quotedLoosely = .ok quoted := by decide +kernel
  exact ⟨hv, hs, readsBack_of_valid_of_read.1 quoted hv hs, quoted, hread,
    readsBack_of_valid_of_read.2 quotedLoosely quoted hread⟩

end Tree

end CodeTree
