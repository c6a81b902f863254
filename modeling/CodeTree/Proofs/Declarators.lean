import CodeTree.Proofs.Queries
import CodeTree.Proofs.SlotReads
import Mathlib.Data.List.Find

/-!
# Declarators of C and C++

The name and the parameters of a C function are found at the end of a chain of declarators that may
nest in any order and to any depth. The chain that is walked is just that nesting followed by the
name (`chainWithin_of_nests`): no declarator is an identifier, so the first identifier found from
the outside is the name, and only function declarators have parameters, so the last ones found are
those nearest to the name. In `int (*get(void))(int)` they are `void`.
-/

namespace CodeTree

namespace NodeKind

def declaratorNames : List String :=
  ["pointer_declarator", "array_declarator", "parenthesized_declarator", "init_declarator",
    "function_declarator"]

def isDeclarator (kind : NodeKind) : Bool := declaratorNames.contains kind.name

/-- What the grammars of C and C++ say of the kinds that declare functions. -/
structure Declaring (kind : NodeKind) : Prop where
  function : kind.name = "function_definition" → kind.has .function = true ∧
    kind.role = Role.declaredFunction ∧ kind.declares .declarator = true
  declarator : kind.isDeclarator = true → kind.declares .declarator = true ∧
    kind.has .identifier = false ∧
    (kind.declares .parameters = true ↔ kind.name = "function_declarator")
  identifier : kind.has .identifier = true →
    kind.declares .declarator = false ∧ kind.declares .parameters = false
  list : kind.name = "parameter_list" → kind.slots = [.remaining .items]

instance (kind : NodeKind) : Decidable kind.Declaring :=
  decidable_of_iff
    ((kind.name = "function_definition" → kind.has .function = true ∧
        kind.role = Role.declaredFunction ∧ kind.declares .declarator = true) ∧
      (kind.isDeclarator = true → kind.declares .declarator = true ∧
        kind.has .identifier = false ∧
        (kind.declares .parameters = true ↔ kind.name = "function_declarator")) ∧
      (kind.has .identifier = true →
        kind.declares .declarator = false ∧ kind.declares .parameters = false) ∧
      (kind.name = "parameter_list" → kind.slots = [.remaining .items]))
    ⟨fun h => ⟨h.1, h.2.1, h.2.2.1, h.2.2.2⟩,
      fun h => ⟨h.function, h.declarator, h.identifier, h.list⟩⟩

theorem declaring_special (kind : SpecialKind) : (special kind).Declaring := by
  cases kind <;> decide +kernel

theorem declaring_of_mem_allOf {language : Language} (h : language = .c ∨ language = .cpp) :
    ∀ kind ∈ allOf language, kind.Declaring := by
  rcases h with rfl | rfl <;> decide +kernel

theorem declaring {kind : NodeKind} {language : Language} (hl : language = .c ∨ language = .cpp)
    (h : ∀ other, kind.language? = some other → other = language) : kind.Declaring := by
  cases kind with
  | special kind => exact declaring_special kind
  | grammar other index =>
    obtain rfl : other = language := h other rfl
    exact declaring_of_mem_allOf hl _ (List.mem_map_of_mem (List.mem_finRange index))

end NodeKind

namespace Node

variable {tree : Tree}

/-- Whether a slot holds one node, whatever its arity. -/
def HoldsOnly (node : Node tree) (slot : Slot) (held : Node tree) : Prop :=
  ∃ value, node.slotValue slot = .ok value ∧ value.nodes = [held]

/-- Whether a node is the outermost of the given declarators, each of which holds the next one as
its only declarator, and the last of which holds the name. Function declarators have a list of
parameters besides. -/
inductive Nests : Node tree → List (Node tree) → Node tree → Prop where
  | name {name : Node tree} (h : name.has .identifier = true) : Nests name [] name
  | around {outer inner name : Node tree} {declarators : List (Node tree)}
    (hk : outer.kind.isDeclarator = true) (hs : outer.HoldsOnly .declarator inner)
    (hp : outer.kind.name = "function_declarator" →
      ∃ list, outer.HoldsOnly .parameters list ∧ list.kind.name = "parameter_list")
    (h : Nests inner declarators name) : Nests outer (outer :: declarators) name

variable {node outer inner held name : Node tree} {declarators : List (Node tree)} {slot : Slot}

theorem HoldsOnly.unique (h : node.HoldsOnly slot inner) (h' : node.HoldsOnly slot held) :
    inner = held := by
  obtain ⟨value, hvalue, hnodes⟩ := h
  obtain ⟨other, hother, hothers⟩ := h'
  cases hvalue.symm.trans hother
  exact (List.cons.inj (hnodes.symm.trans hothers)).1

theorem HoldsOnly.first_eq (h : node.HoldsOnly slot held) : node.first slot = .ok (some held) := by
  obtain ⟨value, hvalue, hnodes⟩ := h
  rw [first, hvalue]
  change Except.ok value.nodes.head? = _
  rw [hnodes]
  rfl

theorem HoldsOnly.items_eq (h : node.HoldsOnly slot held) (hd : held.kind.declares .items = true)
    {elements : List (Node tree)} (hm : held.many .items = .ok elements) :
    node.items slot = .ok elements := by
  obtain ⟨value, hvalue, hnodes⟩ := h
  rw [items, hvalue]
  simp only [bind, Except.bind, hnodes, List.mapM_cons, List.mapM_nil, if_pos hd, hm]
  simp [pure, Except.pure]

theorem Nests.isDeclarator (h : outer.Nests declarators name) :
    ∀ declarator ∈ declarators, declarator.kind.isDeclarator = true := by
  induction h with
  | name _ => simp
  | around hk _ _ _ ih => exact List.forall_mem_cons.2 ⟨hk, ih⟩

theorem Nests.exists_list (h : outer.Nests declarators name) :
    ∀ declarator ∈ declarators, declarator.kind.name = "function_declarator" →
      ∃ list, declarator.HoldsOnly .parameters list ∧ list.kind.name = "parameter_list" := by
  induction h with
  | name _ => simp
  | around _ _ hp _ ih => exact List.forall_mem_cons.2 ⟨hp, ih⟩

theorem Nests.has_identifier (h : outer.Nests declarators name) : name.has .identifier = true := by
  induction h with
  | name h => exact h
  | around _ _ _ _ ih => exact ih

/-- A chain that starts at a nesting is the nesting and the name. -/
theorem chainWithin_of_nests (hall : ∀ link : Node tree, link.kind.Declaring)
    (h : outer.Nests declarators name) (bound : Nat) {chain : List (Node tree)}
    (hc : chainWithin bound (some outer) = .ok (some chain)) : chain = declarators ++ [name] := by
  induction h generalizing bound chain with
  | @name name h =>
    cases bound with
    | zero => cases hc
    | succ bound =>
      have hends : name.kind.declares .declarator = false := ((hall name).identifier h).1
      have hnone : ∀ bound : Nat,
          chainWithin bound (none : Option (Node tree)) = .ok (some []) := by
        intro bound
        cases bound <;> rfl
      rw [chainWithin, hends] at hc
      simp only [Bool.false_eq_true, if_false, bind, Except.bind, hnone] at hc
      cases hc
      rfl
  | @around outer inner name declarators hk hs _ _ ih =>
    cases bound with
    | zero => cases hc
    | succ bound =>
      rw [chainWithin, if_pos ((hall outer).declarator hk).1, hs.first_eq] at hc
      obtain ⟨next, hnext, hc⟩ := bind_eq_ok_iff.1 hc
      cases hnext
      obtain ⟨rest, hrest, hc⟩ := bind_eq_ok_iff.1 hc
      obtain ⟨others, rfl, rfl⟩ := Option.map_eq_some_iff.1 (Except.ok.inj hc)
      rw [ih bound hrest, List.cons_append]

end Node

namespace Tree

open Node

variable {tree : Tree} {node top name : Node tree} {declarators : List (Node tree)}

theorem Valid.declaring (h : tree.Valid) (hl : tree.language = .c ∨ tree.language = .cpp)
    (node : Node tree) : node.kind.Declaring := NodeKind.declaring hl (h.nodeSound node).language

theorem Valid.declaratorChain_eq (h : tree.Valid)
    (hl : tree.language = .c ∨ tree.language = .cpp) {depth : Nat} (hd : AtDepth depth node)
    (hs : node.kind.declares .declarator = true) (ht : node.HoldsOnly .declarator top)
    (hn : top.Nests declarators name) :
    node.declaratorChain .declarator = .ok (declarators ++ [name]) := by
  obtain ⟨chain, hchain⟩ := h.exists_declaratorChain hd hs
  have hwalk := hchain
  rw [declaratorChain, ht.first_eq] at hwalk
  obtain ⟨first, hfirst, hwalk⟩ := bind_eq_ok_iff.1 hwalk
  cases hfirst
  obtain ⟨links, hlinks, hwalk⟩ := bind_eq_ok_iff.1 hwalk
  cases links with
  | none => cases hwalk
  | some links =>
    cases hwalk
    rw [hchain, chainWithin_of_nests (h.declaring hl) hn _ hlinks]

theorem Valid.exists_elements (h : tree.Valid) {list : Node tree}
    (hk : list.kind.slots = [.remaining .items]) :
    ∃ elements, list.many .items = .ok elements ∧
      list.data.slots = [elements.map (·.id)] := by
  have hdecl : list.kind.slots[0]? = some (.remaining .items) := by
    rw [hk]
    rfl
  obtain ⟨elements, hstores⟩ := h.exists_stores list hdecl
  have hlength : list.data.slots.length = 1 := by
    have hcount : list.data.slots.length = list.kind.slots.length :=
      (h.nodeSound list).slots_length
    rw [hcount, hk]
    rfl
  obtain ⟨ids, hids⟩ := List.length_eq_one_iff.1 hlength
  have hstored := hstores.stored
  rw [hids] at hstored
  refine ⟨elements, hstores.reads.many rfl, ?_⟩
  rw [hids, Option.some.inj hstored]

theorem Valid.functionRule_eq (h : tree.Valid) (hl : tree.language = .c ∨ tree.language = .cpp)
    (hk : node.kind.name = "function_definition") :
    node.functionRule =
      .ok ⟨.declarator .declarator, [.declarator .declarator], .body⟩ := by
  obtain ⟨hhas, hrole, -⟩ := (h.declaring hl node).function hk
  obtain ⟨rule, hrule, hroles⟩ := exists_functionRule hhas
  rw [hrole, Role.declaredFunction, Role.function.injEq] at hroles
  rw [hrule, hroles]

theorem Valid.functionName_eq (h : tree.Valid) (hl : tree.language = .c ∨ tree.language = .cpp)
    (hk : node.kind.name = "function_definition")
    (hchain : node.declaratorChain .declarator = .ok (declarators ++ [name]))
    (hn : top.Nests declarators name) {text : String} (ht : name.text = .ok text) :
    node.functionName = .ok (some text) := by
  have hnone : declarators.find? (·.has .identifier) = none := by
    rw [List.find?_eq_none]
    intro declarator hm
    have hno := ((h.declaring hl declarator).declarator (hn.isDeclarator declarator hm)).2.1
    simp [Node.has, hno]
  have hfind : (declarators ++ [name]).find? (·.has .identifier) = some name := by
    rw [List.find?_append, hnone, Option.none_or, List.find?_singleton, if_pos hn.has_identifier]
  rw [functionName, h.functionRule_eq hl hk]
  simp only [bind, Except.bind, nameNode, hchain, hfind]
  change ((liftM name.text : Except QueryError String) >>= fun text => .ok (some text)) = _
  rw [ht]
  rfl

/-- The list that is read from a chain is that of its innermost function declarator. -/
theorem Valid.readList_eq (h : tree.Valid) (hl : tree.language = .c ∨ tree.language = .cpp)
    (hchain : node.declaratorChain .declarator = .ok (declarators ++ [name]))
    (hn : top.Nests declarators name) :
    node.readList (.declarator .declarator) =
      match declarators.reverse.find? (·.kind.name == "function_declarator") with
      | some declarator => declarator.items .parameters
      | none => .ok [] := by
  have hname : name.kind.declares .parameters = false :=
    ((h.declaring hl name).identifier hn.has_identifier).2
  have hsame : ∀ declarator ∈ declarators.reverse, declarator.kind.declares .parameters =
      (declarator.kind.name == "function_declarator") := by
    intro declarator hm
    have hkind := hn.isDeclarator declarator (List.mem_reverse.1 hm)
    rw [Bool.eq_iff_iff, ((h.declaring hl declarator).declarator hkind).2.2, beq_iff_eq]
  have hfind : (declarators ++ [name]).reverse.find? (·.kind.declares .parameters) =
      declarators.reverse.find? (·.kind.name == "function_declarator") := by
    rw [List.reverse_append, List.reverse_singleton, List.singleton_append,
      List.find?_cons_of_neg (by simp [hname]), List.find?_congr hsame]
  rw [readList, hchain]
  simp only [bind, Except.bind, hfind]
  rfl

theorem Valid.functionParameters_eq (h : tree.Valid)
    (hl : tree.language = .c ∨ tree.language = .cpp)
    (hk : node.kind.name = "function_definition") {parameters : List (Node tree)}
    (hread : node.readList (.declarator .declarator) = .ok parameters) :
    node.functionParameters = .ok parameters := by
  have hlists : [ListRule.declarator .declarator].mapM node.readList = .ok [parameters] := by
    rw [List.mapM_cons, hread]
    rfl
  rw [functionParameters, h.functionRule_eq hl hk]
  simp only [bind, Except.bind, hlists]
  change Except.ok [parameters].flatten = _
  rw [List.flatten_singleton]

/-- A function of C or C++ whose declarators nest in any way has the name at their end, and the
parameters of the function declarator that is nearest to it, or none if there is no function
declarator. From a node that is reached from the root of a valid tree, of whatever language, every
chain of declarators ends. -/
theorem Valid.declares_function (tree : Tree) (h : tree.Valid) :
    ∃ root, tree.root = .ok root ∧ ∀ node, root.Reaches node →
      (∀ slot, (node.kind.declares slot = true → ∃ chain, node.declaratorChain slot = .ok chain) ∧
        (node.kind.declares slot = false → node.declaratorChain slot =
          .error (.undeclaredSlot node.kind slot.text))) ∧
      (tree.language = .c ∨ tree.language = .cpp → node.kind.name = "function_definition" →
        ∀ top declarators name, node.HoldsOnly .declarator top → top.Nests declarators name →
          (∃ text, name.text = .ok text ∧ node.functionName = .ok (some text)) ∧
          ((∀ declarator ∈ declarators, declarator.kind.name ≠ "function_declarator") →
            node.functionParameters = .ok []) ∧
          ∀ around nearest within list, declarators = around ++ nearest :: within →
            nearest.kind.name = "function_declarator" →
            (∀ declarator ∈ within, declarator.kind.name ≠ "function_declarator") →
            nearest.HoldsOnly .parameters list →
            ∃ elements, list.data.slots = [elements.map (·.id)] ∧
              list.many .items = .ok elements ∧ node.functionParameters = .ok elements) := by
  obtain ⟨root, hroot, -⟩ := h.exists_root
  refine ⟨root, hroot, fun node hr => ⟨fun slot => ⟨fun hs => ?_, fun hs => ?_⟩, ?_⟩⟩
  · obtain ⟨depth, hd⟩ := h.exists_depth_of_reaches hr (.root (id_of_root hroot))
    exact h.exists_declaratorChain hd hs
  · rw [declaratorChain, first, slotValue_undeclared hs]
    rfl
  · intro hl hk top declarators name ht hn
    obtain ⟨depth, hd⟩ := h.exists_depth_of_reaches hr (.root (id_of_root hroot))
    have hslot := ((h.declaring hl node).function hk).2.2
    have hchain := h.declaratorChain_eq hl hd hslot ht hn
    have hread := h.readList_eq hl hchain hn
    refine ⟨⟨_, h.text_eq name, h.functionName_eq hl hk hchain hn (h.text_eq name)⟩, ?_, ?_⟩
    · intro hnone
      have hfind : declarators.reverse.find? (·.kind.name == "function_declarator") = none := by
        rw [List.find?_eq_none]
        intro declarator hm
        simpa using hnone declarator (List.mem_reverse.1 hm)
      rw [hfind] at hread
      exact h.functionParameters_eq hl hk hread
    · intro around nearest within list hsplit hnearest hwithin hlist
      have hfind : declarators.reverse.find? (·.kind.name == "function_declarator") =
          some nearest := by
        rw [hsplit, List.find?_eq_some_iff_append]
        refine ⟨beq_iff_eq.2 hnearest, within.reverse, around.reverse, by simp, ?_⟩
        intro declarator hm
        simpa using hwithin declarator (List.mem_reverse.1 hm)
      have hmem : nearest ∈ declarators := by
        rw [hsplit]
        exact List.mem_append_right _ List.mem_cons_self
      obtain ⟨other, hother, hname⟩ := hn.exists_list nearest hmem hnearest
      obtain rfl := hother.unique hlist
      have hslots := (h.declaring hl other).list hname
      have hitems : other.kind.declares .items = true := by
        rw [NodeKind.declares, NodeKind.slot?, hslots]
        rfl
      obtain ⟨elements, hmany, hstored⟩ := h.exists_elements hslots
      rw [hfind] at hread
      simp only [hlist.items_eq hitems hmany] at hread
      exact ⟨elements, hstored, hmany, h.functionParameters_eq hl hk hread⟩

/-- The tree of `(*g(a))(b)`, a function with the parameter `a` that returns a pointer to functions
with the parameter `b`. -/
def functionOfFunction : Tree :=
  .ofParts .c "(*g(a))(b)\x7b\x7d"
    #[⟨.named .c "translation_unit", ⟨0, 12⟩, none, [1], [[1]]⟩,
      ⟨.named .c "function_definition", ⟨0, 12⟩, some 0, [2, 18], [[], [2], [18]]⟩,
      ⟨.named .c "function_declarator", ⟨0, 10⟩, some 1, [3, 14], [[3], [14]]⟩,
      ⟨.named .c "parenthesized_declarator", ⟨0, 7⟩, some 2, [4, 5, 13], [[5]]⟩,
      ⟨.special .terminalSymbol, ⟨0, 1⟩, some 3, [], []⟩,
      ⟨.named .c "pointer_declarator", ⟨1, 6⟩, some 3, [6, 7], [[7]]⟩,
      ⟨.special .terminalSymbol, ⟨1, 2⟩, some 5, [], []⟩,
      ⟨.named .c "function_declarator", ⟨2, 6⟩, some 5, [8, 9], [[8], [9]]⟩,
      ⟨.named .c "identifier", ⟨2, 3⟩, some 7, [], []⟩,
      ⟨.named .c "parameter_list", ⟨3, 6⟩, some 7, [10, 11, 12], [[11]]⟩,
      ⟨.special .terminalSymbol, ⟨3, 4⟩, some 9, [], []⟩,
      ⟨.named .c "type_identifier", ⟨4, 5⟩, some 9, [], []⟩,
      ⟨.special .terminalSymbol, ⟨5, 6⟩, some 9, [], []⟩,
      ⟨.special .terminalSymbol, ⟨6, 7⟩, some 3, [], []⟩,
      ⟨.named .c "parameter_list", ⟨7, 10⟩, some 2, [15, 16, 17], [[16]]⟩,
      ⟨.special .terminalSymbol, ⟨7, 8⟩, some 14, [], []⟩,
      ⟨.named .c "type_identifier", ⟨8, 9⟩, some 14, [], []⟩,
      ⟨.special .terminalSymbol, ⟨9, 10⟩, some 14, [], []⟩,
      ⟨.named .c "compound_statement", ⟨10, 12⟩, some 1, [19], [[]]⟩,
      ⟨.special .terminalSymbol, ⟨10, 12⟩, some 18, [], []⟩]

theorem declares_functionOfFunction :
    functionOfFunction.Valid ∧ ∃ root node top name parameter : Node functionOfFunction,
      ∃ declarators, functionOfFunction.root = .ok root ∧ root.Reaches node ∧
        node.kind.name = "function_definition" ∧ node.HoldsOnly .declarator top ∧
        top.Nests declarators name ∧ declarators.length = 4 ∧ parameter.text = .ok "a" ∧
        node.functionName = .ok (some "g") ∧ node.functionParameters = .ok [parameter] := by
  have hv : functionOfFunction.Valid := by decide +kernel
  let node : Node functionOfFunction := ⟨1, by decide +kernel⟩
  let outer : Node functionOfFunction := ⟨2, by decide +kernel⟩
  let parenthesized : Node functionOfFunction := ⟨3, by decide +kernel⟩
  let pointer : Node functionOfFunction := ⟨5, by decide +kernel⟩
  let inner : Node functionOfFunction := ⟨7, by decide +kernel⟩
  let name : Node functionOfFunction := ⟨8, by decide +kernel⟩
  let list : Node functionOfFunction := ⟨9, by decide +kernel⟩
  let parameter : Node functionOfFunction := ⟨11, by decide +kernel⟩
  let outerList : Node functionOfFunction := ⟨14, by decide +kernel⟩
  have htop : node.HoldsOnly .declarator outer :=
    ⟨.single (some outer), by decide +kernel, rfl⟩
  have hlist : inner.HoldsOnly .parameters list := ⟨.single (some list), by decide +kernel, rfl⟩
  have hnests : outer.Nests [outer, parenthesized, pointer, inner] name := by
    have hplain : ∀ held : Node functionOfFunction, held.kind.name ≠ "function_declarator" →
        held.kind.name = "function_declarator" →
          ∃ list, held.HoldsOnly .parameters list ∧ list.kind.name = "parameter_list" :=
      fun _ hne heq => absurd heq hne
    refine .around (by decide +kernel) ⟨.single (some parenthesized), by decide +kernel, rfl⟩
      (fun _ => ⟨outerList, ⟨.single (some outerList), by decide +kernel, rfl⟩,
        by decide +kernel⟩) ?_
    refine .around (by decide +kernel) ⟨.list [pointer], by decide +kernel, rfl⟩
      (hplain _ (by decide +kernel)) ?_
    refine .around (by decide +kernel) ⟨.single (some inner), by decide +kernel, rfl⟩
      (hplain _ (by decide +kernel)) ?_
    exact .around (by decide +kernel) ⟨.single (some name), by decide +kernel, rfl⟩
      (fun _ => ⟨list, hlist, by decide +kernel⟩) (.name (by decide +kernel))
  obtain ⟨root, hroot, hnodes⟩ := Valid.declares_function functionOfFunction hv
  have howns : root.Owns node := by
    rw [hv.owns_iff, hasParent_iff, id_of_root hroot]
    decide +kernel
  obtain ⟨⟨text, htext, hname⟩, -, hparameters⟩ := (hnodes node (.single howns)).2 (.inl rfl)
    (by decide +kernel) outer _ name htop hnests
  obtain ⟨elements, hstored, -, hread⟩ := hparameters [outer, parenthesized, pointer] inner []
    list rfl (by decide +kernel) (by simp) hlist
  have hg : name.text = .ok "g" := by decide +kernel
  cases hg.symm.trans htext
  have hids : elements.map (·.id) = [parameter].map (·.id) :=
    (List.cons.inj (hstored.symm.trans (by decide +kernel : list.data.slots = [[11]]))).1
  obtain rfl := List.map_injective_iff.2 (fun _ _ => node_ext) hids
  exact ⟨hv, root, node, outer, name, parameter, _, hroot, .single howns, by decide +kernel, htop,
    hnests, rfl, by decide +kernel, hname, hread⟩

end Tree

end CodeTree
