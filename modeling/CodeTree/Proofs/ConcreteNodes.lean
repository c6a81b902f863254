import CodeTree.Concrete
import CodeTree.Proofs.KindNames
import Mathlib.Data.List.Infix

/-!
# What the nodes of concrete trees stand for

`Head.kind?` is the production a node stands for, read off the table of the grammar by its name, and
`slotIn?` the slot of a parent that a child fills by its field. Comments, and unknown productions
that consist of fixed tokens alone (`SpellsSymbol`), are told from other nodes by their marks. None
of this depends on an order in which nodes are visited.

The names in a grammar are all different, so a kind is the one of its name (`kind?_eq_some_iff`).
-/

namespace CodeTree

namespace Concrete

namespace Head

/-- Nodes that the parser made up and nodes with an empty range cover no text. -/
def Covers (head : Head) : Prop := head.missing = false ∧ head.span.start ≠ head.span.stop

/-- Comments are the extras whose names mention it. -/
def IsComment (head : Head) : Prop :=
  head.extra = true ∧ "comment".toList <:+: head.name.toList

/-- The production of a grammar that a node has the name of. Errors and tokens have none. -/
def kind? (language : Language) (head : Head) : Option NodeKind :=
  if head.named = true ∧ head.error = false then
    (NodeKind.allOf language).find? fun kind => kind.name == head.name
  else none

instance (head : Head) : Decidable head.Covers := inferInstanceAs (Decidable (_ ∧ _))

instance (head : Head) : Decidable head.IsComment := inferInstanceAs (Decidable (_ ∧ _))

theorem covers_iff {head : Head} : head.Covers ↔ head.isEmpty = false := by
  rw [Covers, isEmpty, Span.isEmpty, Bool.or_eq_false_iff, beq_eq_false_iff_ne]

theorem not_covers_iff {head : Head} : ¬head.Covers ↔ head.isEmpty = true := by
  rw [covers_iff, Bool.not_eq_false]

variable {language : Language} {head : Head} {kind : NodeKind}

theorem kind?_eq_some_iff : head.kind? language = some kind ↔
    head.named = true ∧ head.error = false ∧ kind.language? = some language ∧
      kind.name = head.name := by
  rw [kind?]
  split
  · next hmarks =>
    rw [NodeKind.find?_allOf_eq_some_iff]
    exact ⟨fun h => ⟨hmarks.1, hmarks.2, h⟩, fun h => h.2.2⟩
  · next hmarks => simpa using fun hnamed herror => absurd ⟨hnamed, herror⟩ hmarks

theorem language_of_kind? (h : head.kind? language = some kind) :
    kind.language? = some language := (kind?_eq_some_iff.1 h).2.2.1

theorem kind?_of_error (he : head.error = true) : head.kind? language = none := by
  rw [kind?, if_neg (by simp [he])]

end Head

/-- Unknown productions that consist of fixed tokens spell a symbol. -/
def SpellsSymbol (language : Language) (node : Concrete) : Prop :=
  node.head.named = true ∧ node.head.error = false ∧ node.children ≠ [] ∧
    node.head.kind? language = none ∧
      ∀ child ∈ node.children, child.head.named = false ∧ child.head.extra = false

/-- A token beside a named node of its field, as the semicolon behind a condition. -/
def Punctuates (siblings : List Concrete) (child : Concrete) : Prop :=
  child.head.named = false ∧
    ∃ sibling ∈ siblings, sibling.head.named = true ∧ sibling.head.field = child.head.field

instance (language : Language) (node : Concrete) : Decidable (node.SpellsSymbol language) :=
  inferInstanceAs (Decidable (_ ∧ _))

instance (siblings : List Concrete) (child : Concrete) : Decidable (child.Punctuates siblings) :=
  inferInstanceAs (Decidable (_ ∧ _))

/-- The slot of a parent that has the name of the field of a child. -/
def slotIn? (language : Language) (parent : NodeKind) (siblings : List Concrete)
    (child : Concrete) : Option Slot :=
  if child.SpellsSymbol language ∨ child.Punctuates siblings then none
  else (parent.slots.map (·.slot)).find? fun slot => child.head.field = some slot.text

variable {language : Language} {parent : NodeKind} {siblings : List Concrete} {child : Concrete}
  {slot : Slot}

theorem slotIn?_eq_some_iff : child.slotIn? language parent siblings = some slot ↔
    ¬child.SpellsSymbol language ∧ ¬child.Punctuates siblings ∧
      child.head.field = some slot.text ∧ parent.declares slot = true := by
  rw [slotIn?, NodeKind.declares_iff_mem]
  split
  · next hno => simpa using fun hsymbol hpunctuates => absurd hno (not_or.2 ⟨hsymbol, hpunctuates⟩)
  · next hplain =>
    obtain ⟨hsymbol, hpunctuates⟩ := not_or.1 hplain
    constructor
    · intro h
      exact ⟨hsymbol, hpunctuates, by simpa using List.find?_some h, List.mem_of_find?_eq_some h⟩
    · rintro ⟨-, -, hfield, hm⟩
      rw [hfield]
      have hsome : ((parent.slots.map (·.slot)).find? fun other =>
          some slot.text = some other.text).isSome = true :=
        List.find?_isSome.2 ⟨slot, hm, by simp⟩
      obtain ⟨found, hfound⟩ := Option.isSome_iff_exists.1 hsome
      have htext : slot.text = found.text := by simpa using List.find?_some hfound
      rw [hfound, Slot.text_injective htext]

theorem slotIn?_of_fieldless (h : child.head.field = none) :
    child.slotIn? language parent siblings = none := by
  rw [slotIn?, h]
  split <;> simp

theorem slotIn?_of_spellsSymbol (h : child.SpellsSymbol language) :
    child.slotIn? language parent siblings = none := by
  rw [slotIn?, if_pos (.inl h)]

end Concrete

end CodeTree
