import CodeTree.Proofs.Outline
import CodeTree.Proofs.Utf8Slices
import CodeTree.Tree.Event

/-!
# The events of an outline

The events of an outline open its nodes, fill them and close them in pre-order; leaves carry the
text of their span.
-/

namespace CodeTree

def textAt (source : String) (span : Span) : String :=
  String.ofList (Utf8.slice span.start span.stop source.toList)

def textBefore (source : String) (pos : Nat) : String :=
  String.ofList (Utf8.take pos source.toList)

theorem utf8ByteSize_textAt {source : String} {span : Span}
    (h : Utf8.isRange span.start span.stop source.toList = true) :
    (textAt source span).utf8ByteSize = span.stop - span.start := by
  rw [textAt, ← Utf8.size_eq_utf8ByteSize, Utf8.size_slice h]

theorem utf8ByteSize_textBefore {source : String} {pos : Nat}
    (h : Utf8.isBoundary pos source.toList = true) :
    (textBefore source pos).utf8ByteSize = pos := by
  rw [textBefore, ← Utf8.size_eq_utf8ByteSize, Utf8.size_take h]

theorem textBefore_append_textAt {source : String} {span : Span}
    (h : Utf8.isRange span.start span.stop source.toList = true) :
    textBefore source span.start ++ textAt source span = textBefore source span.stop := by
  rw [textBefore, textAt, textBefore, ← String.ofList_append, Utf8.take_append_slice h]

theorem textBefore_zero (source : String) : textBefore source 0 = "" := by
  rw [textBefore, Utf8.take_zero]

theorem textAt_zero (source : String) (pos : Nat) :
    textAt source ⟨0, pos⟩ = textBefore source pos := by
  rw [textAt, textBefore, Utf8.slice, Utf8.drop]

theorem textBefore_size (source : String) : textBefore source source.utf8ByteSize = source := by
  rw [textBefore, ← Utf8.size_toList, Utf8.take_size, String.ofList_toList]

namespace Outline

def Label.opening (label : Label) : Event :=
  if label.detached then .alternative label.kind else .start label.slot label.kind

mutual

/-- The events that build an outline of a source. -/
def events (source : String) : Outline → List Event
  | .node label parts =>
    if label.kind.isTerminal then [.leaf label.slot label.kind (textAt source label.span)]
    else label.opening :: (eventsAll source parts ++ [.finish])

def eventsAll (source : String) : List Outline → List Event
  | [] => []
  | part :: rest => part.events source ++ eventsAll source rest

end

@[simp] theorem eventsAll_nil (source : String) : eventsAll source [] = [] := by rw [eventsAll]

@[simp] theorem eventsAll_cons (source : String) (part : Outline) (rest : List Outline) :
    eventsAll source (part :: rest) = part.events source ++ eventsAll source rest := by
  rw [eventsAll]

@[simp] theorem eventsAll_append (source : String) (first second : List Outline) :
    eventsAll source (first ++ second) = eventsAll source first ++ eventsAll source second := by
  induction first with
  | nil => simp
  | cons part rest ih => simp [ih]

theorem events_leaf (source : String) {label : Label} (parts : List Outline)
    (h : label.kind.isTerminal = true) :
    (node label parts).events source =
      [.leaf label.slot label.kind (textAt source label.span)] := by
  rw [events, if_pos h]

theorem events_structured (source : String) (label : Label) (parts : List Outline)
    (h : label.kind.isTerminal = false) :
    (node label parts).events source = label.opening :: (eventsAll source parts ++ [.finish]) := by
  rw [events, if_neg (by simp [h])]

end Outline

end CodeTree
