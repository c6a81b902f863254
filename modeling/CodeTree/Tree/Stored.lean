import CodeTree.Json
import CodeTree.Tree.Validity

/-!
# The stored form of a tree

A tree is stored as a JSON object of its language, its source and its nodes. Writing gives one form;
reading takes a few more: a record may be the list of all its fields in order, a name `X` may be the
object `{"X": null}`, a missing parent is none, and unknown fields are ignored. What was read counts
only if it is a valid tree.
-/

namespace CodeTree

namespace Stored

def ofId (id : NodeId) : Json := .nat id

def ofIds (ids : List NodeId) : Json := .array (ids.map ofId)

def ofKind (kind : NodeKind) : Json := .object [(kind.title.1, .string kind.title.2)]

def ofSpan (span : Span) : Json := .object [("start", .nat span.start), ("end", .nat span.stop)]

def ofParent : Option NodeId → Json
  | some id => ofId id
  | none => .null

def ofNode (data : NodeData) : Json :=
  .object [("kind", ofKind data.kind), ("span", ofSpan data.span),
    ("parent", ofParent data.parent), ("children", ofIds data.children),
    ("slots", .array (data.slots.map ofIds))]

/-- The fields of a record: by name, or all of them in a list. -/
def record? (names : List String) : Json → Option (List (Option Json))
  | .object fields => some (names.map fun name => Json.field? name (.object fields))
  | .array items => if items.length = names.length then some (items.map some) else none
  | _ => none

/-- A name: a string, or an object with the name as its one key and no value. -/
def name? : Json → Option String
  | .string name => some name
  | .object [(name, .null)] => some name
  | _ => none

def language? (json : Json) : Option Language := (name? json).bind Language.ofTitle?

def kind? : Json → Option NodeKind
  | .object [(group, title)] => (name? title).bind (NodeKind.ofTitle? group)
  | _ => none

def natBelow? (limit : Nat) (json : Json) : Option Nat := json.nat?.filter (· < limit)

/-- Ids are words of 32 bits. -/
def id? : Json → Option NodeId := natBelow? 0x100000000

/-- Offsets are words of 64 bits. -/
def offset? : Json → Option Nat := natBelow? 0x10000000000000000

def ids? : Json → Option (List NodeId) := Json.listOf? id?

def span? (json : Json) : Option Span :=
  match record? ["start", "end"] json with
  | some [some start, some stop] => do return ⟨← offset? start, ← offset? stop⟩
  | _ => none

def parent? : Option Json → Option (Option NodeId)
  | none | some .null => some none
  | some json => (id? json).map some

def node? (json : Json) : Option NodeData :=
  match record? ["kind", "span", "parent", "children", "slots"] json with
  | some [some kind, some span, parent, some children, some slots] => do
    return ⟨← kind? kind, ← span? span, ← parent? parent, ← ids? children,
      ← Json.listOf? ids? slots⟩
  | _ => none

def tree? (json : Json) : Option Tree :=
  match record? ["language", "source", "nodes"] json with
  | some [some language, some source, some nodes] => do
    return .ofParts (← language? language) (← source.string?)
      (← Json.listOf? node? nodes).toArray
  | _ => none

end Stored

inductive StoredError where
  /-- The value does not have the shape of a tree. -/
  | shape
  | invalid (error : TreeError)
  deriving DecidableEq

namespace Tree

def toJson (tree : Tree) : Json :=
  .object [("language", .string tree.language.title), ("source", .string tree.source),
    ("nodes", .array (tree.nodes.toList.map Stored.ofNode))]

/-- The valid tree with a stored form. -/
def ofJson (json : Json) : Except StoredError Tree :=
  match Stored.tree? json with
  | none => .error .shape
  | some tree =>
    match tree.validate with
    | .ok _ => .ok tree
    | .error error => .error (.invalid error)

end Tree

end CodeTree
