import CodeTree.Kind.Capability

/-!
# Productions

A production is what a grammar says of one kind of node: its name in the grammar, the capitalised
title under which trees store it, its capabilities and its slots. Terminal productions carry text
and no children; they always have the `terminal` capability.
-/

namespace CodeTree

structure Production where
  title : String
  name : String
  capabilities : CapabilitySet
  slots : List SlotDecl
  terminal : Bool
  deriving DecidableEq

namespace Production

/-- A production whose nodes are leaves with text of their own. -/
def leaf (title name : String) (capabilities : List Capability) : Production :=
  ⟨title, name, (CapabilitySet.ofList capabilities).union (.singleton .terminal), [], true⟩

def node (title name : String) (capabilities : List Capability) (slots : List SlotDecl) :
    Production :=
  ⟨title, name, .ofList capabilities, slots, false⟩

end Production

end CodeTree
