import CodeTree.Tree.Error

/-!
# Consistency of the grammars

A kind declares every slot that its capabilities require, terminal kinds declare none and are those
with the `terminal` capability, no slot is declared twice, and at most one slot is a rest slot,
which is plural. Within a language, every production is found under its own name.
-/

namespace CodeTree.Consistency

/-- Some capability of the kind requires a slot that is not declared: the first such pair. -/
def missingSlot? (kind : NodeKind) : Option (Capability × Slot) :=
  kind.capabilities.toList.findSome? fun capability =>
    (capability.requiredSlots.find? fun slot => !kind.declares slot).map (capability, ·)

def checkDecls (kind : NodeKind) : List Slot → List SlotDecl → Except TreeError Unit
  | _, [] => .ok ()
  | seen, decl :: rest => do
    ensure (!seen.contains decl.slot) (.malformed kind (some decl.slot) .slotDeclaredTwice)
    ensure (!decl.rest || decl.arity == .many)
      (.malformed kind (some decl.slot) .singularRestSlot)
    checkDecls kind (decl.slot :: seen) rest

def checkRequired (kind : NodeKind) : Except TreeError Unit :=
  match missingSlot? kind with
  | some (capability, slot) => .error (.malformed kind (some slot) (.slotRequiredBy capability))
  | none => .ok ()

def checkKind (kind : NodeKind) : Except TreeError Unit := do
  checkRequired kind
  ensure (!kind.isTerminal || kind.slots.isEmpty) (.malformed kind none .terminalDeclaresSlots)
  ensure (kind.isTerminal == kind.has .terminal) (.malformed kind none .terminalFlagDisagrees)
  checkDecls kind [] kind.slots
  ensure (kind.slots.countP (·.rest) ≤ 1) (.malformed kind none .severalRestSlots)

def checkGrammar (language : Language) : List String → List NodeKind → Except TreeError Unit
  | _, [] => .ok ()
  | seen, kind :: rest => do
    checkKind kind
    ensure (!seen.contains kind.name) (.malformed kind none .productionDeclaredTwice)
    ensure (NodeKind.resolve? language kind.name == some kind)
      (.malformed kind none .productionDoesNotResolve)
    checkGrammar language (kind.name :: seen) rest

def check : Except TreeError Unit := do
  Language.all.forM fun language => checkGrammar language [] (NodeKind.allOf language)
  SpecialKind.all.forM fun kind => checkKind (.special kind)

end CodeTree.Consistency
