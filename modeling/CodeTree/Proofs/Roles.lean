import CodeTree.Proofs.Declarations
import CodeTree.Query.Role

/-!
# What roles rely on

The roles of a language, its capabilities and its slots are separate tables. That they agree is
checked kind by kind: the kinds with the role of a call are those with the capability, likewise for
functions, and a kind declares all slots that its role reads, the callee's as a slot of one node.
Besides, whichever kind declares `items` declares it as a plural slot.
-/

namespace CodeTree

def ListRule.slot? : ListRule → Option Slot
  | .items place | .declarator place => some place
  | .absent => none

def NameRule.slot? : NameRule → Option Slot
  | .slot place | .declarator place => some place
  | .anonymous => none

namespace Role

def capability? : Role → Option Capability
  | .call _ => some .call
  | .function _ => some .function
  | .other => none

def callee? : Role → Option Slot
  | .call rule => some rule.callee
  | _ => none

def slots : Role → List Slot
  | .call rule => rule.callee :: rule.arguments.slot?.toList
  | .function rule =>
    rule.body :: (rule.name.slot?.toList ++ rule.parameters.flatMap (·.slot?.toList))
  | .other => []

end Role

namespace NodeKind

/-- What the tables guarantee of a kind to whoever reads its calls and functions. -/
structure Readable (kind : NodeKind) : Prop where
  call : kind.has .call = true ↔ kind.role.capability? = some .call
  function : kind.has .function = true ↔ kind.role.capability? = some .function
  declares : ∀ slot ∈ kind.role.slots, kind.declares slot = true
  arity_of_callee : ∀ slot ∈ kind.role.callee?, (kind.slot? slot).map (·.arity) = some .one
  arity_of_items : ∀ decl ∈ kind.slot? .items, decl.arity = .many

instance (kind : NodeKind) : Decidable kind.Readable :=
  decidable_of_iff
    ((kind.has .call = true ↔ kind.role.capability? = some .call) ∧
      (kind.has .function = true ↔ kind.role.capability? = some .function) ∧
      (∀ slot ∈ kind.role.slots, kind.declares slot = true) ∧
      (∀ slot ∈ kind.role.callee?, (kind.slot? slot).map (·.arity) = some .one) ∧
      ∀ decl ∈ kind.slot? .items, decl.arity = .many)
    ⟨fun h => ⟨h.1, h.2.1, h.2.2.1, h.2.2.2.1, h.2.2.2.2⟩,
      fun h => ⟨h.call, h.function, h.declares, h.arity_of_callee, h.arity_of_items⟩⟩

theorem readable_of_mem_all : ∀ kind ∈ all, kind.Readable := by decide +kernel

theorem readable (kind : NodeKind) : kind.Readable := readable_of_mem_all kind kind.mem_all

variable {kind : NodeKind}

theorem exists_callRule (h : kind.has .call = true) : ∃ rule, kind.role = .call rule := by
  have hcapability := kind.readable.call.1 h
  cases hrole : kind.role with
  | call rule => exact ⟨rule, rfl⟩
  | function rule => simp [hrole, Role.capability?] at hcapability
  | other => simp [hrole, Role.capability?] at hcapability

theorem exists_functionRule (h : kind.has .function = true) :
    ∃ rule, kind.role = .function rule := by
  have hcapability := kind.readable.function.1 h
  cases hrole : kind.role with
  | call rule => simp [hrole, Role.capability?] at hcapability
  | function rule => exact ⟨rule, rfl⟩
  | other => simp [hrole, Role.capability?] at hcapability

theorem declares_of_callRule {rule : CallRule} (h : kind.role = .call rule) {slot : Slot}
    (hs : slot ∈ rule.arguments.slot?) : kind.declares slot = true := by
  apply kind.readable.declares
  rw [h]
  exact List.mem_cons_of_mem _ (Option.mem_toList.2 hs)

theorem exists_calleeDecl {rule : CallRule} (h : kind.role = .call rule) :
    ∃ decl, kind.slot? rule.callee = some decl ∧ decl.arity = .one := by
  apply Option.map_eq_some_iff.1
  apply kind.readable.arity_of_callee
  rw [h]
  rfl

theorem declares_body {rule : FunctionRule} (h : kind.role = .function rule) :
    kind.declares rule.body = true := by
  apply kind.readable.declares
  rw [h]
  exact List.mem_cons_self

theorem declares_of_nameRule {rule : FunctionRule} (h : kind.role = .function rule) {slot : Slot}
    (hs : slot ∈ rule.name.slot?) : kind.declares slot = true := by
  apply kind.readable.declares
  rw [h]
  exact List.mem_cons_of_mem _ (List.mem_append_left _ (Option.mem_toList.2 hs))

theorem declares_of_parameterRule {rule : FunctionRule} (h : kind.role = .function rule)
    {list : ListRule} (hl : list ∈ rule.parameters) {slot : Slot} (hs : slot ∈ list.slot?) :
    kind.declares slot = true := by
  apply kind.readable.declares
  rw [h]
  refine List.mem_cons_of_mem _ (List.mem_append_right _ ?_)
  exact List.mem_flatMap.2 ⟨list, hl, Option.mem_toList.2 hs⟩

end NodeKind

end CodeTree
