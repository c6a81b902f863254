import CodeTree.Kind
import Mathlib.Data.List.Nodup

/-!
# What every kind declares

Three facts hold of all grammars and of the special kinds: no slot is declared twice, rest slots are
plural, and terminal kinds declare no slots. Since no slot is declared twice, a slot's position and
its name say the same, and `place` can tell by name where a child of a kind goes. Trivia and errors
are special kinds: no grammar has a production for them.
-/

namespace CodeTree

namespace Production

/-- What the grammars guarantee of a production's slots. -/
structure Regular (production : Production) : Prop where
  nodup : (production.slots.map (·.slot)).Nodup
  arity_of_rest : ∀ decl ∈ production.slots, decl.rest = true → decl.arity = .many
  slots_of_terminal : production.terminal = true → production.slots = []

instance (production : Production) : Decidable production.Regular :=
  decidable_of_iff
    ((production.slots.map (·.slot)).Nodup ∧
      (∀ decl ∈ production.slots, decl.rest = true → decl.arity = .many) ∧
      (production.terminal = true → production.slots = []))
    ⟨fun h => ⟨h.1, h.2.1, h.2.2⟩, fun h => ⟨h.nodup, h.arity_of_rest, h.slots_of_terminal⟩⟩

end Production

theorem Language.regular_of_mem (language : Language) :
    ∀ production ∈ language.grammar, production.Regular := by
  cases language <;> decide +kernel

theorem Language.lacks_of_mem (language : Language) :
    ∀ production ∈ language.grammar, ∀ capability ∈ [Capability.trivia, .error],
      production.capabilities.contains capability = false := by
  cases language <;> decide +kernel

namespace NodeKind

variable {kind : NodeKind}

theorem regular (kind : NodeKind) : kind.production.Regular := by
  cases kind with
  | special kind => cases kind <;> decide
  | grammar language index => exact language.regular_of_mem _ (List.getElem_mem index.isLt)

theorem arity_of_rest {decl : SlotDecl} (h : decl ∈ kind.slots) (hr : decl.rest = true) :
    decl.arity = .many := kind.regular.arity_of_rest decl h hr

theorem slots_of_isTerminal (h : kind.isTerminal = true) : kind.slots = [] :=
  kind.regular.slots_of_terminal h

theorem isNamed_of_language {language : Language} (h : kind.language? = some language) :
    kind.isNamed = true := by
  cases kind with
  | special kind => cases h
  | grammar other index =>
    have hno := other.lacks_of_mem _ (List.getElem_mem index.isLt) .trivia (by decide)
    have htrivia : (NodeKind.grammar other index).isTrivia = false := hno
    simp [isNamed, htrivia, isTerminalSymbol]

/-- The only error nodes with alternatives are variation points. -/
theorem eq_of_isError (he : kind.isError = true)
    (hd : kind.declares .alternatives = true) : kind = .special .variationPoint := by
  cases kind with
  | special kind => cases kind <;> first | rfl | cases hd
  | grammar language index =>
    have hno := language.lacks_of_mem _ (List.getElem_mem index.isLt) .error (by decide)
    exact absurd (hno.symm.trans he) Bool.false_ne_true

theorem ne_of_declares {other : NodeKind} {slot : Slot} (hs : other.declares slot = false)
    (h : kind.declares slot = true) : kind ≠ other := by
  rintro rfl
  rw [hs] at h
  cases h

theorem getElem_slots_inj {i j : Nat} (hi : i < kind.slots.length) (hj : j < kind.slots.length)
    (h : kind.slots[i].slot = kind.slots[j].slot) : i = j := by
  have hn : (kind.slots.map (·.slot)).Nodup := kind.regular.nodup
  have hi' : i < (kind.slots.map (·.slot)).length := by simpa using hi
  have hj' : j < (kind.slots.map (·.slot)).length := by simpa using hj
  have he : (kind.slots.map (·.slot))[i] = (kind.slots.map (·.slot))[j] := by simpa using h
  exact hn.getElem_inj_iff.1 he

theorem eq_of_slot_eq {a b : SlotDecl} (ha : a ∈ kind.slots) (hb : b ∈ kind.slots)
    (h : a.slot = b.slot) : a = b :=
  List.inj_on_of_nodup_map kind.regular.nodup ha hb h

theorem slot?_eq_some_iff {slot : Slot} {decl : SlotDecl} :
    kind.slot? slot = some decl ↔ decl ∈ kind.slots ∧ decl.slot = slot := by
  constructor
  · intro h
    exact ⟨List.mem_of_find?_eq_some h, by simpa using List.find?_some h⟩
  · rintro ⟨hm, rfl⟩
    obtain ⟨other, ho⟩ : ∃ other, kind.slot? decl.slot = some other := by
      rw [← Option.isSome_iff_exists, slot?, List.find?_isSome]
      exact ⟨decl, hm, by simp⟩
    have hslot : other.slot = decl.slot := by simpa using List.find?_some ho
    rwa [eq_of_slot_eq (List.mem_of_find?_eq_some ho) hm hslot] at ho

theorem declares_iff_mem {slot : Slot} :
    kind.declares slot = true ↔ slot ∈ kind.slots.map (·.slot) := by
  simp [declares, slot?, List.find?_isSome]

theorem slotIndex?_eq_some_iff {slot : Slot} {i : Nat} :
    kind.slotIndex? slot = some i ↔ ∃ h : i < kind.slots.length, kind.slots[i].slot = slot := by
  rw [slotIndex?, SlotDecl.indexOf?, List.findIdx?_eq_some_iff_getElem]
  constructor
  · rintro ⟨h, heq, -⟩
    exact ⟨h, by simpa using heq⟩
  · rintro ⟨h, rfl⟩
    refine ⟨h, by simp, fun j hji hj => ?_⟩
    have hlt : j < kind.slots.length := Nat.lt_trans hji h
    have hij : j = i := getElem_slots_inj hlt h (by simpa using hj)
    omega

theorem slotIndex?_isSome_iff {slot : Slot} :
    (kind.slotIndex? slot).isSome = true ↔ kind.declares slot = true := by
  simp [slotIndex?, SlotDecl.indexOf?, declares, slot?, List.find?_isSome]

theorem mem_of_restSlot? {decl : SlotDecl} (h : kind.restSlot? = some decl) :
    decl ∈ kind.slots ∧ decl.rest = true :=
  ⟨List.mem_of_find?_eq_some h, by simpa using List.find?_some h⟩

theorem restIndex?_eq_some_iff {i : Nat} :
    kind.restIndex? = some i ↔
      ∃ h : i < kind.slots.length, kind.restSlot?.map (·.slot) = some kind.slots[i].slot := by
  rw [restIndex?, restSlot?]
  constructor
  · intro h
    obtain ⟨hi, hr, hbefore⟩ := List.findIdx?_eq_some_iff_getElem.1 h
    refine ⟨hi, ?_⟩
    rw [List.find?_eq_some_iff_getElem.2 ⟨hr, i, hi, rfl, fun j hj => by simpa using hbefore j hj⟩]
    rfl
  · rintro ⟨hi, h⟩
    obtain ⟨decl, hfind, hslot⟩ := Option.map_eq_some_iff.1 h
    obtain ⟨hr, j, hj, rfl, hbefore⟩ := List.find?_eq_some_iff_getElem.1 hfind
    have hji := getElem_slots_inj hj hi hslot
    subst hji
    exact List.findIdx?_eq_some_iff_getElem.2 ⟨hj, hr, fun k hk => by simpa using hbefore k hk⟩

/-- The slot of a parent of this kind in which a child stands: the one it was given or, without one,
the rest slot, unless the child is trivia or a terminal symbol. -/
def place (kind : NodeKind) (slot : Option Slot) (child : NodeKind) : Option Slot :=
  match slot with
  | some slot => some slot
  | none => if child.isNamed then kind.restSlot?.map (·.slot) else none

@[simp] theorem place_some (kind : NodeKind) (slot : Slot) (child : NodeKind) :
    kind.place (some slot) child = some slot := rfl

theorem place_none (kind child : NodeKind) :
    kind.place none child = if child.isNamed then kind.restSlot?.map (·.slot) else none := rfl

theorem place_eq_some_iff {decl : SlotDecl} (h : decl ∈ kind.slots) (hr : decl.rest = false)
    {slot : Option Slot} {child : NodeKind} :
    kind.place slot child = some decl.slot ↔ slot = some decl.slot := by
  cases slot with
  | some slot => simp
  | none =>
    rw [place_none]
    constructor
    · intro he
      split at he
      · obtain ⟨rest, hrest, hslot⟩ := Option.map_eq_some_iff.1 he
        obtain ⟨hmem, hrr⟩ := mem_of_restSlot? hrest
        rw [eq_of_slot_eq hmem h hslot, hr] at hrr
        cases hrr
      · cases he
    · intro he
      cases he

end NodeKind

end CodeTree
