import CodeTree.Proofs.OutlineEvents
import CodeTree.Proofs.OutlineSound

/-!
# Drafts

A draft is a tree as it is written down in events: every node is opened in some way and closed after
its parts, and leaves carry their text. Spans are not written down, they follow from the texts.

`Draft.Sound` says when a node fits its parts, and `WellFormed` says that a stream of events is one
draft whose nodes all do. A draft of a source has an outline, whose events are the events of the
draft (`Every.events_outline`), and the outline is sound if the draft is.
-/

namespace CodeTree

def Occurs (source : String) (pos : Nat) (text : String) : Prop :=
  ∃ before after, source.toList = before ++ (text.toList ++ after) ∧ Utf8.size before = pos

namespace Occurs

variable {source first second text : String} {pos bound : Nat}

theorem self (source : String) : Occurs source 0 source := ⟨[], [], by simp, rfl⟩

theorem isRange (h : Occurs source pos text) :
    Utf8.isRange pos (pos + text.utf8ByteSize) source.toList = true := by
  obtain ⟨before, after, hs, rfl⟩ := h
  rw [hs, Utf8.isRange_iff]
  refine ⟨Nat.le_add_right _ _, Utf8.isBoundary_size_append _ _, ?_⟩
  rw [← List.append_assoc, ← Utf8.size_toList, ← Utf8.size_append]
  exact Utf8.isBoundary_size_append _ _

theorem textAt_eq (h : Occurs source pos text) :
    textAt source ⟨pos, pos + text.utf8ByteSize⟩ = text := by
  obtain ⟨before, after, hs, rfl⟩ := h
  rw [textAt, hs, Utf8.slice_of_split rfl (by rw [Utf8.size_toList]), String.ofList_toList]

theorem before_eq {before before' after after' : List Char}
    (h : before ++ after = before' ++ after') (hs : Utf8.size before = Utf8.size before') :
    before = before' := by
  have htake := Utf8.take_size_append before after
  rw [h, hs, Utf8.take_size_append] at htake
  exact htake.symm

theorem append_iff :
    Occurs source pos (first ++ second) ↔
      Occurs source pos first ∧ Occurs source (pos + first.utf8ByteSize) second := by
  constructor
  · rintro ⟨before, after, hs, rfl⟩
    rw [String.toList_append] at hs
    refine ⟨⟨before, second.toList ++ after, by simpa using hs, rfl⟩,
      before ++ first.toList, after, by simpa using hs, ?_⟩
    rw [Utf8.size_append, Utf8.size_toList]
  · rintro ⟨⟨before, after, hs, rfl⟩, ⟨before', after', hs', hsize⟩⟩
    have hsame : before ++ first.toList ++ after = before' ++ (second.toList ++ after') := by
      rw [List.append_assoc, ← hs, hs']
    have hbefore := before_eq hsame (by rw [Utf8.size_append, Utf8.size_toList, hsize])
    refine ⟨before, after', ?_, rfl⟩
    rw [hs', ← hbefore, String.toList_append]
    simp

theorem of_isPrefix (h : first.toList <+: second.toList) (ho : Occurs source pos second) :
    Occurs source pos first := by
  obtain ⟨rest, hrest⟩ := h
  obtain ⟨before, after, hs, hsize⟩ := ho
  exact ⟨before, rest ++ after, by rw [hs, ← hrest, List.append_assoc], hsize⟩

theorem prefix_of_le (h : Occurs source pos first) (h' : Occurs source pos second)
    (hle : first.utf8ByteSize ≤ second.utf8ByteSize) : first.toList <+: second.toList := by
  obtain ⟨before, after, hs, rfl⟩ := h
  obtain ⟨before', after', hs', hsize⟩ := h'
  obtain rfl := before_eq (hs'.symm.trans hs) hsize
  have hsame := List.append_cancel_left (hs.symm.trans hs')
  have hfirst : first.toList <+: second.toList ++ after' := hsame ▸ List.prefix_append _ _
  rcases List.prefix_or_prefix_of_prefix hfirst (List.prefix_append _ _) with h | ⟨rest, hrest⟩
  · exact h
  · have hzero : Utf8.size rest = 0 := by
      have hlength := congrArg Utf8.size hrest
      rw [Utf8.size_append, Utf8.size_toList, Utf8.size_toList] at hlength
      omega
    rw [Utf8.eq_nil_of_size_eq_zero hzero, List.append_nil] at hrest
    exact hrest ▸ List.prefix_rfl

theorem of_prefix_drop (hr : Utf8.isRange pos bound source.toList = true)
    (h : text.toList <+: Utf8.drop pos (Utf8.take bound source.toList)) :
    Occurs source pos text := by
  obtain ⟨before, middle, after, hs, hpos, hbound⟩ := Utf8.exists_split hr
  change text.toList <+: Utf8.slice pos bound source.toList at h
  rw [hs, Utf8.slice_of_split hpos hbound] at h
  obtain ⟨rest, rfl⟩ := h
  exact ⟨before, rest ++ after, by rw [hs, List.append_assoc], hpos⟩

end Occurs

inductive Draft.Opening where
  | start (slot : Option Slot)
  | alternative
  deriving DecidableEq

inductive Draft where
  | leaf (slot : Option Slot) (kind : NodeKind) (text : String)
  | node (opening : Draft.Opening) (kind : NodeKind) (parts : List Draft)

namespace Draft

namespace Opening

def slot : Opening → Option Slot
  | start slot => slot
  | alternative => some .alternatives

def event (kind : NodeKind) : Opening → Event
  | start slot => .start slot kind
  | alternative => .alternative kind

end Opening

def kind : Draft → NodeKind
  | leaf _ kind _ => kind
  | node _ kind _ => kind

def slot : Draft → Option Slot
  | leaf slot _ _ => slot
  | node opening _ _ => opening.slot

def isLeaf : Draft → Bool
  | leaf .. => true
  | node .. => false

def isAlternative : Draft → Bool
  | leaf .. => false
  | node opening _ _ => opening == .alternative

def parts : Draft → List Draft
  | leaf .. => []
  | node _ _ parts => parts

mutual

def events : Draft → List Event
  | leaf slot kind text => [.leaf slot kind text]
  | node opening kind parts => opening.event kind :: (eventsAll parts ++ [.finish])

def eventsAll : List Draft → List Event
  | [] => []
  | part :: rest => part.events ++ eventsAll rest

end

@[simp] theorem eventsAll_nil : eventsAll [] = [] := by rw [eventsAll]

@[simp] theorem eventsAll_cons (part : Draft) (rest : List Draft) :
    eventsAll (part :: rest) = part.events ++ eventsAll rest := by rw [eventsAll]

mutual

/-- The text of the leaves. Alternatives repeat what is there already. -/
def text : Draft → String
  | leaf _ _ text => text
  | node _ _ parts => textAll parts

def textAll : List Draft → String
  | [] => ""
  | part :: rest => (if part.isAlternative then "" else part.text) ++ textAll rest

end

def added (draft : Draft) : String := if draft.isAlternative then "" else draft.text

@[simp] theorem textAll_nil : textAll [] = "" := by rw [textAll]

@[simp] theorem textAll_cons (part : Draft) (rest : List Draft) :
    textAll (part :: rest) = part.added ++ textAll rest := by rw [textAll, added]

theorem added_of_isAlternative {draft : Draft} (h : draft.isAlternative = true) :
    draft.added = "" := if_pos h

theorem added_of_not_isAlternative {draft : Draft} (h : draft.isAlternative = false) :
    draft.added = draft.text := if_neg (by simp [h])

theorem slot_of_isAlternative {draft : Draft} (h : draft.isAlternative = true) :
    draft.slot = some .alternatives := by
  cases draft with
  | leaf slot kind text => cases h
  | node opening kind parts =>
    rw [isAlternative, beq_iff_eq] at h
    rw [slot, h]
    rfl

theorem isLeaf_of_isAlternative {draft : Draft} (h : draft.isAlternative = true) :
    draft.isLeaf = false := by
  cases draft with
  | leaf slot kind text => cases h
  | node opening kind parts => rfl

mutual

/-- Whether a condition holds at every node of a draft. -/
def Every (P : Draft → Prop) : Draft → Prop
  | leaf slot kind text => P (leaf slot kind text)
  | node opening kind parts => P (node opening kind parts) ∧ EveryPart P parts

def EveryPart (P : Draft → Prop) : List Draft → Prop
  | [] => True
  | part :: rest => part.Every P ∧ EveryPart P rest

end

theorem every_iff {P : Draft → Prop} {draft : Draft} :
    draft.Every P ↔ P draft ∧ EveryPart P draft.parts := by
  cases draft with
  | leaf slot kind text => simp [Every, parts, EveryPart]
  | node opening kind parts => rw [Every, Draft.parts]

theorem everyPart_iff {P : Draft → Prop} {parts : List Draft} :
    EveryPart P parts ↔ ∀ part ∈ parts, part.Every P := by
  induction parts with
  | nil => simp [EveryPart]
  | cons part rest ih => simp [EveryPart, ih]

mutual

theorem Every.mp {P Q : Draft → Prop} : ∀ {draft : Draft},
    draft.Every (fun draft => P draft → Q draft) → draft.Every P → draft.Every Q
  | leaf .., hpq, hp => hpq hp
  | node .., hpq, hp => ⟨hpq.1 hp.1, EveryPart.mp hpq.2 hp.2⟩

theorem EveryPart.mp {P Q : Draft → Prop} : ∀ {parts : List Draft},
    EveryPart (fun draft => P draft → Q draft) parts → EveryPart P parts → EveryPart Q parts
  | [], _, _ => trivial
  | _ :: _, hpq, hp => ⟨Every.mp hpq.1 hp.1, EveryPart.mp hpq.2 hp.2⟩

end

mutual

theorem Every.imp {P Q : Draft → Prop} (h : ∀ draft, P draft → Q draft) :
    ∀ {draft : Draft}, draft.Every P → draft.Every Q
  | leaf .., hp => h _ hp
  | node .., hp => ⟨h _ hp.1, EveryPart.imp h hp.2⟩

theorem EveryPart.imp {P Q : Draft → Prop} (h : ∀ draft, P draft → Q draft) :
    ∀ {parts : List Draft}, EveryPart P parts → EveryPart Q parts
  | [], _ => trivial
  | _ :: _, hp => ⟨Every.imp h hp.1, EveryPart.imp h hp.2⟩

end

/-- Whether every alternative repeats the text before it from its start on. It may stop early. -/
def Replays (before : String) : List Draft → Prop
  | [] => True
  | part :: rest => (part.isAlternative = true → part.text.toList <+: before.toList) ∧
      Replays (before ++ part.added) rest

/-- What a builder asks of a node and its parts: the kind belongs to the language, leaves are
terminal and other nodes are not, the kind declares all slots that the parts name, its slots hold as
many parts as they may, and only variation points have alternatives, which repeat their text. -/
structure Buildable (language : Language) (draft : Draft) : Prop where
  language : ∀ other, draft.kind.language? = some other → other = language
  isTerminal_eq : draft.kind.isTerminal = draft.isLeaf
  declared : ∀ part ∈ draft.parts, ∀ slot, part.slot = some slot →
    draft.kind.declares slot = true
  arity : ∀ decl ∈ draft.kind.slots,
    decl.arity.accepts (draft.parts.countP fun part =>
      draft.kind.place part.slot part.kind == some decl.slot) = true
  owner : ∀ part ∈ draft.parts, part.isAlternative = true →
    draft.kind = .special .variationPoint
  replays : Replays "" draft.parts

/-- What makes a node and its parts fit into a tree: besides, the slot of the alternatives of a
variation point is kept for them. -/
structure Sound (language : Language) (draft : Draft) : Prop
    extends Buildable language draft where
  reserved : ∀ part ∈ draft.parts, draft.kind = .special .variationPoint →
    part.slot = some .alternatives → part.isAlternative = true

end Draft

/-- Whether a stream of events writes down one draft that fits together. The root is opened as a node
and not as an alternative; its slot has no meaning. -/
def WellFormed (language : Language) (events : List Event) : Prop :=
  ∃ slot kind parts, events = (Draft.node (.start slot) kind parts).events ∧
    (Draft.node (.start slot) kind parts).Every (Draft.Sound language)

namespace Draft

def labelAt (draft : Draft) (pos : Nat) : Outline.Label :=
  ⟨draft.kind, draft.slot, ⟨pos, pos + draft.text.utf8ByteSize⟩, draft.isAlternative⟩

/-- Where a part starts: an alternative starts with its owner. -/
def origin (draft : Draft) (start pos : Nat) : Nat := if draft.isAlternative then start else pos

mutual

/-- The outline of a part that comes at `pos` in an owner that starts at `start`. -/
def outline (start pos : Nat) : Draft → Outline
  | leaf slot kind text => .node ((leaf slot kind text).labelAt pos) []
  | node opening kind parts =>
    let first := (node opening kind parts).origin start pos
    .node ((node opening kind parts).labelAt first) (outlineAll first first parts)

def outlineAll (start pos : Nat) : List Draft → List Outline
  | [] => []
  | part :: rest =>
    part.outline start pos :: outlineAll start (pos + part.added.utf8ByteSize) rest

end

@[simp] theorem outlineAll_nil (start pos : Nat) : outlineAll start pos [] = [] := by
  rw [outlineAll]

@[simp] theorem outlineAll_cons (start pos : Nat) (part : Draft) (rest : List Draft) :
    outlineAll start pos (part :: rest) =
      part.outline start pos :: outlineAll start (pos + part.added.utf8ByteSize) rest := by
  rw [outlineAll]

theorem outline_eq (start pos : Nat) (draft : Draft) :
    draft.outline start pos = .node (draft.labelAt (draft.origin start pos))
      (outlineAll (draft.origin start pos) (draft.origin start pos) draft.parts) := by
  cases draft with
  | leaf slot kind text => rw [outline, parts, outlineAll_nil]; rfl
  | node opening kind parts => rw [outline, Draft.parts]

variable {start pos : Nat} {parts : List Draft} {before : String}

theorem label_outline (draft : Draft) :
    (draft.outline start pos).label = draft.labelAt (draft.origin start pos) := by
  rw [outline_eq, Outline.label_node]

theorem exists_of_mem_outlineAll {outline : Outline} (h : outline ∈ outlineAll start pos parts) :
    ∃ part ∈ parts, ∃ pos, outline.label = part.labelAt pos := by
  induction parts generalizing pos with
  | nil => simp at h
  | cons part rest ih =>
    rw [outlineAll_cons, List.mem_cons] at h
    rcases h with rfl | h
    · exact ⟨part, List.mem_cons_self, _, label_outline part⟩
    · obtain ⟨other, hm, hlabel⟩ := ih h
      exact ⟨other, List.mem_cons_of_mem _ hm, hlabel⟩

theorem exists_mem_outlineAll (start pos : Nat) {part : Draft} (h : part ∈ parts) :
    ∃ outline ∈ outlineAll start pos parts, ∃ pos, outline.label = part.labelAt pos := by
  induction parts generalizing pos with
  | nil => cases h
  | cons first rest ih =>
    rw [outlineAll_cons]
    rcases List.mem_cons.1 h with rfl | h
    · exact ⟨_, List.mem_cons_self, _, label_outline part⟩
    · obtain ⟨outline, hm, hlabel⟩ := ih _ h
      exact ⟨outline, List.mem_cons_of_mem _ hm, hlabel⟩

theorem countP_outlineAll {p : Outline → Bool} {q : Draft → Bool}
    (h : ∀ (draft : Draft) (start pos : Nat), p (draft.outline start pos) = q draft) :
    (outlineAll start pos parts).countP p = parts.countP q := by
  induction parts generalizing pos with
  | nil => simp
  | cons part rest ih => simp [List.countP_cons, h, ih]

theorem countP_placeIn (kind : NodeKind) (slot : Slot) :
    ((outlineAll start pos parts).countP fun part => part.label.placeIn kind == some slot) =
      parts.countP fun part => kind.place part.slot part.kind == some slot :=
  countP_outlineAll fun draft _ _ => by rw [label_outline]; rfl

variable {source : String}

theorem occurs_origin {part : Draft} (hb : Occurs source start before)
    (ho : Occurs source pos part.added)
    (hr : part.isAlternative = true → part.text.toList <+: before.toList) :
    Occurs source (part.origin start pos) part.text := by
  rw [origin]
  cases ha : part.isAlternative with
  | true => exact .of_isPrefix (hr ha) hb
  | false =>
    rw [added_of_not_isAlternative ha] at ho
    exact ho

/-- Parts whose texts follow one another take their places one after the other. -/
theorem tiles_outlineAll (start : Nat) (hr : Replays before parts) :
    Outline.Tiles start (start + before.utf8ByteSize)
      (outlineAll start (start + before.utf8ByteSize) parts)
      (start + before.utf8ByteSize + (textAll parts).utf8ByteSize) := by
  induction parts generalizing before with
  | nil =>
    rw [outlineAll_nil, textAll_nil]
    rfl
  | cons part rest ih =>
    have hrest := ih hr.2
    rw [String.utf8ByteSize_append, ← Nat.add_assoc] at hrest
    rw [outlineAll_cons, textAll_cons, String.utf8ByteSize_append, ← Nat.add_assoc]
    cases ha : part.isAlternative with
    | true =>
      have hadded := added_of_isAlternative ha
      rw [hadded] at hrest ⊢
      refine (Outline.Tiles.cons_detached (by rw [label_outline]; exact ha)).2 ⟨?_, ?_, hrest⟩
      · rw [label_outline, origin, if_pos ha]
        rfl
      · obtain ⟨tail, htail⟩ := hr.1 ha
        have hsize := congrArg Utf8.size htail
        rw [Utf8.size_append, Utf8.size_toList, Utf8.size_toList] at hsize
        rw [label_outline, origin, if_pos ha, labelAt]
        simp only
        omega
    | false =>
      have hadded := added_of_not_isAlternative ha
      rw [hadded] at hrest ⊢
      refine (Outline.Tiles.cons_attached (by rw [label_outline]; exact ha)).2 ⟨?_, ?_⟩
      · rw [label_outline, origin, if_neg (by simp [ha])]
        rfl
      · rw [label_outline, origin, if_neg (by simp [ha])]
        exact hrest

section

variable {P : Draft → Prop} {Q : Outline.Label → List Outline → Prop}

mutual

theorem Every.all_outline (hreplays : ∀ draft, P draft → Replays "" draft.parts)
    (h : ∀ (draft : Draft) (pos : Nat), draft.Every P → Occurs source pos draft.text →
      Q (draft.labelAt pos) (outlineAll pos pos draft.parts)) (start pos : Nat) :
    ∀ draft : Draft, draft.Every P → Occurs source (draft.origin start pos) draft.text →
      (draft.outline start pos).All Q
  | leaf slot kind text, he, ho => by
    rw [outline_eq]
    refine Outline.all_node.2 ⟨h _ _ he ho, ?_⟩
    rw [parts, outlineAll_nil]
    trivial
  | node opening kind parts, he, ho => by
    rw [outline_eq]
    refine Outline.all_node.2 ⟨h _ _ he ho, ?_⟩
    have hempty : Occurs source ((node opening kind parts).origin start pos) "" :=
      .of_isPrefix (List.nil_prefix) ho
    rw [text] at ho
    exact EveryPart.allParts_outline hreplays h _ "" parts he.2 hempty ho
      (hreplays _ he.1)

theorem EveryPart.allParts_outline (hreplays : ∀ draft, P draft → Replays "" draft.parts)
    (h : ∀ (draft : Draft) (pos : Nat), draft.Every P → Occurs source pos draft.text →
      Q (draft.labelAt pos) (outlineAll pos pos draft.parts)) (start : Nat) (before : String) :
    ∀ parts : List Draft, EveryPart P parts → Occurs source start before →
      Occurs source (start + before.utf8ByteSize) (textAll parts) → Replays before parts →
        Outline.AllParts Q (outlineAll start (start + before.utf8ByteSize) parts)
  | [], _, _, _, _ => by
    rw [outlineAll_nil]
    trivial
  | part :: rest, he, hb, ho, hr => by
    rw [textAll_cons, Occurs.append_iff] at ho
    have hbefore : Occurs source start (before ++ part.added) := Occurs.append_iff.2 ⟨hb, ho.1⟩
    have hrest := EveryPart.allParts_outline hreplays h start (before ++ part.added) rest he.2
      hbefore (by rw [String.utf8ByteSize_append, ← Nat.add_assoc]; exact ho.2) hr.2
    rw [String.utf8ByteSize_append, ← Nat.add_assoc] at hrest
    rw [outlineAll_cons, Outline.AllParts]
    exact ⟨Every.all_outline hreplays h _ _ part he.1 (occurs_origin hb ho.1 hr.1), hrest⟩

end

mutual

theorem every_of_all (h : ∀ draft pos, Q (draft.labelAt pos) (outlineAll pos pos draft.parts) →
    P draft) (start pos : Nat) :
    ∀ draft : Draft, (draft.outline start pos).All Q → draft.Every P
  | leaf slot kind text, ha => by
    rw [outline_eq, Outline.all_node] at ha
    exact h _ _ ha.1
  | node opening kind parts, ha => by
    rw [outline_eq, Outline.all_node] at ha
    exact ⟨h _ _ ha.1, everyPart_of_allParts h _ _ parts ha.2⟩

theorem everyPart_of_allParts (h : ∀ draft pos, Q (draft.labelAt pos)
    (outlineAll pos pos draft.parts) → P draft) (start pos : Nat) :
    ∀ parts : List Draft, Outline.AllParts Q (outlineAll start pos parts) → EveryPart P parts
  | [], _ => trivial
  | part :: rest, ha => by
    rw [outlineAll_cons, Outline.AllParts] at ha
    exact ⟨every_of_all h start pos part ha.1, everyPart_of_allParts h start _ rest ha.2⟩

end

end

variable {language : Language} {draft : Draft}

theorem detached_outlineAll {kind : NodeKind}
    (h : ∀ part ∈ parts, part.isAlternative = true → kind = .special .variationPoint)
    {outline : Outline} (hm : outline ∈ outlineAll start pos parts)
    (hd : outline.label.detached = true) :
    kind = .special .variationPoint ∧ outline.label.slot = some .alternatives := by
  obtain ⟨part, hpart, _, hlabel⟩ := exists_of_mem_outlineAll hm
  rw [hlabel] at hd ⊢
  exact ⟨h part hpart hd, slot_of_isAlternative hd⟩

theorem EveryPart.structured_outlineAll (h : EveryPart (Buildable language) parts)
    {outline : Outline} (hm : outline ∈ outlineAll start pos parts)
    (hd : outline.label.detached = true) : outline.label.kind.isTerminal = false := by
  obtain ⟨part, hpart, _, hlabel⟩ := exists_of_mem_outlineAll hm
  rw [hlabel] at hd ⊢
  have hterminal := (every_iff.1 (everyPart_iff.1 h part hpart)).1.isTerminal_eq
  rw [isLeaf_of_isAlternative hd] at hterminal
  exact hterminal

/-- Where the text of a node stands in the source, its outline is one that a builder takes. -/
theorem Every.buildable_label (h : draft.Every (Buildable language))
    (ho : Occurs source pos draft.text) :
    Outline.Buildable language source (draft.labelAt pos) (outlineAll pos pos draft.parts) := by
  obtain ⟨hhere, hparts⟩ := every_iff.1 h
  refine ⟨hhere.language, ho.isRange, ?_, ?_, ?_, ?_, ?_, ?_⟩
  · intro ht
    cases draft with
    | leaf slot kind text => rw [parts, outlineAll_nil]
    | node opening kind parts => exact absurd (hhere.isTerminal_eq.symm.trans ht) (by simp [isLeaf])
  · intro ht
    cases draft with
    | leaf slot kind text => exact absurd (hhere.isTerminal_eq.symm.trans ht) (by simp [isLeaf])
    | node opening kind parts =>
      have htiles := tiles_outlineAll pos hhere.replays
      rw [labelAt, text]
      exact htiles
  · intro outline hm
    obtain ⟨part, hpart, _, hlabel⟩ := exists_of_mem_outlineAll hm
    rw [hlabel]
    exact hhere.declared part hpart
  · intro decl hd
    rw [countP_placeIn]
    exact hhere.arity decl hd
  · exact fun _ => detached_outlineAll hhere.owner
  · exact fun _ => hparts.structured_outlineAll

theorem Every.sound_label (h : draft.Every (Sound language)) (ho : Occurs source pos draft.text) :
    Outline.Sound language source (draft.labelAt pos) (outlineAll pos pos draft.parts) := by
  refine ⟨(h.imp fun _ h => h.toBuildable).buildable_label ho, fun outline hm hk hs => ?_⟩
  obtain ⟨part, hpart, _, hlabel⟩ := exists_of_mem_outlineAll hm
  rw [hlabel] at hs ⊢
  exact (every_iff.1 h).1.reserved part hpart hk hs

theorem Buildable.sound_of_label (hb : draft.Buildable language)
    (h : Outline.Sound language source (draft.labelAt pos) (outlineAll pos pos draft.parts)) :
    draft.Sound language := by
  refine ⟨hb, fun part hpart hk hs => ?_⟩
  obtain ⟨outline, hm, _, hlabel⟩ := exists_mem_outlineAll pos pos hpart
  have hreserved := h.reserved outline hm hk
  rw [hlabel] at hreserved
  exact hreserved hs

mutual

theorem Every.events_outline (start pos : Nat) :
    ∀ draft : Draft, draft.Every (Buildable language) →
      Occurs source (draft.origin start pos) draft.text →
        (draft.outline start pos).events source = draft.events
  | leaf slot kind text, h, ho => by
    have ht : kind.isTerminal = true := Buildable.isTerminal_eq h
    rw [outline_eq, Outline.events_leaf source _ ht, events, labelAt]
    simp only [ho.textAt_eq]
    rfl
  | node opening kind parts, h, ho => by
    have ht : kind.isTerminal = false := h.1.isTerminal_eq
    have hempty : Occurs source ((node opening kind parts).origin start pos) "" :=
      .of_isPrefix (List.nil_prefix) ho
    rw [text] at ho
    have hparts := EveryPart.eventsAll_outline _ "" parts h.2 hempty ho h.1.replays
    rw [outline_eq, Outline.events_structured source _ _ ht, events]
    congr 1
    · cases opening <;> rfl
    · exact congrArg (· ++ [Event.finish]) hparts

theorem EveryPart.eventsAll_outline (start : Nat) (before : String) :
    ∀ parts : List Draft, EveryPart (Buildable language) parts → Occurs source start before →
      Occurs source (start + before.utf8ByteSize) (textAll parts) → Replays before parts →
        Outline.eventsAll source (outlineAll start (start + before.utf8ByteSize) parts) =
          eventsAll parts
  | [], _, _, _, _ => by simp
  | part :: rest, h, hb, ho, hr => by
    rw [textAll_cons, Occurs.append_iff] at ho
    have hbefore : Occurs source start (before ++ part.added) := Occurs.append_iff.2 ⟨hb, ho.1⟩
    have hrest := EveryPart.eventsAll_outline start (before ++ part.added) rest h.2
      hbefore (by rw [String.utf8ByteSize_append, ← Nat.add_assoc]; exact ho.2) hr.2
    rw [String.utf8ByteSize_append, ← Nat.add_assoc] at hrest
    rw [outlineAll_cons, Outline.eventsAll_cons, eventsAll_cons, hrest,
      Every.events_outline _ _ part h.1 (occurs_origin hb ho.1 hr.1)]

end

end Draft

end CodeTree
