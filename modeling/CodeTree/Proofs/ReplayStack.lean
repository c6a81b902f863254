import CodeTree.Proofs.BuilderMoves

/-!
# Open nodes and replays

A builder keeps two stacks: the open nodes and the replays of the alternatives among them. They stay
in step whatever events come (`InStep`): each open alternative has a replay, which goes through the
text between the start of the variation point around it and where the builder stood when the
alternative was opened. The relation follows the stack of open nodes from the inside out, so a step
changes it at its head only, except that the cursor or the source moves on.

What an open node is told to be is also what is stored of it, and that it was opened as an
alternative can be seen from what the node around it has pending (`Filed`).
-/

namespace CodeTree

namespace Builder

variable {source text : String} {stack outer : List OpenNode} {node top : OpenNode}
  {replays inner : List Replay} {replay : Replay}

def reached (source : String) : List Replay → Nat
  | [] => source.utf8ByteSize
  | replay :: _ => replay.cursor

theorem position_eq_reached (builder : Builder) :
    builder.position = reached builder.source builder.replays := by
  rw [position]
  cases builder.replays <;> rfl

/-- Open nodes and the replays of the alternatives among them. -/
inductive InStep (source : String) : List OpenNode → List Replay → Prop where
  | outside : InStep source [] []
  | attached {stack : List OpenNode} {replays : List Replay} (node : OpenNode)
      (around : InStep source stack replays) (attached : node.detached = false)
      (range : Utf8.isRange node.start (reached source replays) source.toList = true) :
      InStep source (node :: stack) replays
  | alternative {outer : List OpenNode} {replays : List Replay} (node point : OpenNode)
      (replay : Replay) (around : InStep source (point :: outer) replays)
      (detached : node.detached = true) (kind : point.kind = .special .variationPoint)
      (start : node.start = point.start)
      (range : Utf8.isRange point.start replay.cursor source.toList = true)
      (within : replay.Within source) (stop : replay.stop = reached source replays) :
      InStep source (node :: point :: outer) (replay :: replays)

namespace InStep

theorem isRange_start (h : InStep source (node :: stack) replays) :
    Utf8.isRange node.start (reached source replays) source.toList = true := by
  cases h with
  | attached _ around attached range => exact range
  | alternative _ point replay around detached kind start range within stop =>
    rw [start]
    exact range

theorem isBoundary_reached (h : InStep source stack replays) :
    Utf8.isBoundary (reached source replays) source.toList = true := by
  cases h with
  | outside =>
    rw [reached, ← Utf8.size_toList]
    exact Utf8.isBoundary_size _
  | attached node around attached range => exact (Utf8.isRange_iff.1 range).2.2
  | alternative node point replay around detached kind start range within stop =>
    exact (Utf8.isRange_iff.1 range).2.2

theorem within_head (h : InStep source stack replays) :
    ∀ replay ∈ replays.head?, replay.Within source := by
  induction h with
  | outside => simp
  | attached node around attached range ih => exact ih
  | alternative node point replay around detached kind start range within stop ih =>
    intro other hm
    obtain rfl := Option.some.inj hm
    exact within

theorem told (h : InStep source stack replays) (added : Added) :
    InStep source (told stack added) replays := by
  cases h with
  | outside => exact .outside
  | attached node around attached range =>
    exact .attached { node with pending := node.pending ++ [added] } around attached range
  | alternative node point replay around detached kind start range within stop =>
    exact .alternative { node with pending := node.pending ++ [added] } point replay around detached
      kind start range within stop

theorem grow (h : InStep source stack replays) (hr : replays = []) (text : String) :
    InStep (source ++ text) stack [] := by
  induction h with
  | outside => exact .outside
  | attached node around attached range ih =>
    refine .attached node (ih hr) attached ?_
    rw [hr, reached] at range
    rw [reached, String.toList_append]
    have hrange := Utf8.isRange_append range text.toList
    have hrest := (Occurs.append_iff.1 (Occurs.self (source ++ text))).2.isRange
    rw [Nat.zero_add, String.toList_append, ← String.utf8ByteSize_append] at hrest
    exact Utf8.isRange_trans hrange hrest
  | alternative => cases hr

theorem advance (h : InStep source stack (replay :: inner)) {cursor : Nat}
    (hr : Utf8.isRange replay.cursor cursor source.toList = true)
    (hs : Utf8.isRange cursor replay.stop source.toList = true) :
    InStep source stack (⟨cursor, replay.stop⟩ :: inner) := by
  generalize hall : replay :: inner = all at h
  induction h with
  | outside => cases hall
  | attached node around attached range ih =>
    subst hall
    exact .attached node (ih rfl) attached (Utf8.isRange_trans range hr)
  | alternative node point other around detached kind start range within stop ih =>
    obtain ⟨rfl, rfl⟩ := List.cons.inj hall
    exact .alternative node point ⟨cursor, replay.stop⟩ around detached kind start
      (Utf8.isRange_trans range hr) hs stop

theorem enter (h : InStep source stack replays) (id : NodeId) (kind : NodeKind) :
    InStep source (⟨id, kind, reached source replays, false, []⟩ :: stack) replays :=
  .attached _ h rfl (Utf8.isRange_self h.isBoundary_reached)

theorem attempt (h : InStep source (top :: outer) replays)
    (hk : top.kind = .special .variationPoint) (id : NodeId) (kind : NodeKind) :
    InStep source (⟨id, kind, top.start, true, []⟩ :: top :: outer)
      (⟨top.start, reached source replays⟩ :: replays) := by
  have hrange := h.isRange_start
  exact .alternative _ top _ h rfl hk rfl
    (Utf8.isRange_self (Utf8.isRange_iff.1 hrange).2.1) hrange rfl

theorem leave (h : InStep source (node :: outer) replays) :
    InStep source outer (if node.detached then replays.drop 1 else replays) := by
  cases h with
  | attached _ around attached range => simpa [attached] using around
  | alternative _ point replay around detached kind start range within stop =>
    simpa [detached] using around

end InStep

variable {builder after : Builder} {event : Event}

/-- Whatever an event does, the two stacks stay in step. -/
theorem Moves.inStep (hm : builder.Moves event after)
    (h : InStep builder.source builder.stack builder.replays) :
    InStep after.source after.stack after.replays := by
  cases hm with
  | refused => exact h
  | opened slot kind hfirst =>
    rw [entered, push_eq, position_eq_reached]
    exact (h.told _).enter _ _
  | alternative kind point outer hs hk =>
    have hstart : (builder.replaying point).position = point.start := rfl
    rw [entered, push_eq, hstart]
    simp only [replaying, position_eq_reached, hs]
    rw [hs] at h
    exact (h.told _).attempt hk _ _
  | closed node outer hs =>
    rw [hs] at h
    exact h.leave
  | read slot kind text hs hr =>
    rw [push_eq, grown, hr]
    exact (h.grow hr text).told _
  | replayed slot kind text replay outer hs hr ha =>
    rw [push_eq, advanced]
    have hrange := ha.isRange (h.within_head replay (by simp [hr]))
    rw [hr] at h
    exact (h.advance hrange.1 hrange.2).told _

def header? (nodes : Array NodeData) (id : NodeId) : Option (NodeKind × Nat) :=
  nodes[id]?.map fun data => (data.kind, data.span.start)

def findsAlternative (stack : List OpenNode) (id : NodeId) : Bool :=
  match stack with
  | [] => false
  | parent :: _ => parent.pending.any fun added => added.id == id && added.detached

/-- Whether all that open nodes were told is also found among the stored nodes, and that they are
alternatives in what the nodes around them have pending. -/
structure Filed (nodes : Array NodeData) (stack : List OpenNode) : Prop where
  stored : ∀ node ∈ stack, header? nodes node.id = some (node.kind, node.start)
  pending : ∀ node ∈ stack, ∀ added ∈ node.pending,
    (header? nodes added.id).map (·.1) = some added.kind
  found : ∀ node outer, node :: outer <:+ stack → findsAlternative outer node.id = node.detached

variable {nodes : Array NodeData}

theorem header?_push {id : NodeId} {header : NodeKind × Nat} (h : header? nodes id = some header)
    (data : NodeData) : header? (nodes.push data) id = some header := by
  obtain ⟨old, hold, rfl⟩ := Option.map_eq_some_iff.1 h
  obtain ⟨hlt, -⟩ := Array.getElem?_eq_some_iff.1 hold
  rw [header?, Array.getElem?_push, if_neg (Nat.ne_of_lt hlt), hold]
  rfl

theorem header?_push_size (data : NodeData) :
    header? (nodes.push data) nodes.size = some (data.kind, data.span.start) := by
  rw [header?, Array.getElem?_push, if_pos rfl]
  rfl

theorem header?_modify {f : NodeData → NodeData}
    (hf : ∀ data, (f data).kind = data.kind ∧ (f data).span.start = data.span.start)
    (i id : NodeId) : header? (nodes.modify i f) id = header? nodes id := by
  rw [header?, header?, Array.getElem?_modify]
  by_cases hi : i = id
  · rw [if_pos hi, Option.map_map]
    congr 1
    funext data
    simp [hf data]
  · rw [if_neg hi]

theorem lt_size_of_header? {id : NodeId} {header : NodeKind × Nat}
    (h : header? nodes id = some header) : id < nodes.size := by
  obtain ⟨old, hold, -⟩ := Option.map_eq_some_iff.1 h
  exact (Array.getElem?_eq_some_iff.1 hold).1

namespace Filed

theorem nil : Filed #[] [] := ⟨by simp, by simp, by simp⟩

theorem tail (h : Filed nodes (node :: outer)) : Filed nodes outer :=
  ⟨fun other hm => h.stored other (List.mem_cons_of_mem _ hm),
    fun other hm => h.pending other (List.mem_cons_of_mem _ hm),
    fun other rest hs => h.found other rest (hs.trans (List.suffix_cons _ _))⟩

theorem congr {other : Array NodeData} (h : Filed nodes stack)
    (heq : ∀ id, header? other id = header? nodes id) : Filed other stack := by
  refine ⟨fun node hm => ?_, fun node hm added ha => ?_, h.found⟩
  · rw [heq]
    exact h.stored node hm
  · rw [heq]
    exact h.pending node hm added ha

theorem findsAlternative_size (h : Filed nodes stack) (kind : NodeKind) (slot : Option Slot)
    (detached : Bool) :
    findsAlternative (Builder.told stack ⟨nodes.size, kind, slot, detached⟩) nodes.size =
      (!stack.isEmpty && detached) := by
  cases stack with
  | nil => rfl
  | cons top outer =>
    have hnone :
        (top.pending.any fun added => added.id == nodes.size && added.detached) = false := by
      rw [List.any_eq_false]
      intro added ha
      obtain ⟨header, hheader, -⟩ :=
        Option.map_eq_some_iff.1 (h.pending top List.mem_cons_self added ha)
      have hne := Nat.ne_of_lt (lt_size_of_header? hheader)
      simp [hne]
    simp [findsAlternative, Builder.told, List.any_append, hnone]

theorem told (h : Filed nodes stack) (data : NodeData) (slot : Option Slot) (detached : Bool) :
    Filed (nodes.push data) (Builder.told stack ⟨nodes.size, data.kind, slot, detached⟩) := by
  cases stack with
  | nil => exact ⟨by simp [Builder.told], by simp [Builder.told], by simp [Builder.told]⟩
  | cons top outer =>
    refine ⟨fun node hm => ?_, fun node hm added ha => ?_, fun node rest hs => ?_⟩
    · rcases List.mem_cons.1 hm with rfl | hm
      · exact header?_push (h.stored top List.mem_cons_self) data
      · exact header?_push (h.stored node (List.mem_cons_of_mem _ hm)) data
    · have hold : ∀ node ∈ top :: outer, ∀ added ∈ node.pending,
          (header? (nodes.push data) added.id).map (·.1) = some added.kind := by
        intro node hm added ha
        obtain ⟨header, hheader, hkind⟩ := Option.map_eq_some_iff.1 (h.pending node hm added ha)
        rw [header?_push hheader data, Option.map_some, hkind]
      rcases List.mem_cons.1 hm with rfl | hm
      · rcases List.mem_append.1 ha with ha | ha
        · exact hold top List.mem_cons_self added ha
        · obtain rfl := List.mem_singleton.1 ha
          rw [header?_push_size, Option.map_some]
      · exact hold node (List.mem_cons_of_mem _ hm) added ha
    · rcases List.suffix_cons_iff.1 hs with heq | hs
      · obtain ⟨rfl, rfl⟩ := List.cons.inj heq
        exact h.found top rest List.suffix_rfl
      · exact h.found node rest (hs.trans (List.suffix_cons _ _))

theorem enter (h : Filed nodes stack) (data : NodeData) (slot : Option Slot) (detached : Bool)
    (hroot : stack = [] → detached = false) :
    Filed (nodes.push data)
      (⟨nodes.size, data.kind, data.span.start, detached, []⟩ ::
        Builder.told stack ⟨nodes.size, data.kind, slot, detached⟩) := by
  have htold := h.told data slot detached
  refine ⟨fun node hm => ?_, fun node hm added ha => ?_, fun node rest hs => ?_⟩
  · rcases List.mem_cons.1 hm with rfl | hm
    · exact header?_push_size data
    · exact htold.stored node hm
  · rcases List.mem_cons.1 hm with rfl | hm
    · cases ha
    · exact htold.pending node hm added ha
  · rcases List.suffix_cons_iff.1 hs with heq | hs
    · obtain ⟨rfl, rfl⟩ := List.cons.inj heq
      rw [h.findsAlternative_size]
      cases stack with
      | nil => rw [hroot rfl]; rfl
      | cons top outer => rfl
    · exact htold.found node rest hs

end Filed

theorem Moves.filed (hm : builder.Moves event after) (h : Filed builder.nodes builder.stack) :
    Filed after.nodes after.stack := by
  cases hm with
  | refused => exact h
  | opened slot kind hfirst =>
    rw [entered, push_eq]
    exact h.enter ⟨kind, _, _, _, _⟩ slot false fun _ => rfl
  | alternative kind point outer hs hk =>
    rw [entered, push_eq]
    exact h.enter ⟨kind, _, _, _, _⟩ _ true fun hnil => absurd (hs.symm.trans hnil) (by simp)
  | closed node outer hs =>
    rw [hs] at h
    refine h.tail.congr fun id => header?_modify ?_ node.id id
    exact fun _ => ⟨rfl, rfl⟩
  | read slot kind text hs hr =>
    rw [push_eq]
    exact h.told ⟨kind, _, _, _, _⟩ slot false
  | replayed slot kind text replay outer hs hr ha =>
    rw [push_eq]
    exact h.told ⟨kind, _, _, _, _⟩ slot false

def Spanned (source : String) (nodes : Array NodeData) : Prop :=
  ∀ data ∈ nodes, Utf8.isRange data.span.start data.span.stop source.toList = true

theorem Spanned.grow (h : Spanned source nodes) (text : String) :
    Spanned (source ++ text) nodes := by
  intro data hm
  rw [String.toList_append]
  exact Utf8.isRange_append (h data hm) text.toList

theorem Spanned.push (h : Spanned source nodes) {data : NodeData}
    (hd : Utf8.isRange data.span.start data.span.stop source.toList = true) :
    Spanned source (nodes.push data) := by
  intro other hm
  rcases Array.mem_push.1 hm with hm | rfl
  · exact h other hm
  · exact hd

theorem Spanned.close (h : Spanned source nodes) {id : NodeId} {stop : Nat}
    (hd : ∀ data, nodes[id]? = some data →
      Utf8.isRange data.span.start stop source.toList = true)
    (children : List NodeId) (slots : List (List NodeId)) :
    Spanned source (nodes.modify id fun data =>
      { data with span := ⟨data.span.start, stop⟩, children, slots }) := by
  intro data hm
  obtain ⟨i, hi⟩ := Array.mem_iff_getElem?.1 hm
  rw [Array.getElem?_modify] at hi
  by_cases hid : id = i
  · rw [if_pos hid, ← hid] at hi
    obtain ⟨old, hold, rfl⟩ := Option.map_eq_some_iff.1 hi
    exact hd old hold
  · rw [if_neg hid] at hi
    exact h data (Array.mem_of_getElem? hi)

theorem Moves.spanned (hm : builder.Moves event after)
    (h : InStep builder.source builder.stack builder.replays)
    (hf : Filed builder.nodes builder.stack) (hs : Spanned builder.source builder.nodes) :
    Spanned after.source after.nodes := by
  cases hm with
  | refused => exact hs
  | opened slot kind hfirst =>
    rw [entered, push_eq, position_eq_reached]
    exact hs.push (Utf8.isRange_self h.isBoundary_reached)
  | alternative kind point outer hstack hk =>
    rw [entered, push_eq]
    rw [hstack] at h
    exact hs.push (Utf8.isRange_self (Utf8.isRange_iff.1 h.isRange_start).2.1)
  | closed node outer hstack =>
    rw [hstack] at h hf
    refine hs.close (fun data hdata => ?_) _ _
    have hheader := hf.stored node List.mem_cons_self
    rw [header?, hdata] at hheader
    obtain ⟨-, hstart⟩ := Prod.mk.inj (Option.some.inj hheader)
    rw [position_eq_reached, hstart]
    exact h.isRange_start
  | read slot kind text hstack hr =>
    rw [push_eq, position_eq_reached, hr]
    have hrange := (Occurs.append_iff.1 (Occurs.self (builder.source ++ text))).2.isRange
    rw [Nat.zero_add] at hrange
    exact (hs.grow text).push hrange
  | replayed slot kind text replay outer hstack hr ha =>
    rw [push_eq]
    exact hs.push (ha.isRange (h.within_head replay (by simp [hr]))).1

/-- What holds of a builder whatever events it was given. -/
structure Sync (builder : Builder) : Prop where
  inStep : InStep builder.source builder.stack builder.replays
  filed : Filed builder.nodes builder.stack
  spanned : Spanned builder.source builder.nodes

theorem sync_new (language : Language) : (Builder.new language).Sync :=
  ⟨.outside, .nil, by simp [Spanned, new]⟩

theorem Moves.sync (hm : builder.Moves event after) (h : builder.Sync) : after.Sync :=
  ⟨hm.inStep h.inStep, hm.filed h.filed, hm.spanned h.inStep h.filed h.spanned⟩

namespace Sync

theorem exists_moves (h : builder.Sync) (event : Event) :
    ∃ after, builder.Moves event after ∧ builder.Reaches event after :=
  builder.exists_moves h.inStep.within_head event

theorem exists_step (h : builder.Sync) (event : Event) :
    ∃ after, builder.Moves event after ∧
      builder.step event = after.withErrors (builder.errors ++ builder.violations event) := by
  obtain ⟨after, hm, hr⟩ := h.exists_moves event
  exact ⟨after, hm, hr builder.errors⟩

theorem withErrors (h : builder.Sync) (errors : List TreeError) :
    (builder.withErrors errors).Sync := ⟨h.inStep, h.filed, h.spanned⟩

theorem step (h : builder.Sync) (event : Event) : (builder.step event).Sync := by
  obtain ⟨after, hm, hstep⟩ := h.exists_step event
  rw [hstep]
  exact (hm.sync h).withErrors _

theorem run (h : builder.Sync) (events : List Event) : (builder.run events).Sync := by
  induction events generalizing builder with
  | nil => exact h
  | cons event rest ih => exact ih (h.step event)

theorem size_nodes_step_le (h : builder.Sync) (event : Event) :
    builder.nodes.size ≤ (builder.step event).nodes.size := by
  obtain ⟨after, hm, hstep⟩ := h.exists_step event
  rw [hstep]
  exact hm.size_nodes_le

theorem size_nodes_run_le (h : builder.Sync) (events : List Event) :
    builder.nodes.size ≤ (builder.run events).nodes.size := by
  induction events generalizing builder with
  | nil => exact Nat.le_refl _
  | cons event rest ih => exact Nat.le_trans (h.size_nodes_step_le event) (ih (h.step event))

end Sync

theorem sync_run (language : Language) (events : List Event) :
    ((Builder.new language).run events).Sync := (sync_new language).run events

end Builder

end CodeTree
