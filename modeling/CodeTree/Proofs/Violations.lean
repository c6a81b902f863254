import CodeTree.Proofs.BuilderLookups

/-!
# Which error a build reports

Every event is held against the builder that the events before it leave behind, and what it violates
there is recorded (`violationsOf`). What was recorded before has no influence on what a builder does
(`Sync.run_withErrors`), so the errors of a run are all its violations in the order of the events,
and the first one is reported. For the same reason an event that is refused might as well not have
been sent, but for the error.
-/

namespace CodeTree

namespace Builder

variable {builder after : Builder} {event : Event} {rest : List Event}

/-- What events violate, each in the builder that the events before it leave behind. -/
def violationsOf (builder : Builder) : List Event → List TreeError
  | [] => []
  | event :: rest => builder.violations event ++ (builder.step event).violationsOf rest

theorem violationsOf_append (builder : Builder) (first second : List Event) :
    builder.violationsOf (first ++ second) =
      builder.violationsOf first ++ (builder.run first).violationsOf second := by
  induction first generalizing builder with
  | nil => rfl
  | cons event first ih =>
    rw [List.cons_append, violationsOf, violationsOf, ih, run_cons, List.append_assoc]

namespace Sync

theorem step_withErrors (h : builder.Sync) (errors : List TreeError) (event : Event) :
    (builder.withErrors errors).step event =
      (builder.step event).withErrors (errors ++ builder.violations event) := by
  obtain ⟨after, -, hreach⟩ := h.exists_moves event
  rw [hreach errors, ← builder.withErrors_errors, hreach builder.errors]
  rfl

theorem run_withErrors (h : builder.Sync) (errors : List TreeError) (events : List Event) :
    (builder.withErrors errors).run events =
      (builder.run events).withErrors (errors ++ builder.violationsOf events) := by
  induction events generalizing builder errors with
  | nil => rw [violationsOf, List.append_nil, run_nil, run_nil]
  | cons event rest ih =>
    rw [run_cons, run_cons, h.step_withErrors, ih (h.step event), violationsOf, List.append_assoc]

theorem errors_run (h : builder.Sync) (events : List Event) :
    (builder.run events).errors = builder.errors ++ builder.violationsOf events :=
  congrArg Builder.errors (h.run_withErrors builder.errors events)

end Sync

theorem violations_ne_nil (h : builder.Refuses event) : builder.violations event ≠ [] := by
  cases h with
  | leafOutside slot kind text hd => simp [violations, hd]
  | secondRoot slot kind hd hn => simp [violations, hd, hn]
  | unmatchedFinish hd => simp [violations, depth_eq_zero_iff.1 hd]
  | alternativeElsewhere kind hk =>
    rw [violations]
    split
    · simp
    · next owner howner =>
      rw [if_neg fun heq => hk (howner.trans (congrArg some heq))]
      simp
  | mismatch slot kind text replay outer hr ha =>
    rw [violations, hr]
    split <;> simp [ha]

theorem Sync.step_of_refuses (h : builder.Sync) (hr : builder.Refuses event) :
    builder.step event = builder.withErrors (builder.errors ++ builder.violations event) := by
  obtain ⟨after, hm, hstep⟩ := h.exists_step event
  rw [hstep, hm.eq_of_refuses hr]

/-- Whether a builder records an event as wrong and takes no further notice of it. -/
structure Drops (builder : Builder) (event : Event) (rest : List Event) : Prop where
  violated : builder.violations event ≠ []
  position : (builder.step event).position = builder.position
  depth : (builder.step event).depth = builder.depth
  currentKind : (builder.step event).currentKind = builder.currentKind
  source : (builder.step event).source = builder.source
  nodes : (builder.step event).nodes = builder.nodes
  /-- The events that follow do what they would have done without it. -/
  run : (builder.step event).run rest = (builder.run rest).withErrors
    (builder.errors ++ (builder.violations event ++ builder.violationsOf rest))
  errors : (builder.run rest).errors = builder.errors ++ builder.violationsOf rest

/-- The events that are dropped are those that are refused. -/
theorem Sync.refuses_iff_drops (h : builder.Sync) :
    builder.Refuses event ↔ builder.Drops event rest := by
  constructor
  · intro hr
    have hstep := h.step_of_refuses hr
    have hrun : (builder.step event).run rest = (builder.run rest).withErrors
        (builder.errors ++ (builder.violations event ++ builder.violationsOf rest)) := by
      rw [hstep, h.run_withErrors, List.append_assoc]
    refine ⟨violations_ne_nil hr, ?_, ?_, ?_, ?_, ?_, hrun, h.errors_run rest⟩
    all_goals rw [hstep]; rfl
  · intro hd
    by_contra hr
    obtain ⟨after, hm, hstep⟩ := h.exists_step event
    have hnodes := hd.nodes
    have hdepth := hd.depth
    rw [hstep] at hnodes hdepth
    rcases hm.changes hr with hne | hne
    · exact hne (congrArg Array.size hnodes)
    · exact hne hdepth

/-- What a builder gives if nothing was violated: nodes may be open or missing, and the tree is
validated. -/
def settled (builder : Builder) : Except TreeError Tree :=
  if builder.depth ≠ 0 then .error (.unbalanced (.stillOpen builder.depth))
  else if builder.nodes = #[] then .error (.unbalanced .noRoot)
  else (Tree.ofParts builder.language builder.source builder.nodes).validated

theorem finish_of_errors {error : TreeError} {others : List TreeError}
    (h : builder.errors = error :: others) : builder.finish = .error error := by
  rw [finish, h]

theorem finish_eq_settled (h : builder.errors = []) : builder.finish = builder.settled := by
  rw [finish, h, settled, depth]
  cases builder.stack with
  | nil => simp
  | cons node outer => simp

theorem errors_run_new (language : Language) (events : List Event) :
    ((Builder.new language).run events).errors = (Builder.new language).violationsOf events :=
  (sync_new language).errors_run events

/-- A build reports the first violation if there is one, and only then what is open or missing. An
event is dropped if it is refused, and only then. No bounds are left, whatever the events are. -/
theorem ofEvents_reports (language : Language) (events : List Event) :
    (∀ error others, (Builder.new language).violationsOf events = error :: others →
      Tree.ofEvents language events = .error error) ∧
    ((Builder.new language).violationsOf events = [] →
      Tree.ofEvents language events = ((Builder.new language).run events).settled) ∧
    (∀ before event rest, events = before ++ event :: rest →
      (Builder.new language).violationsOf events =
        (Builder.new language).violationsOf before ++
          (((Builder.new language).run before).violations event ++
            (((Builder.new language).run before).step event).violationsOf rest) ∧
      (((Builder.new language).run before).Refuses event ↔
        ((Builder.new language).run before).Drops event rest)) ∧
    (buildInside language events).run = some (Tree.ofEvents language events) ∧
      ((Builder.new language).run events).kindInside =
        some ((Builder.new language).run events).currentKind := by
  have hsync := sync_run language events
  refine ⟨fun error others hv => ?_, fun hv => ?_, ?_, run_buildInside language events,
    hsync.filed.kindInside_eq⟩
  · exact finish_of_errors ((errors_run_new language events).trans hv)
  · exact finish_eq_settled ((errors_run_new language events).trans hv)
  · rintro before event rest rfl
    exact ⟨violationsOf_append _ before (event :: rest),
      (sync_run language before).refuses_iff_drops⟩

/-- Alternatives outside of a variation point, a structured leaf, a second end and a second root. -/
def faulty : List Event :=
  [.start none (.special .parseError), .alternative (.special .blot),
    .leaf none (.special .variationPoint) "x", .finish, .finish, .start none (.special .comment)]

theorem ofEvents_reports_faulty :
    (Builder.new .c).violationsOf faulty =
        [.malformed (.special .parseError) (some .alternatives) .alternativeElsewhere,
          .malformed (.special .variationPoint) none .leafWithStructure,
          .unbalanced .unmatchedFinish, .malformed (.special .comment) none .terminalOpened,
          .unbalanced .secondRoot] ∧
      Tree.ofEvents .c faulty =
        .error (.malformed (.special .parseError) (some .alternatives) .alternativeElsewhere) ∧
      ((Builder.new .c).run [.start none (.special .parseError)]).Drops
        (.alternative (.special .blot)) (faulty.drop 2) := by
  obtain ⟨hfirst, -, hevent, -, -⟩ := ofEvents_reports .c faulty
  have hviolated : (Builder.new .c).violationsOf faulty =
      [.malformed (.special .parseError) (some .alternatives) .alternativeElsewhere,
        .malformed (.special .variationPoint) none .leafWithStructure,
        .unbalanced .unmatchedFinish, .malformed (.special .comment) none .terminalOpened,
        .unbalanced .secondRoot] := by decide +kernel
  refine ⟨hviolated, hfirst _ _ hviolated, ?_⟩
  exact (hevent [.start none (.special .parseError)] _ _ rfl).2.1
    (.alternativeElsewhere _ (by decide +kernel))

end Builder

end CodeTree
