import GraphShapes.Proofs.Meaning.Reordering
import GraphShapes.Proofs.Planner.Commit
import GraphShapes.Proofs.Planner.Failing
import GraphShapes.Proofs.Planner.Pointwise

/-!
# The order of members is not seen in what is planned

The planner combines members from left to right, merges their rows in this order and takes the
layout of the first. All the same, shapes in another order are planned in the same layout and
deliver the same lines in the same order (`Shape.reordering_invisible`), in every pass and in both
polarities: what a pass reports does not tell them apart, and there is only one order for distinct
lines.

The order may decide which scan is made first, and so which failure is met. If scans fail, the same
holds of whatever is planned and read to the end in spite of that, since it is planned and read over
steady sources as well (`Planning.Steadies.collect`).
-/

namespace GraphShapes

theorem Context.reliable_steady (ctx : Context) : ctx.steady.Reliable := by
  refine ⟨Source.reliable_ofStore _, fun delta hd => ?_⟩
  rw [ctx.restriction_steady] at hd
  obtain ⟨d, -, rfl⟩ := Option.map_eq_some_iff.1 hd
  exact ⟨Source.reliable_ofStore _, Source.reliable_ofStore _⟩

/-- The draft with the same splitters over steady sources. -/
def Draft.steady (draft : Draft) : Draft :=
  { draft with splitters := draft.splitters.map Plan.steady }

namespace Plan

theorem collect_upto (p : Plan) (ss : Splitters) :
    Except.Upto Eq (p.collect ss) (p.steady.collect (ss.map steady)) :=
  (p.feedIn_upto ss).bind fun _ _ h => h.toExcept

/-- A plan that answers with a table has its layout. -/
theorem layout_of_answers {ss : Splitters} {plan : Option Plan} {table : Option Table}
    (h : Option.Rel (Answers ss) plan table) : plan.map layout = table.map Table.layout := by
  cases h with
  | none => rfl
  | some h => exact congrArg some h.layout

end Plan

namespace Planning

variable {step step' : Planning (Option Plan)} {draft : Draft}

/-- What is planned over sources that may fail has the layout that it has over steady sources. -/
theorem Steadies.layout (h : Steadies (Option.map Plan.steady) step step') {plan : Option Plan}
    {later : Draft} (hrun : step.run.run draft = (.ok plan, later)) :
    ∃ plan' later', step'.run.run draft.steady = (.ok plan', later') ∧
      plan'.map Plan.layout = plan.map Plan.layout := by
  obtain ⟨later', hrun', -⟩ := h draft draft.steady rfl plan later hrun
  refine ⟨_, later', hrun', ?_⟩
  cases plan with
  | none => rfl
  | some p => exact congrArg some p.layout_steady

/-- What is planned and read to the end over sources that may fail is planned over steady sources as
well, with the same rows. -/
theorem Steadies.collect (h : Steadies (Option.map Plan.steady) step step') {rows : List Row}
    (hrows : step.collect draft = .ok rows) : step'.collect draft.steady = .ok rows := by
  unfold Planning.collect at hrows
  cases hrun : step.run.run draft with
  | mk result later =>
    rw [hrun] at hrows
    cases result with
    | error e => cases hrows
    | ok plan =>
      obtain ⟨later', hrun', hlater⟩ := h draft draft.steady rfl plan later hrun
      unfold Planning.collect
      rw [hrun']
      cases plan with
      | none => exact hrows
      | some p =>
        change (p.collect later.splitters).mapError _ = _ at hrows
        cases hcollect : p.collect later.splitters with
        | error e =>
          rw [hcollect] at hrows
          cases hrows
        | ok rows' =>
          obtain ⟨_, hsteady, rfl⟩ := p.collect_upto later.splitters rows' hcollect
          rw [hcollect] at hrows
          show (p.steady.collect later'.splitters).mapError _ = _
          rw [hlater, hsteady]
          exact hrows

end Planning

namespace Shape

variable {ctx : Context} {frame : Frame} {negate : Bool} {draft : Draft} {s s' : Shape}

/-- Where no scan fails, the shape is planned in the layout of what the pass reports. -/
theorem exists_plan (hr : ctx.Reliable) (hw : s.wellFormed = true) (frame : Frame) (negate : Bool)
    (draft : Draft) :
    ∃ plan later, (s.plan ctx frame none negate).run.run draft = (.ok plan, later) ∧
      plan.map Plan.layout =
        (s.changes (ctx.view frame.targets hr) frame.path negate).map Table.layout := by
  have hnone : GivenMirrors draft.splitters none none := .none
  obtain ⟨plan, later, hrun, hanswers⟩ := Planning.answers_of_comes (s.plan_comes ctx negate hnone)
    (s.realizes hr frame.targets hw frame.path negate).found
  exact ⟨plan, later, hrun, Plan.layout_of_answers hanswers⟩

/-- Where no scan fails, the shape is read to the end, and comes to what the pass reports. -/
theorem exists_collected (hr : ctx.Reliable) (hw : s.wellFormed = true) (frame : Frame)
    (negate : Bool) (draft : Draft) :
    ∃ rows, s.collect ctx frame none negate draft = .ok rows ∧ Row.Strict rows ∧
      Row.lines rows = Table.linesOf (s.changes (ctx.view frame.targets hr) frame.path negate) :=
  collect_of_gives .none (s.realizes hr frame.targets hw frame.path negate).found

/-- Whatever scans fail, what is planned has the layout of what the pass reports over steady
sources. -/
theorem layout_of_plan (hw : s.wellFormed = true) {plan : Option Plan} {later : Draft}
    (hrun : (s.plan ctx frame none negate).run.run draft = (.ok plan, later)) :
    plan.map Plan.layout =
      (s.changes (ctx.steady.view frame.targets ctx.reliable_steady) frame.path negate).map
        Table.layout := by
  obtain ⟨p, d, hp, hlayout⟩ := (s.plan_steady ctx frame none negate).layout hrun
  obtain ⟨q, e, hq, htable⟩ := exists_plan ctx.reliable_steady hw frame negate draft.steady
  have hsame : Except.ok p = Except.ok q := congrArg Prod.fst (hp.symm.trans hq)
  rw [← hlayout, Except.ok.inj hsame, htable]

/-- Whatever scans fail, what is read to the end is what the pass reports over steady sources. -/
theorem lines_of_collect (hw : s.wellFormed = true) {rows : List Row}
    (hrows : s.collect ctx frame none negate draft = .ok rows) :
    Row.Strict rows ∧ Row.lines rows = Table.linesOf
      (s.changes (ctx.steady.view frame.targets ctx.reliable_steady) frame.path negate) := by
  have hsteady : s.collect ctx.steady frame none negate draft.steady = .ok rows :=
    (s.plan_steady ctx frame none negate).collect hrows
  obtain ⟨rows', hrows', hstrict⟩ :=
    exists_collected ctx.reliable_steady hw frame negate draft.steady
  obtain rfl := Except.ok.inj (hsteady.symm.trans hrows')
  exact hstrict

/-- Planned from nothing, after what a draft already holds, the shapes come to the same. -/
structure ComeToTheSame (ctx : Context) (frame : Frame) (negate : Bool) (draft : Draft)
    (s s' : Shape) : Prop where
  /-- What is planned declares the same layout, or there is no plan for either of them. -/
  layout : ∀ {plan plan' : Option Plan} {later later' : Draft},
    (s.plan ctx frame none negate).run.run draft = (.ok plan, later) →
    (s'.plan ctx frame none negate).run.run draft = (.ok plan', later') →
    plan.map Plan.layout = plan'.map Plan.layout
  /-- What is read to the end are the same lines in the same order. -/
  lines : ∀ {lines lines' : List (List Term)},
    s.collectLines ctx frame none negate draft = .ok lines →
    s'.collectLines ctx frame none negate draft = .ok lines' → lines = lines'
  /-- If no scan fails, both are planned and read to the end. -/
  succeed : ctx.Reliable → ∀ shape ∈ [s, s'],
    (∃ plan later, (shape.plan ctx frame none negate).run.run draft = (.ok plan, later)) ∧
      ∃ lines, shape.collectLines ctx frame none negate draft = .ok lines

theorem collectLines_eq_ok {targets : Option Provider} {lines : List (List Term)} :
    s.collectLines ctx frame targets negate draft = .ok lines ↔
      ∃ rows, s.collect ctx frame targets negate draft = .ok rows ∧ rows.map Row.line = lines := by
  unfold collectLines
  cases s.collect ctx frame targets negate draft with
  | error e => exact ⟨nofun, nofun⟩
  | ok rows =>
    constructor
    · intro h
      exact ⟨rows, rfl, Except.ok.inj h⟩
    · intro h
      obtain ⟨_, hrows, rfl⟩ := h
      rw [Except.ok.inj hrows]
      rfl

theorem Interchangeable.comeToTheSame (h : Interchangeable s s') (hw : s.wellFormed = true)
    (hw' : s'.wellFormed = true) (ctx : Context) (frame : Frame) (negate : Bool) (draft : Draft) :
    ComeToTheSame ctx frame negate draft s s' where
  layout hrun hrun' := by rw [layout_of_plan hw hrun, layout_of_plan hw' hrun', h.changes]
  lines hlines hlines' := by
    obtain ⟨rows, hrows, rfl⟩ := collectLines_eq_ok.1 hlines
    obtain ⟨rows', hrows', rfl⟩ := collectLines_eq_ok.1 hlines'
    obtain ⟨hstrict, htable⟩ := lines_of_collect hw hrows
    obtain ⟨hstrict', htable'⟩ := lines_of_collect hw' hrows'
    -- both are the lines of one table, in the only order that there is for them
    refine hstrict.map_line_eq hstrict' ?_
    rw [htable, htable', h.changes]
  succeed hr shape hmem := by
    have hwell : shape.wellFormed = true := by
      rcases List.mem_pair.1 hmem with rfl | rfl
      · exact hw
      · exact hw'
    obtain ⟨plan, later, hrun, -⟩ := exists_plan hr hwell frame negate draft
    obtain ⟨rows, hrows, -⟩ := exists_collected hr hwell frame negate draft
    exact ⟨⟨plan, later, hrun⟩, _, collectLines_eq_ok.2 ⟨rows, hrows, rfl⟩⟩

/-- Permuting the members of conjunctions, the branches of disjunctions and the members of branches,
anywhere in a well-formed shape, changes neither the layout that its plan declares nor the sequence
of lines that comes. -/
theorem reordering_invisible (hs : Reordered s s') (hw : s.wellFormed = true) (ctx : Context)
    (frame : Frame) (negate : Bool) (draft : Draft) :
    ComeToTheSame ctx frame negate draft s s' :=
  hs.interchangeable.comeToTheSame hw (hs.wellFormed hw) ctx frame negate draft

/-- Every value is the text, and the values are numbers or there is only one: said in one order or in
the other. -/
def textAmongValues (swapped : Bool) : Shape :=
  let text : Shape := .constraint { id := ⟨20⟩, path := valuesHead.path } (.oneOf [.str "x"])
  if swapped then .conj { id := ⟨1⟩ } [.disj valuesHead numbersOrSingle.reverse, text]
  else .conj { id := ⟨1⟩ } [text, .disj valuesHead numbersOrSingle]

theorem reordered_textAmongValues : Reordered (textAmongValues false) (textAmongValues true) := by
  have hbranches : Permuted (.disj valuesHead numbersOrSingle)
      (.disj valuesHead numbersOrSingle.reverse) :=
    .disj valuesHead (.items (List.reverse_perm _).symm)
  exact .tail (.single (.conj _ [_] [] (.here hbranches))) (.here (.conj _ (List.Perm.swap _ _ _)))

/-- A text is added to the number of a subject. The conjunction cuts its lines to the target, since
its members set a path, and the disjunction looks for candidates. -/
theorem reordering_invisible_nested :
    let ctx := Transaction.context (.ofList [⟨.iri "a", .iri "p", .int 5⟩])
      (.ofList [⟨.iri "a", .iri "p", .str "x"⟩]) .empty {}
    let frame : Frame := ⟨[.subjectsOf (.iri "p")], none⟩
    ∀ swapped, (textAmongValues swapped).collectLines ctx frame none false {} =
      .ok [[.iri "a"]] := by
  intro ctx frame
  have hsame := reordering_invisible reordered_textAmongValues (by decide) ctx frame false {}
  have hsucceed := hsame.succeed (Transaction.reliable_context {})
  obtain ⟨-, lines, hlines⟩ := hsucceed (textAmongValues false) (by simp)
  obtain ⟨-, lines', hlines'⟩ := hsucceed (textAmongValues true) (by simp)
  have hfirst : ((textAmongValues false).collectLines ctx frame none false {}).toOption =
      some [[.iri "a"]] := by decide +kernel
  rw [hlines] at hfirst
  obtain rfl : lines = [[.iri "a"]] := Option.some.inj hfirst
  obtain rfl := hsame.lines hlines hlines'
  exact Bool.forall_bool.2 ⟨hlines, hlines'⟩

end Shape

end GraphShapes
