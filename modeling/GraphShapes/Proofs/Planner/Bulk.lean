import GraphShapes.Proofs.Planner.Adequacy

/-!
# Bulk planning

A pass without a delta, or one whose settings ask for everything, plans what the shape tree says:
the plan of a well-formed shape delivers exactly the lines of `Shape.rows` for the selected targets,
in that layout, each once and in ascending order, for every inherited path and both polarities
(`bulk_plan_answers_rows`). A shape has a plan exactly if it has a table.

It does not matter on the way that a disjunction plans its branches for its candidates only, that
targets are shared between readers, or which joins are chosen.
-/

namespace GraphShapes

/-- A bulk pass needs nothing but a source that answers. -/
theorem Context.reliable_of_isBulk {ctx : Context} (h : ctx.source.Reliable)
    (hb : ctx.isBulk = true) : ctx.Reliable := by
  refine ⟨h, fun delta hd => ?_⟩
  rw [isBulk, hd] at hb
  cases hb

theorem Context.isBulk_bulk (source : Source) (config : Config) :
    (Context.bulk source config).isBulk = true := by
  unfold isBulk restriction
  split <;> rfl

theorem Context.Reliable.changes_eq_rows {ctx : Context} (hr : ctx.Reliable)
    (hb : ctx.isBulk = true) (targets : List Target) (s : Shape) (path : Option Path)
    (negate : Bool) : s.changes (ctx.view targets hr) path negate =
      s.rows ctx.source.store (ctx.source.store.selection targets) path negate := by
  have hnone : ctx.restriction = none := Option.isNone_iff_eq_none.1 hb
  exact Shape.changes_uniform (fun p => (hr.bulk hnone targets p).1)
    (fun p => (hr.bulk hnone targets p).2) s path negate

namespace Shape

/-- Planned alone, the shape answers with its table, without a choice of source. -/
theorem plan_answers_table {ctx : Context} (h : ctx.source.Reliable) (hb : ctx.isBulk = true)
    {s : Shape} (hw : s.wellFormed = true) (frame : Frame) (negate : Bool) :
    ∃ plan draft, (s.plan ctx frame none negate).run.run {} = (.ok plan, draft) ∧
      Option.Rel (Plan.Answers draft.splitters) plan
        (s.rows ctx.source.store (ctx.source.store.selection frame.targets) frame.path negate) := by
  have hr := Context.reliable_of_isBulk h hb
  rw [← hr.changes_eq_rows hb]
  exact plan_answers hr hw frame negate

/-- Bulk planning computes the lines that the shape tree says. -/
theorem bulk_plan_answers_rows {ctx : Context} {G : Store} (hG : ctx.source = .ofStore G)
    (hb : ctx.isBulk = true) {s : Shape} (hw : s.wellFormed = true) (frame : Frame)
    (negate : Bool) :
    ∃ plan draft, (s.plan ctx frame none negate).run.run {} = (.ok plan, draft) ∧
      Option.Rel (Plan.Answers draft.splitters) plan
        (s.rows G (G.selection frame.targets) frame.path negate) := by
  have hstore : ctx.source.store = G := congrArg Source.store hG
  have hanswers := plan_answers_table (hG ▸ Source.reliable_ofStore G) hb hw frame negate
  rw [hstore] at hanswers
  exact hanswers

/-- A text that is neither a number nor the allowed text violates both branches; the number of
another subject violates only one of them. -/
theorem bulk_plan_answers_rows_disj :
    let s : Shape := .disj { id := ⟨1⟩, path := some (.predicate (.iri "p")) }
      [[.constraint { id := ⟨2⟩ } (.datatype .int)],
        [.constraint { id := ⟨3⟩ } (.oneOf [.str "y"])]]
    let st : Statement := ⟨.iri "a", .iri "p", .str "x"⟩
    let G := Store.ofList [st, ⟨.iri "b", .iri "p", .int 5⟩]
    ∃ plan draft rows,
      (s.plan (.bulk (.ofStore G) {}) ⟨[.subjectsOf (.iri "p")], none⟩ none false).run.run {} =
        (.ok (some plan), draft) ∧
      plan.collect draft.splitters = .ok rows ∧
      Row.lines rows = {[.iri "a", .str "x", st.quoted]} := by
  intro s st G
  obtain ⟨plan, draft, hrun, hrel⟩ := @bulk_plan_answers_rows (.bulk (.ofStore G) {}) G rfl rfl s
    (by decide) ⟨[.subjectsOf (.iri "p")], none⟩ false
  have htable : s.rows G (G.selection [.subjectsOf (.iri "p")]) none false =
      some ⟨.tripleBased, {[.iri "a", .str "x", st.quoted]}⟩ := by decide
  rw [htable] at hrel
  cases hrel with
  | some hanswers =>
    obtain ⟨rows, hcollect, -, hlines⟩ := hanswers.collects
    exact ⟨_, draft, rows, hrun, hcollect, hlines⟩

end Shape

end GraphShapes
