import GraphShapes.Proofs.Planner.TraceOrder
import GraphShapes.Proofs.Validator.Origin

/-!
# In which order a trace tells its shapes

A trace tells the shapes that a row passed through, and every shape on it is followed by the shapes
above it. It may tell a shape more than once: the candidates of a disjunction have passed through
its branches before they are handed down to these branches (`not_innermost_first`). With every shape
where it is told last, the shapes are in order, innermost first; and if no leaf goes on with the
trace of a candidate, the trace is in order as it is (`violations_in_order`). So it is after the
first commit.
-/

namespace GraphShapes

/-- No identifier comes twice, and none before that of a shape below it. -/
def Shape.InnermostFirst (s : Shape) (trace : List ShapeId) : Prop :=
  trace.Nodup ∧ trace.Pairwise fun a id => ¬s.Over a id

namespace Shape

variable {s : Shape} (hids : s.ids.Nodup) {trace : List ShapeId}
include hids

/-- A part of all identifiers, innermost first, is in order. -/
theorem innermostFirst_of_sublist (h : trace.Sublist s.ids) : s.InnermostFirst trace :=
  ⟨hids.sublist h, (pairwise_ids hids).sublist h⟩

/-- A trail is in order, once each identifier is taken where it occurs last. -/
theorem innermostFirst_dedup (h : Trail s.Active trace) : s.InnermostFirst trace.dedup :=
  ⟨trace.nodup_dedup, (h.mono fun _ _ h => h.place).pairwise_dedup hids⟩

end Shape

namespace Validator

/-- Every shape on the trace of the violation is followed by those above it. So the trace is in
order as far as each shape is taken where it is told last, and it is in order as it is, if the
leaves of the shape begin the traces of their rows. -/
def TellsInOrder (v : Validator) (baseEmpty : Bool) (violation : Violation) : Prop :=
  ∃ node ∈ v.shapes, ∃ s ∈ node.shapes, violation.nodeShape = node.id ∧
    violation.sourceShape = s.id ∧ Trail s.Active violation.trace ∧
    s.InnermostFirst violation.trace.dedup ∧
    (s.tracesInOrder baseEmpty false none false = true → s.InnermostFirst violation.trace)

/-- The trace of a row is in order if the leaves begin the traces of their rows. -/
theorem sublist_ids_of_origin {ctx : Context} (hs : ctx.source.Reliable) {node : NodeShape}
    {s : Shape} {violation : Violation} (h : Origin ctx node s violation)
    (horder : s.tracesInOrder ctx.baseEmpty false none false = true) :
    violation.trace.Sublist s.ids := by
  obtain ⟨q, r, hplan, hr, rfl⟩ := h
  exact s.ensures_along hs node.targets false none false horder none Unshared.offerHas_none _ hplan
    q rfl r hr

theorem tellsInOrder_of_mem {v : Validator}
    (hids : ∀ node ∈ v.shapes, ∀ s ∈ node.shapes, s.ids.Nodup) {ctx : Context} {stamp : PassStamp}
    {report : Report} (h : (outcome (v.run ctx stamp)).1 = .ok report) {violation : Violation}
    (hv : violation ∈ report.violations) : v.TellsInOrder ctx.baseEmpty violation := by
  have hs : ctx.steady.source.Reliable := Source.reliable_ofStore _
  obtain ⟨node, hn, -, s, hmem, horigin⟩ := origin_of_mem (outcome_steady_eq h) hv
  have hmarks := marks_of_origin hs horigin
  have hnodup := hids node hn s hmem
  exact ⟨node, hn, s, hmem, hmarks.nodeShape, hmarks.sourceShape, hmarks.trail,
    s.innermostFirst_dedup hnodup hmarks.trail, fun horder =>
      s.innermostFirst_of_sublist hnodup (sublist_ids_of_origin hs horigin horder)⟩

/-- If the identifiers of every shape are distinct, all traces are in order up to repetitions, and
without repetitions where no candidates are handed to a leaf that keeps their traces. -/
theorem violations_in_order {v : Validator}
    (hids : ∀ node ∈ v.shapes, ∀ s ∈ node.shapes, s.ids.Nodup) (stamp : PassStamp) :
    (∀ (tx : Transaction) (report : Report),
      (outcome (v.validate tx stamp)).1 = .ok report → ∀ violation ∈ report.violations,
        v.TellsInOrder tx.baseEmpty violation) ∧
    (∀ (source : Source) (report : Report),
      (outcome (v.validateAll source stamp)).1 = .ok report → ∀ violation ∈ report.violations,
        v.TellsInOrder false violation) :=
  ⟨fun _ _ h _ hv => tellsInOrder_of_mem hids h hv, fun _ _ h _ hv => tellsInOrder_of_mem hids h hv⟩

/-! ## A shape that is told twice -/

/-- A value along one path, or a value along another. -/
def eitherPath : Shape :=
  .disj { id := ⟨10⟩ }
    [[.conj { id := ⟨20⟩ }
      [.constraint { id := ⟨21⟩, path := some (.predicate (.iri "p")) } (.minCount 1)]],
    [.constraint { id := ⟨30⟩, path := some (.predicate (.iri "q")) } (.minCount 1)]]

/-- A validator that asks one node for that. -/
def eitherPathOnly : Validator :=
  ⟨[{ id := ⟨1⟩, targets := [.nodes [.iri "a"]], shapes := [eitherPath] }], {}, .fill 0⟩

theorem nodup_eitherPath :
    ∀ node ∈ eitherPathOnly.shapes, ∀ s ∈ node.shapes, s.ids.Nodup := by decide

/-- What is told about the node where candidates are asked for. -/
def repeatingTrace : List ShapeId := [⟨21⟩, ⟨20⟩, ⟨21⟩, ⟨20⟩, ⟨21⟩, ⟨20⟩, ⟨30⟩, ⟨10⟩]

/-- A pass over no data reports the node. -/
theorem exists_repeatingTrace :
    ∃ report, (outcome (eitherPathOnly.validateAll (.ofStore .empty))).1 = .ok report ∧
      report.violations =
        [⟨.iri "a", none, none, .base, ⟨1⟩, ⟨10⟩, .disj, repeatingTrace⟩] :=
  exists_report_of_map (by decide +kernel)

theorem eitherPath_of_tellsInOrder {baseEmpty : Bool} {violation : Violation}
    (h : eitherPathOnly.TellsInOrder baseEmpty violation) :
    eitherPath.InnermostFirst violation.trace.dedup ∧
      (eitherPath.tracesInOrder baseEmpty false none false = true →
        eitherPath.InnermostFirst violation.trace) := by
  obtain ⟨node, hn, s, hs, -, -, -, horder⟩ := h
  obtain rfl := List.mem_singleton.1 hn
  obtain rfl := List.mem_singleton.1 hs
  exact horder

/-- The first commit says something else about the node, and each shape is told once. A pass over
everything repeats shapes, and they are in order where they are told last. -/
theorem violations_in_order_either :
    let added : Store := .ofList [⟨.iri "a", .iri "r", .int 1⟩]
    (∃ report, (outcome (eitherPathOnly.validate (.initial added))).1 = .ok report ∧
      report.violations = [⟨.iri "a", none, none, .delta, ⟨1⟩, ⟨10⟩, .disj,
        [⟨21⟩, ⟨20⟩, ⟨30⟩, ⟨10⟩]⟩] ∧
      ∀ violation ∈ report.violations, eitherPath.InnermostFirst violation.trace) ∧
    ∃ report, (outcome (eitherPathOnly.validateAll (.ofStore .empty))).1 = .ok report ∧
      report.violations ≠ [] ∧
      ∀ violation ∈ report.violations, eitherPath.InnermostFirst violation.trace.dedup := by
  intro added
  obtain ⟨report, hreport, hviolations⟩ : ∃ report,
      (outcome (eitherPathOnly.validate (.initial added))).1 = .ok report ∧ report.violations =
        [⟨.iri "a", none, none, .delta, ⟨1⟩, ⟨10⟩, .disj, [⟨21⟩, ⟨20⟩, ⟨30⟩, ⟨10⟩]⟩] :=
    exists_report_of_map (by decide +kernel)
  obtain ⟨report', hreport', hviolations'⟩ := exists_repeatingTrace
  obtain ⟨hcommit, hbulk⟩ := violations_in_order nodup_eitherPath {}
  refine ⟨⟨report, hreport, hviolations, fun violation hv => ?_⟩,
    report', hreport', by rw [hviolations']; exact List.cons_ne_nil _ _, fun violation hv => ?_⟩
  · exact (eitherPath_of_tellsInOrder (hcommit _ report hreport violation hv)).2
      (eitherPath.tracesInOrder_baseEmpty none false)
  · exact (eitherPath_of_tellsInOrder (hbulk _ report' hreport' violation hv)).1

/-- All identifiers are distinct, and yet the trace repeats the conjunction and its member, and
tells the conjunction before the member. -/
theorem not_innermost_first :
    (∀ node ∈ eitherPathOnly.shapes, ∀ s ∈ node.shapes, s.wellFormed = true) ∧
    (eitherPathOnly.shapes.flatMap fun node => node.id :: node.shapes.flatMap Shape.ids).Nodup ∧
    ∃ report violation, (outcome (eitherPathOnly.validateAll (.ofStore .empty))).1 = .ok report ∧
      report.violations = [violation] ∧ violation.sourceShape = eitherPath.id ∧
      ¬violation.trace.Nodup ∧
      ¬violation.trace.Pairwise fun a id => ¬eitherPath.Over a id := by
  obtain ⟨report, hreport, hviolations⟩ := exists_repeatingTrace
  refine ⟨by decide, by decide, report, _, hreport, hviolations, rfl, by decide, fun horder => ?_⟩
  have hover : eitherPath.Over ⟨20⟩ ⟨21⟩ := by
    refine ⟨[⟨20⟩, ⟨10⟩], ?_, List.mem_cons_self ..⟩
    have hconj := Shape.Place.here (.constraint
      { id := ⟨21⟩, path := some (.predicate (.iri "p")) } (.minCount 1))
    exact .inside (s := eitherPath) (List.mem_cons_self ..)
      (.inside (s := .conj { id := ⟨20⟩ } _) (List.mem_cons_self ..) hconj)
  have hearlier : [(⟨20⟩ : ShapeId), ⟨21⟩].Sublist repeatingTrace := by decide
  exact (List.pairwise_cons.1 (horder.sublist hearlier)).1 ⟨21⟩ (List.mem_singleton_self _) hover

end Validator

end GraphShapes
