import GraphShapes.Proofs.Planner.Disjunction
import GraphShapes.Proofs.Planner.WellFormed
import GraphShapes.Proofs.Validator.Incremental

/-!
# Commits that are validated in full

If the settings ask for it, a pass over a commit looks at every target. It still knows the delta and
whether there was data before, and it plans disjunctions accordingly. All the same it is the bulk
pass over the data after the commit (`validate_eq_validateAll`): it succeeds exactly if that one
does, with the same violations in the same order up to their traces, and with the same counts. That
holds under every cap, with and without `failFast`, for malformed shapes too.

Two passes are compared step by step. `Pass.Agrees` says that both steps fail or both succeed with
related results, and its rules follow the `do` blocks of the pass. What the two find out about a
shape is the same because both plans deliver the lines of one table in ascending order
(`agrees_evaluate`).
-/

namespace GraphShapes

/-- The violation without its trace. -/
def Violation.untraced (violation : Violation) : Violation := { violation with trace := [] }

/-- The row without its trace. -/
def Row.untraced (r : Row) : Row := { r with trace := [] }

/-- Rows of one scope with the same lines are the same rows up to their traces. -/
theorem Row.map_untraced_eq {rows rows' : List Row} {scope : Scope} (hs : Strict rows)
    (hs' : Strict rows') (hlines : lines rows = lines rows')
    (hscope : ∀ r ∈ rows, r.scope = scope) (hscope' : ∀ r ∈ rows', r.scope = scope) :
    rows.map untraced = rows'.map untraced := by
  have hmap : ∀ {rows : List Row}, (∀ r ∈ rows, r.scope = scope) → rows.map untraced =
      (rows.map plain).map fun r => { r with scope := scope } := by
    intro rows hscope
    rw [List.map_map]
    refine List.map_congr_left fun r hr => ?_
    rw [← hscope r hr]
    rfl
  rw [hmap hscope, hmap hscope', hs.map_plain_eq hs' hlines]

theorem Validator.cut_map (cap : Option UInt64) (f : Row → Row) (rows : List Row) :
    cut cap (rows.map f) = ((cut cap rows).1.map f, (cut cap rows).2) := by
  cases cap with
  | none => rfl
  | some n =>
    unfold cut
    simp only [List.length_map, List.map_take]

/-! ## Steps that agree -/

namespace Pass

variable {α β γ δ : Type} {before after : Array PlanReport}

theorem run_ofPlanning_error {step : Planning α} {e : PlanError} {draft : Draft}
    (h : step.run.run {} = (.error e, draft)) :
    (ofPlanning step).run.run before = (.error (.plan e), before ++ draft.reports) := by
  unfold ofPlanning
  rw [h]
  rfl

/-- Whatever plans were reported before them, both steps fail, or both succeed and their results are
related. -/
def Agrees (R : α → β → Prop) (step : Pass α) (step' : Pass β) : Prop :=
  ∀ before before', (∃ e e' after after', step.run.run before = (.error e, after) ∧
      step'.run.run before' = (.error e', after')) ∨
    ∃ a b after after', step.run.run before = (.ok a, after) ∧
      step'.run.run before' = (.ok b, after') ∧ R a b

variable {R : α → β → Prop} {R' : γ → δ → Prop}

theorem Agrees.pure {a : α} {b : β} (h : R a b) : Agrees R (Pure.pure a) (Pure.pure b) :=
  fun before before' => .inr ⟨a, b, before, before', rfl, rfl, h⟩

theorem Agrees.bind {step : Pass α} {step' : Pass β} {f : α → Pass γ} {g : β → Pass δ}
    (h : Agrees R step step') (hf : ∀ a b, R a b → Agrees R' (f a) (g b)) :
    Agrees R' (step >>= f) (step' >>= g) := by
  intro before before'
  obtain ⟨e, e', after, after', hrun, hrun'⟩ | ⟨a, b, after, after', hrun, hrun', hab⟩ :=
    h before before'
  · exact .inl ⟨e, e', after, after', run_bind_error hrun f, run_bind_error hrun' g⟩
  · rw [run_bind hrun, run_bind hrun']
    exact hf a b hab after after'

/-- If both steps succeed with related results, they agree. -/
theorem agrees_of_succeeds {step : Pass α} {step' : Pass β} {P : α → Prop} {Q : β → Prop}
    (h : step.Succeeds P) (h' : step'.Succeeds Q) (hR : ∀ a b, P a → Q b → R a b) :
    Agrees R step step' := by
  intro before before'
  obtain ⟨a, after, hrun, ha⟩ := h before
  obtain ⟨b, after', hrun', hb⟩ := h' before'
  exact .inr ⟨a, b, after, after', hrun, hrun', hR a b ha hb⟩

end Pass

/-! ## Findings that are alike -/

namespace Findings

/-- The same was found, up to the traces of the violations. -/
structure Alike (a b : Findings) : Prop where
  violations : a.violations.map Violation.untraced = b.violations.map Violation.untraced
  truncated : a.truncated = b.truncated
  evaluated : a.evaluated = b.evaluated
  skipped : a.skipped = b.skipped

theorem Alike.refl (a : Findings) : Alike a a := ⟨rfl, rfl, rfl, rfl⟩

theorem Alike.append {a a' b b' : Findings} (h : Alike a b) (h' : Alike a' b') :
    Alike (a.append a') (b.append b') where
  violations := by
    rw [Findings.append, Findings.append, List.map_append, List.map_append, h.violations,
      h'.violations]
  truncated := by rw [Findings.append, Findings.append, h.truncated, h'.truncated]
  evaluated := by rw [Findings.append, Findings.append, h.evaluated, h'.evaluated]
  skipped := by rw [Findings.append, Findings.append, h.skipped, h'.skipped]

/-- What is found about one table is always the same. -/
theorem Shows.alike {config : Config} {scope : Scope} {id : ShapeId} {shape : Shape}
    {table : Option Table} {a b : Findings} (h : Shows config scope id shape table a)
    (h' : Shows config scope id shape table b) : Alike a b := by
  cases h with
  | none =>
    cases h'
    exact .refl _
  | @some table rows hs hlines hscope =>
    cases h' with
    | @some _ rows' hs' hlines' hscope' =>
      have hrows : rows.map Row.untraced = rows'.map Row.untraced :=
        Row.map_untraced_eq hs hs' (hlines.trans hlines'.symm) hscope hscope'
      -- the cap does not look at traces either
      have hcut := congrArg (Validator.cut config.maxViolationsPerShape) hrows
      rw [Validator.cut_map, Validator.cut_map] at hcut
      obtain ⟨htaken, hmore⟩ := Prod.mk.inj hcut
      have huntraced : ∀ rows : List Row,
          (rows.map (Violation.ofRow id shape)).map Violation.untraced =
            (rows.map Row.untraced).map (Violation.ofRow id shape) := by
        intro rows
        rw [List.map_map, List.map_map]
        rfl
      refine ⟨?_, ?_, rfl, rfl⟩
      · show (List.map _ _).map _ = (List.map _ _).map _
        rw [huntraced, huntraced, htaken]
      · show (if _ then _ else _) = if _ then _ else _
        rw [hmore]

end Findings

namespace Validator

open Findings (Alike)

/-! ## Two passes over everything -/

/-- A pass over everything fails at a malformed shape. -/
theorem evaluate_fails (config : Config) {ctx : Context} (hb : ctx.restriction = none)
    (node : NodeShape) {shape : Shape} (hw : ¬shape.wellFormed = true)
    (before : Array PlanReport) :
    ∃ e after, (evaluate config ctx node shape).run.run before = (.error e, after) := by
  have hcomes : Planning.Comes (shape.plan ctx (.root node) none false) #[] _ Plan.OptMirrors :=
    shape.plan_comes ctx false .none
  obtain ⟨draft, -, ⟨e, hrun, -⟩ | ⟨p, q, -, hq, -⟩⟩ := hcomes {} rfl
  · rw [evaluate_constant]
    exact ⟨_, _, Pass.run_bind_error (Pass.run_ofPlanning_error hrun) _⟩
  · exact absurd (shape.ensures_wellFormed (.root node) false none (.inl hb) q hq) hw

section Passes

variable (config : Config) {ctx ctx' : Context} (hs : ctx.source.Reliable)
  (hsource : ctx.source = ctx'.source) (hb : ctx.restriction = none)
  (hb' : ctx'.restriction = none)
include hs hsource hb hb'

/-- A malformed shape fails in both passes, and the plans of any other show the same table. -/
theorem agrees_evaluate (node : NodeShape) (shape : Shape) :
    Pass.Agrees Alike (evaluate config ctx node shape) (evaluate config ctx' node shape) := by
  by_cases hw : shape.wellFormed = true
  · have hbulk : ctx.isBulk = true := Option.isNone_iff_eq_none.2 hb
    have hbulk' : ctx'.isBulk = true := Option.isNone_iff_eq_none.2 hb'
    have hr := Context.reliable_of_isBulk hs hbulk
    have hr' := Context.reliable_of_isBulk (hsource ▸ hs) hbulk'
    have hshows : (evaluate config ctx node shape).Succeeds _ := evaluate_shows hr node hw
    have hshows' : (evaluate config ctx' node shape).Succeeds _ := evaluate_shows hr' node hw
    rw [hr.changes_eq_rows hbulk, Context.scope, hbulk, if_pos rfl, hsource] at hshows
    rw [hr'.changes_eq_rows hbulk', Context.scope, hbulk', if_pos rfl] at hshows'
    exact Pass.agrees_of_succeeds hshows hshows' fun _ _ h h' => h.alike h'
  · intro before before'
    obtain ⟨e, after, hrun⟩ := evaluate_fails config hb node hw before
    obtain ⟨e', after', hrun'⟩ := evaluate_fails config hb' node hw before'
    exact .inl ⟨e, e', after, after', hrun, hrun'⟩

theorem agrees_examineAll (node : NodeShape) : ∀ shapes : List Shape,
    Pass.Agrees (fun a b => Alike a.1 b.1 ∧ a.2 = b.2) (examineAll config ctx node shapes)
      (examineAll config ctx' node shapes)
  | [] => .pure ⟨.refl _, rfl⟩
  | shape :: rest => by
    have hexamine : Pass.Agrees Alike (examine config ctx node shape)
        (examine config ctx' node shape) := by
      rw [examine_constant, examine_constant, hb, hb']
      exact agrees_evaluate config hs hsource hb hb' node shape
    refine hexamine.bind fun a b hab => ?_
    have hends : ends config a = ends config b := by
      rw [ends, ends, ← List.isEmpty_map (f := Violation.untraced), hab.violations,
        List.isEmpty_map]
    rw [hends]
    cases ends config b with
    | true => exact .pure ⟨hab, rfl⟩
    | false =>
      exact (agrees_examineAll node rest).bind fun p q hpq =>
        .pure ⟨hab.append hpq.1, hpq.2⟩

theorem agrees_examineNodes : ∀ nodes : List NodeShape,
    Pass.Agrees Alike (examineNodes config ctx nodes) (examineNodes config ctx' nodes)
  | [] => .pure (.refl _)
  | node :: rest => by
    have htouched : ∀ {ctx : Context}, ctx.restriction = none →
        Pass.ofError (nodeTouched ctx node) = pure true := by
      intro ctx hb
      rw [nodeTouched_constant, hb]
      rfl
    have hrest := agrees_examineNodes rest
    rw [examineNodes_cons, examineNodes_cons, htouched hb, htouched hb']
    cases node.deactivated with
    | true =>
      simp only [if_true, pure_bind, Bool.false_eq_true, if_false]
      exact hrest.bind fun p q hpq => .pure ((Alike.refl _).append hpq)
    | false =>
      simp only [if_true, pure_bind, Bool.false_eq_true, if_false]
      refine (agrees_examineAll config hs hsource hb hb' node node.shapes).bind fun p q hpq => ?_
      obtain ⟨found, goesOn⟩ := p
      obtain ⟨found', goesOn'⟩ := q
      obtain ⟨hfound, hgoesOn⟩ := hpq
      obtain rfl : goesOn = goesOn' := hgoesOn
      cases goesOn with
      | true => exact hrest.bind fun p q hpq => .pure (hfound.append hpq)
      | false => exact .pure hfound

end Passes

/-- If the settings ask for it, the pass over a commit is the bulk pass over the data after it: it
succeeds exactly if that one does, and then it lists the same violations, up to their traces, the
same shapes with more violations than are listed, and the same counts. -/
theorem validate_eq_validateAll {v : Validator} (hall : v.config.validateAll = true)
    (before added removed : Store) (stamp stamp' : PassStamp) :
    ((∃ report, (outcome (v.validate (.ofChange before added removed) stamp)).1 = .ok report) ↔
      ∃ report, (outcome (v.validateAll (Transaction.ofChange before added removed).after
        stamp')).1 = .ok report) ∧
    ∀ report report' : Report,
      (outcome (v.validate (.ofChange before added removed) stamp)).1 = .ok report →
      (outcome (v.validateAll (Transaction.ofChange before added removed).after stamp')).1 =
        .ok report' →
      report.violations.map Violation.untraced = report'.violations.map Violation.untraced ∧
        report.truncated = report'.truncated ∧
        report.manifest.evaluated = report'.manifest.evaluated ∧
        report.manifest.skipped = report'.manifest.skipped ∧
        report.manifest.violations = report'.manifest.violations := by
  -- with this setting no delta restricts the pass, and only traces tell that there was data before
  have hrestriction : ∀ ctx : Context, ctx.config = v.config → ctx.restriction = none := by
    intro ctx hconfig
    rw [Context.restriction, hconfig, hall]
    rfl
  have hsource : (Context.incremental (.ofChange before added removed) v.config).source =
      (Context.bulk (Transaction.ofChange before added removed).after v.config).source := rfl
  have hagrees := agrees_examineNodes v.config (Source.reliable_ofStore _) hsource
    (hrestriction _ rfl) (hrestriction _ rfl) v.shapes #[] #[]
  unfold outcome validate validateAll run
  obtain ⟨e, e', after, after', hrun, hrun'⟩ | ⟨a, b, after, after', hrun, hrun', hab⟩ := hagrees
  · rw [Pass.run_bind_error hrun, Pass.run_bind_error hrun']
    refine ⟨⟨fun hex => ?_, fun hex => ?_⟩, fun report _ h => ?_⟩
    · obtain ⟨report, h⟩ := hex
      cases h
    · obtain ⟨report, h⟩ := hex
      cases h
    · cases h
  · rw [Pass.run_bind hrun, Pass.run_bind hrun']
    refine ⟨⟨fun _ => ⟨_, rfl⟩, fun _ => ⟨_, rfl⟩⟩, fun report report' h h' => ?_⟩
    obtain rfl := Except.ok.inj h
    obtain rfl := Except.ok.inj h'
    refine ⟨hab.violations, hab.truncated, hab.evaluated, hab.skipped, ?_⟩
    show a.violations.length = b.violations.length
    rw [← List.length_map, hab.violations, List.length_map]

/-- The validator for numbers or single values, looking at every target at every commit. -/
def numbersOrSingleInFull : Validator :=
  { numbersOrSingleOnly with config := { validateAll := true, maxViolationsPerShape := some 1 } }

theorem exists_report_of_map {α : Type} {x : Except PassError Report} {f : Report → α} {a : α}
    (h : x.toOption.map f = some a) : ∃ report, x = .ok report ∧ f report = a := by
  cases x with
  | error e => cases h
  | ok report => exact ⟨report, rfl, Option.some.inj h⟩

/-- Two values are added to nothing. The commit does not look for candidates and the bulk pass does,
and only the trace of the violation tells. -/
theorem validate_eq_validateAll_mixed :
    ∃ report report' : Report,
      (outcome (numbersOrSingleInFull.validate (.ofChange .empty Shape.mixedValues .empty))).1 =
        .ok report ∧
      (outcome (numbersOrSingleInFull.validateAll
        (Transaction.ofChange .empty Shape.mixedValues .empty).after)).1 = .ok report' ∧
      report.violations.map Violation.untraced = report'.violations.map Violation.untraced ∧
      report.violations ≠ report'.violations := by
  have hcommit : (outcome (numbersOrSingleInFull.validate
      (.ofChange .empty Shape.mixedValues .empty))).1.toOption.map Report.violations =
      some [⟨.iri "a", none, none, .base, ⟨1⟩, ⟨10⟩, .disj, [⟨11⟩, ⟨12⟩, ⟨10⟩]⟩] := by decide +kernel
  have hbulk : (outcome (numbersOrSingleInFull.validateAll
      (Transaction.ofChange .empty Shape.mixedValues .empty).after)).1.toOption.map
        Report.violations =
      some [⟨.iri "a", none, none, .base, ⟨1⟩, ⟨10⟩, .disj, [⟨11⟩, ⟨11⟩, ⟨12⟩, ⟨10⟩]⟩] := by
    decide +kernel
  obtain ⟨report, hreport, hviolations⟩ := exists_report_of_map hcommit
  obtain ⟨report', hreport', hviolations'⟩ := exists_report_of_map hbulk
  have hsame := (validate_eq_validateAll rfl .empty Shape.mixedValues .empty {} {}).2 report report'
    hreport hreport'
  refine ⟨report, report', hreport, hreport', hsame.1, ?_⟩
  rw [hviolations, hviolations']
  decide

end Validator

end GraphShapes
