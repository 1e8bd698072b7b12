import GraphShapes.Proofs.Planner.Caching
import GraphShapes.Proofs.Validator.Evaluation

/-!
# Caching target sets changes no report

`cacheSelectNodes` decides how often target sets are read, and nothing about what is found
(`caching_neutral`): with and without it a pass ends with the same report or with the same failure,
under all other settings, for every data and commit; and a shape that is given targets from outside
collects the same rows.

Two passes are compared step by step, and only the evaluation of a shape reads its context
otherwise than for the delta.
-/

namespace GraphShapes

namespace Pass

variable {α β : Type}

/-- Whatever plans were reported before them, both steps come to the same. -/
def Same (step step' : Pass α) : Prop := ∃ x, step.Gives x ∧ step'.Gives x

theorem Same.pure (a : α) : Same (Pure.pure a) (Pure.pure a) := ⟨.ok a, .pure a, .pure a⟩

theorem Same.ofError (x : Except Error α) : Same (Pass.ofError x) (Pass.ofError x) :=
  ⟨_, gives_ofError x, gives_ofError x⟩

theorem Same.bind {step step' : Pass α} {f f' : α → Pass β} (h : Same step step')
    (hf : ∀ a, Same (f a) (f' a)) : Same (step >>= f) (step' >>= f') := by
  choose g hg hg' using hf
  obtain ⟨x, hx, hx'⟩ := h
  exact ⟨x >>= g, hx.bind fun a _ => hg a, hx'.bind fun a _ => hg' a⟩

end Pass

/-- A pass over a commit is restricted to the delta of the commit, or not at all. -/
theorem Context.restriction_incremental {tx : Transaction} {config : Config} {delta : Delta}
    (h : (incremental tx config).restriction = some delta) : delta = tx.delta := by
  unfold restriction at h
  split at h
  · cases h
  · exact (Option.some.inj h).symm

open Pass (Same)

namespace Validator

/-- The validator with caching switched on or off. -/
def caching (v : Validator) (on : Bool) : Validator := { v with config := v.config.caching on }

section Passes

variable (config : Config) (ctx : Context) (on : Bool)

theorem evaluate_caching (node : NodeShape) (shape : Shape) :
    Same (evaluate (config.caching on) (ctx.caching on) node shape)
      (evaluate config ctx node shape) := by
  refine ⟨_, evaluate_gives _ _ node shape, ?_⟩
  rw [shape.unshared_caching ctx on _ _ Unshared.ready_none]
  exact evaluate_gives config ctx node shape

theorem examine_caching (node : NodeShape) (shape : Shape) :
    Same (examine (config.caching on) (ctx.caching on) node shape)
      (examine config ctx node shape) := by
  have hevaluate := evaluate_caching config ctx on node shape
  have hrestriction : (ctx.caching on).restriction = ctx.restriction := rfl
  rw [examine_constant, examine_constant, hrestriction]
  cases ctx.restriction with
  | none => exact hevaluate
  | some delta =>
    refine (Same.ofError _).bind fun touched => ?_
    cases touched with
    | true => exact hevaluate
    | false => exact .pure _

theorem examineAll_caching (node : NodeShape) : ∀ shapes : List Shape,
    Same (examineAll (config.caching on) (ctx.caching on) node shapes)
      (examineAll config ctx node shapes)
  | [] => .pure _
  | shape :: rest => by
    refine (examine_caching config ctx on node shape).bind fun found => ?_
    show Same (if ends config found then _ else _) (if ends config found then _ else _)
    cases ends config found with
    | true => exact .pure _
    | false => exact (examineAll_caching node rest).bind fun _ => .pure _

theorem examineNodes_caching : ∀ nodes : List NodeShape,
    Same (examineNodes (config.caching on) (ctx.caching on) nodes)
      (examineNodes config ctx nodes)
  | [] => .pure _
  | node :: rest => by
    have hskip : ∀ findings : Findings, Same
        (do return findings.append (← examineNodes (config.caching on) (ctx.caching on) rest))
        (do return findings.append (← examineNodes config ctx rest)) :=
      fun _ => (examineNodes_caching rest).bind fun _ => .pure _
    have htouched : nodeTouched (ctx.caching on) node = nodeTouched ctx node := rfl
    rw [examineNodes_cons, examineNodes_cons, htouched]
    cases node.deactivated with
    | true => exact hskip _
    | false =>
      refine (Same.ofError _).bind fun touched => ?_
      cases touched with
      | false => exact hskip _
      | true =>
        refine (examineAll_caching config ctx on node node.shapes).bind fun found => ?_
        obtain ⟨findings, goesOn⟩ := found
        cases goesOn with
        | true => exact hskip findings
        | false => exact .pure _

/-- Switching the cache on or off changes neither the report nor the failure of a pass. -/
theorem outcome_caching (v : Validator) (stamp : PassStamp) :
    (outcome ((v.caching on).run (ctx.caching on) stamp)).1 = (outcome (v.run ctx stamp)).1 := by
  have hrun : Same ((v.caching on).run (ctx.caching on) stamp) (v.run ctx stamp) :=
    (examineNodes_caching v.config ctx on v.shapes).bind fun _ => .pure _
  obtain ⟨x, hx, hx'⟩ := hrun
  rw [outcome_of_gives hx, outcome_of_gives hx']

end Passes

/-- With and without caching, a pass over a commit or over everything ends with the same report, and
the rows that a shape collects for targets that can be asked for again are the same. Over sources
that answer, well-formed shapes do have a report, and rows. -/
theorem caching_neutral {v : Validator}
    (hw : ∀ node ∈ v.shapes, ∀ s ∈ node.shapes, s.wellFormed = true) (stamp : PassStamp) :
    (∀ tx : Transaction, (outcome ((v.caching true).validate tx stamp)).1 =
        (outcome ((v.caching false).validate tx stamp)).1 ∧
      (tx.after.Reliable → tx.delta.Reliable →
        ∃ report, (outcome ((v.caching true).validate tx stamp)).1 = .ok report)) ∧
    (∀ source : Source, (outcome ((v.caching true).validateAll source stamp)).1 =
        (outcome ((v.caching false).validateAll source stamp)).1 ∧
      (source.Reliable →
        ∃ report, (outcome ((v.caching true).validateAll source stamp)).1 = .ok report)) ∧
    ∀ (ctx : Context) (s : Shape) (frame : Frame) (negate : Bool) (draft : Draft)
      (provider : Provider) (plan : Plan), provider.answer = .ok plan →
      provider.Settled draft.splitters →
      s.collect (ctx.caching true) frame (some provider) negate draft =
        s.collect (ctx.caching false) frame (some provider) negate draft ∧
      (s.wellFormed = true → ctx.source.Reliable →
        (∃ rows, provider.HandsOut draft.splitters rows) →
        ∃ rows, s.collect (ctx.caching true) frame (some provider) negate draft = .ok rows) := by
  refine ⟨fun tx => ⟨?_, fun hs hd => ?_⟩, fun source => ⟨?_, fun hs => ?_⟩, ?_⟩
  · exact (outcome_caching (.incremental tx v.config) true v stamp).trans
      (outcome_caching (.incremental tx v.config) false v stamp).symm
  · refine exists_report (v := v.caching true) ⟨hs, fun delta hdelta => ?_⟩ hw stamp
    obtain rfl := Context.restriction_incremental hdelta
    exact hd
  · exact (outcome_caching (.bulk source v.config) true v stamp).trans
      (outcome_caching (.bulk source v.config) false v stamp).symm
  · have hb := Context.isBulk_bulk source (v.caching true).config
    exact exists_report (v := v.caching true) (Context.reliable_of_isBulk hs hb) hw stamp
  · intro ctx s frame negate draft provider plan hanswer hsettled
    refine ⟨(Shape.collect_caching_of_settled hanswer hsettled true s).trans
      (Shape.collect_caching_of_settled hanswer hsettled false s).symm, fun hw hs hrows => ?_⟩
    obtain ⟨rows, hrows⟩ := hrows
    obtain ⟨q, hmirrors, hlists⟩ := hrows.exists_mirrors
    have hs : (ctx.caching true).source.Reliable := hs
    obtain ⟨collected, hcollect, -⟩ := Shape.collect_of_gives (.some hmirrors)
      (Shape.gives_among hs hlists s hw frame negate)
    exact ⟨collected, hcollect⟩

/-- Only numbers or a single value, or only this text. -/
def choiceInChoice : Shape :=
  .disj { id := ⟨5⟩ } [[.disj Shape.valuesHead Shape.numbersOrSingle],
    [.constraint { id := ⟨6⟩, path := some (.predicate (.iri "p")) } (.oneOf [.str "x"])]]

/-- A validator that asks every subject for that. -/
def choiceInChoiceOnly : Validator :=
  ⟨[{ id := ⟨1⟩, targets := [.subjectsOf (.iri "p")], shapes := [choiceInChoice] }], {}, .fill 0⟩

/-- A text is added to a number. With caching, the inner disjunction reads the candidates of the
outer one through a splitter of its own, and the report is the same; so are the rows for a target
that is given with a trace. -/
theorem caching_neutral_mixed :
    let tx : Transaction := .ofChange oneNumber oneText .empty
    let source : Source := .ofStore Shape.mixedValues
    let ctx : Context := .bulk source {}
    let given : Provider := .external (.ok (.values [⟨.iri "a", [], .delta, [⟨7⟩]⟩] .aggregated))
    let allotted (on : Bool) : Nat := ((choiceInChoice.plan (ctx.caching on) ⟨[], none⟩ (some given)
      false).run.run {}).2.splitters.size
    (∃ report, (outcome ((choiceInChoiceOnly.caching true).validate tx)).1 = .ok report ∧
      (outcome ((choiceInChoiceOnly.caching false).validate tx)).1 = .ok report) ∧
    (∃ report, (outcome ((choiceInChoiceOnly.caching true).validateAll source)).1 = .ok report ∧
      (outcome ((choiceInChoiceOnly.caching false).validateAll source)).1 = .ok report ∧
      report.violations = [⟨.iri "a", none, none, .base, ⟨1⟩, ⟨5⟩, .disj,
        [⟨11⟩, ⟨11⟩, ⟨11⟩, ⟨12⟩, ⟨10⟩, ⟨12⟩, ⟨10⟩, ⟨6⟩, ⟨5⟩]⟩]) ∧
    (∃ rows, choiceInChoice.collect (ctx.caching true) ⟨[], none⟩ (some given) false {} =
        .ok rows ∧
      choiceInChoice.collect (ctx.caching false) ⟨[], none⟩ (some given) false {} = .ok rows) ∧
    allotted true = 3 ∧ allotted false = 1 := by
  intro tx source ctx given allotted
  have hw : ∀ node ∈ choiceInChoiceOnly.shapes, ∀ s ∈ node.shapes, s.wellFormed = true := by decide
  have hgiven := Provider.handsOut_values #[] [⟨.iri "a", [], .delta, [⟨7⟩]⟩] .aggregated
  obtain ⟨hcommit, hbulk, hcollect⟩ := caching_neutral hw {}
  obtain ⟨hsame, hreport⟩ := hcommit tx
  obtain ⟨report, hreport⟩ := hreport (Source.reliable_ofStore _)
    ⟨Source.reliable_ofStore _, Source.reliable_ofStore _⟩
  obtain ⟨hsame', hreport'⟩ := hbulk source
  obtain ⟨report', hreport'⟩ := hreport' (Source.reliable_ofStore _)
  obtain ⟨hsame'', hrows⟩ :=
    hcollect ctx choiceInChoice ⟨[], none⟩ false {} given _ rfl hgiven.settled
  obtain ⟨rows, hrows⟩ := hrows (by decide) (Source.reliable_ofStore _) ⟨_, hgiven⟩
  refine ⟨⟨report, hreport, hsame ▸ hreport⟩, ⟨report', hreport', hsame' ▸ hreport', ?_⟩,
    ⟨rows, hrows, hsame'' ▸ hrows⟩, by decide +kernel, by decide +kernel⟩
  have hviolations : (outcome ((choiceInChoiceOnly.caching true).validateAll
      source)).1.toOption.map Report.violations =
      some [⟨.iri "a", none, none, .base, ⟨1⟩, ⟨5⟩, .disj,
        [⟨11⟩, ⟨11⟩, ⟨11⟩, ⟨12⟩, ⟨10⟩, ⟨12⟩, ⟨10⟩, ⟨6⟩, ⟨5⟩]⟩] := by
    decide +kernel
  rw [hreport'] at hviolations
  exact Option.some.inj hviolations

end Validator

end GraphShapes
