import GraphShapes.Proofs.Validator.Everything

/-!
# What a step of a pass comes to

The plans that were reported before a step have no say in what it comes to. `Pass.Gives step x` says
what that is, and its rules (`Gives.pure`, `Gives.bind`) follow the `do` blocks of the pass.

Evaluating a shape is the only step that reads data, and what it comes to is a function of the plan
that the shape has without splitters (`evaluate_gives`).
-/

namespace GraphShapes

namespace Pass

variable {α β : Type}

/-- Whatever plans were reported before, the step comes to this. -/
def Gives (step : Pass α) (x : Except PassError α) : Prop :=
  ∀ before, ∃ after, step.run.run before = (x, after)

theorem Gives.pure (a : α) : Gives (Pure.pure a) (.ok a) := fun before => ⟨before, rfl⟩

/-- What two steps come to is what the first comes to, and then the second on it. -/
theorem Gives.bind {step : Pass α} {f : α → Pass β} {x : Except PassError α}
    {g : α → Except PassError β} (h : step.Gives x) (hf : ∀ a, x = .ok a → (f a).Gives (g a)) :
    (step >>= f).Gives (x >>= g) := by
  intro before
  obtain ⟨between, hrun⟩ := h before
  cases x with
  | error e => exact ⟨between, run_bind_error hrun f⟩
  | ok a =>
    rw [run_bind hrun]
    exact hf a rfl between

/-- Reading data comes to what was read, whatever was reported before. -/
theorem gives_ofOp (x : Except OpError α) : (ofOp x).Gives (x.mapError .operator) := by
  cases x with
  | error e => exact fun before => ⟨before, rfl⟩
  | ok a => exact .pure a

theorem gives_ofError (x : Except Error α) :
    (ofError x).Gives (x.mapError fun e => .plan e.toPlan) := by
  cases x with
  | error e => exact fun before => ⟨before, rfl⟩
  | ok a => exact .pure a

end Pass

/-- The outcome of a pass is what it gives from the beginning. -/
theorem Validator.outcome_of_gives {pass : Pass Report} {x : Except PassError Report}
    (h : pass.Gives x) : (outcome pass).1 = x := by
  obtain ⟨after, hrun⟩ := h #[]
  exact congrArg Prod.fst hrun

namespace Validator

/-! ## Evaluating a shape -/

/-- What the evaluation of a shape comes to if this is its plan without splitters. -/
def evaluated (config : Config) (node : NodeShape) (shape : Shape) :
    Except PlanError (Option Plan) → Except PassError Findings
  | .error e => .error (.plan e)
  | .ok none => .ok (.skip 1)
  | .ok (some q) => do
    let feed ← q.delivery.mapError .operator
    return .ofRows node shape
      (← (readUpTo config.maxViolationsPerShape feed).mapError .operator)

/-- Evaluating a shape comes to what its plan without splitters collects. -/
theorem evaluate_gives (config : Config) (ctx : Context) (node : NodeShape) (shape : Shape) :
    (evaluate config ctx node shape).Gives
      (evaluated config node shape (shape.unshared ctx (.root node) none false)) := by
  have hcomes : Planning.Comes (shape.plan ctx (.root node) none false) #[] _ Plan.OptMirrors :=
    shape.plan_comes ctx false .none
  intro before
  rw [evaluate_constant]
  obtain ⟨draft, -, ⟨e, hrun, heq⟩ | ⟨p, q, hrun, heq, hmirrors⟩⟩ := hcomes {} rfl
  · rw [heq]
    exact ⟨_, Pass.run_bind_error (Pass.run_ofPlanning_error hrun) _⟩
  · rw [heq, Pass.run_bind (Pass.run_ofPlanning hrun)]
    cases hmirrors with
    | none => exact ⟨_, rfl⟩
    | @some p q hp =>
      have hread : (do
          let feed ← Pass.ofOp q.delivery
          return Findings.ofRows node shape
            (← Pass.ofOp (readUpTo config.maxViolationsPerShape feed))).Gives
            (evaluated config node shape (.ok (some q))) :=
        (Pass.gives_ofOp _).bind fun feed _ => (Pass.gives_ofOp _).bind fun read _ => .pure _
      have hfeed : p.feedIn draft.splitters = q.delivery := hp.feed .refl
      rw [← hfeed] at hread
      exact hread _

/-! ## Passes that succeed -/

section Reliable

variable {config : Config} {ctx : Context} (hr : ctx.Reliable)
include hr

/-- A well-formed shape is evaluated without an error where no source fails. -/
theorem evaluate_succeeds (node : NodeShape) {shape : Shape} (hw : shape.wellFormed = true) :
    (evaluate config ctx node shape).Succeeds fun _ => True :=
  (evaluate_shows hr node hw).mono fun _ _ => trivial

/-- Looking at a well-formed shape succeeds where no source fails. -/
theorem examine_succeeds (node : NodeShape) {shape : Shape} (hw : shape.wellFormed = true) :
    (examine config ctx node shape).Succeeds fun _ => True := by
  rw [examine_constant]
  cases hd : ctx.restriction with
  | none => exact evaluate_succeeds hr node hw
  | some delta =>
    refine (Pass.succeeds_ofError (hr.touched_eq hd node.targets shape none)).bind
      fun touched _ => ?_
    cases touched with
    | true => exact evaluate_succeeds hr node hw
    | false => exact .pure trivial

/-- So does looking at all the shapes of a node shape, -/
theorem examineAll_succeeds (node : NodeShape) : ∀ {shapes : List Shape},
    (∀ s ∈ shapes, s.wellFormed = true) →
      (examineAll config ctx node shapes).Succeeds fun _ => True
  | [], _ => .pure trivial
  | _ :: _, hw => by
    obtain ⟨hs, hrest⟩ := List.forall_mem_cons.1 hw
    refine (examine_succeeds hr node hs).bind fun found _ => ?_
    cases ends config found with
    | true => exact .pure trivial
    | false => exact (examineAll_succeeds node hrest).bind fun _ _ => .pure trivial

/-- and at all the shapes of all the node shapes. -/
theorem examineNodes_succeeds : ∀ {nodes : List NodeShape},
    (∀ node ∈ nodes, ∀ s ∈ node.shapes, s.wellFormed = true) →
      (examineNodes config ctx nodes).Succeeds fun _ => True
  | [], _ => .pure trivial
  | node :: nodes, hw => by
    obtain ⟨hnode, hnodes⟩ := List.forall_mem_cons.1 hw
    have hrest : ∀ found : Findings, Pass.Succeeds
        (do return found.append (← examineNodes config ctx nodes)) fun _ => True :=
      fun _ => (examineNodes_succeeds hnodes).bind fun _ _ => .pure trivial
    rw [examineNodes_cons]
    cases hd : node.deactivated with
    | true => exact hrest _
    | false =>
      obtain ⟨b, hb, -⟩ := nodeTouched_eq hr node hd
      refine (Pass.succeeds_ofError hb).bind fun touched _ => ?_
      cases touched with
      | false => exact hrest _
      | true =>
        refine (examineAll_succeeds hr node hnode).bind fun found _ => ?_
        obtain ⟨found, goesOn⟩ := found
        cases goesOn with
        | true => exact hrest found
        | false => exact .pure trivial

/-- Over sources that answer, a pass over well-formed shapes ends with a report. -/
theorem exists_report {v : Validator}
    (hw : ∀ node ∈ v.shapes, ∀ s ∈ node.shapes, s.wellFormed = true) (stamp : PassStamp) :
    ∃ report, (outcome (v.run ctx stamp)).1 = .ok report := by
  have hrun : (v.run ctx stamp).Succeeds fun _ => True :=
    (examineNodes_succeeds hr hw).bind fun _ _ => .pure trivial
  obtain ⟨report, after, hrun, -⟩ := hrun #[]
  exact ⟨report, congrArg Prod.fst hrun⟩

end Reliable

end Validator

end GraphShapes
