import GraphShapes.Proofs.Planner.Failing
import GraphShapes.Proofs.Validator.Sections

/-!
# Passes over sources that fail

A pass over sources some of whose scans fail ends in an error, or with the report of the same pass
over the steady sources, which hold the same statements and answer every scan
(`Validator.fails_or_eq_steady`). No failure is taken for an end, so none can make a violation
disappear or, where rows are taken away by others, make one up. That holds for bulk passes and for
passes over commits, under all settings.

It holds under all `Conditions`, too: a scan may fail for one check or one leaf of a plan and be
answered for another.
-/

namespace GraphShapes

/-- The commit as steady sources show it. -/
def Transaction.steady (tx : Transaction) : Transaction :=
  { tx with after := tx.after.steady, delta := tx.delta.steady }

namespace Pass

variable {α β γ δ : Type} {f : α → β} {g : γ → δ}

/-- If the first step succeeds, then so does the second, with what `f` makes of the result, whatever
plans were reported before them. -/
def Steadies (f : α → β) (step : Pass α) (step' : Pass β) : Prop :=
  ∀ (before before' : Array PlanReport) (a : α) (after : Array PlanReport),
    step.run.run before = (.ok a, after) → ∃ after', step'.run.run before' = (.ok (f a), after')

theorem Steadies.pure {a : α} {b : β} (h : f a = b) : Steadies f (Pure.pure a) (Pure.pure b) := by
  subst h
  rintro before before' a' after ⟨⟩
  exact ⟨before', rfl⟩

/-- A step that fails is compared with anything. -/
theorem Steadies.throw (e : PassError) (step' : Pass β) :
    Steadies f (MonadExcept.throw e) step' := by
  rintro before before' a after ⟨⟩

/-- One step after the other: the second works on what the first comes to. -/
theorem Steadies.bind {step : Pass α} {step' : Pass β} {k : α → Pass γ} {k' : β → Pass δ}
    (h : Steadies f step step') (hk : ∀ a, Steadies g (k a) (k' (f a))) :
    Steadies g (step >>= k) (step' >>= k') := by
  intro before before' c after hrun
  obtain ⟨a, between, hstep, hrun⟩ := exists_of_run_bind hrun
  obtain ⟨between', hstep'⟩ := h before before' a between hstep
  rw [run_bind hstep']
  exact hk a between between' c after hrun

/-- A question to the sources is answered alike, or the pass fails. -/
theorem Steadies.ofError {x y : Except Error α} (h : Except.Upto Eq x y) :
    Steadies id (ofError x) (ofError y) := by
  cases x with
  | error e => exact .throw _ _
  | ok a =>
    obtain ⟨_, rfl, rfl⟩ := h a rfl
    exact .pure rfl

/-- A plan is read to the same rows, or the pass fails. -/
theorem Steadies.ofOp {x y : Except OpError α} (h : Except.Upto Eq x y) :
    Steadies id (ofOp x) (ofOp y) := by
  cases x with
  | error e => exact .throw _ _
  | ok a =>
    obtain ⟨_, rfl, rfl⟩ := h a rfl
    exact .pure rfl

/-- Reading in two steps is reading in one. -/
theorem ofOp_bind (x : Except OpError α) (h : α → Except OpError β) :
    (do ofOp (h (← ofOp x))) = ofOp (x >>= h) := by
  cases x <;> rfl

/-- Planning from nothing comes to the same plan over steady sources; which reports it adds is not
compared. -/
theorem Steadies.ofPlanning {step : Planning α} {step' : Planning β}
    (h : Planning.Steadies f step step') :
    Steadies (fun r => (f r.1, r.2.map Plan.steady)) (ofPlanning step) (ofPlanning step') := by
  intro before before' r after hrun
  cases hstep : step.run.run {} with
  | mk result draft =>
    cases result with
    | error e =>
      have hthrow : (Pass.ofPlanning step).run.run before =
          (.error (.plan e), before ++ draft.reports) := by
        unfold Pass.ofPlanning
        rw [hstep]
        rfl
      rw [hthrow] at hrun
      cases hrun
    | ok a =>
      obtain ⟨draft', hstep', hdraft⟩ := h {} {} Array.map_empty.symm a draft hstep
      rw [run_ofPlanning hstep] at hrun
      cases hrun
      rw [run_ofPlanning hstep', hdraft]
      exact ⟨_, rfl⟩

end Pass

open Pass (Steadies)

namespace Validator

/-- Up to the cap the same rows are read, or a failure is met before. -/
theorem readUpTo_upto (cap : Option UInt64) {feed feed' : RowFeed} (h : feed.Upto feed') :
    Except.Upto Eq (readUpTo cap feed) (readUpTo cap feed') := by
  cases cap with
  | some n => exact h.takeUpTo n.toNat
  | none => exact h.toExcept.map fun _ _ hrows => by rw [hrows]

/-- What is read of a plan under conditions is read of the plan over steady sources. -/
theorem rows_upto (cap : Option UInt64) (plan : Plan) (ss : Splitters) (c c' : Conditions) :
    Except.Upto Eq ((plan.during c).feedIn (ss.during c') >>= readUpTo cap)
      (plan.steady.feedIn (ss.map Plan.steady) >>= readUpTo cap) := by
  have hfeed := (plan.during c).feedIn_upto (ss.during c')
  rw [Plan.steady_during, Plan.map_steady_during] at hfeed
  exact hfeed.bind fun _ _ h => readUpTo_upto cap h

section Passes

variable (config : Config) (ctx : Context)

/-- A shape is evaluated alike, whatever fails while it is planned and read. -/
theorem steadies_evaluate (node : NodeShape) (shape : Shape) (c : Conditions) :
    Steadies id (evaluate config ctx node shape c) (evaluate config ctx.steady node shape) := by
  have hplan := shape.plan_steady (ctx.during (c.part 0)) (.root node) none false
  rw [Context.steady_during] at hplan
  rw [evaluate_constant]
  refine (Steadies.ofPlanning hplan).bind fun r => ?_
  obtain ⟨plan, ss⟩ := r
  cases plan with
  | none => exact .pure rfl
  | some plan =>
    have hread := Steadies.ofOp
      (rows_upto config.maxViolationsPerShape plan ss (c.part 1) (c.part 2))
    rw [← Pass.ofOp_bind, ← Pass.ofOp_bind] at hread
    have hfindings : Steadies id (_ >>= fun read => pure (Findings.ofRows node shape read))
        (_ >>= fun read => pure (Findings.ofRows node shape read)) :=
      hread.bind fun _ => .pure rfl
    rw [bind_assoc, bind_assoc] at hfindings
    exact hfindings

/-- It is passed over alike, unless the question about it fails. -/
theorem steadies_examine (node : NodeShape) (shape : Shape) (c : Conditions) :
    Steadies id (examine config ctx node shape c) (examine config ctx.steady node shape) := by
  have hevaluate := steadies_evaluate config ctx node shape (c.part 1)
  rw [examine, examine_constant, ctx.restriction_steady]
  cases ctx.restriction with
  | none => exact hevaluate
  | some delta =>
    have htouched := Shape.touched_upto (delta.during (c.part 0)) shape (.root node)
    refine (Steadies.ofError htouched).bind fun touched => ?_
    cases touched with
    | false => exact .pure rfl
    | true => exact hevaluate

/-- The shapes of a node shape are examined alike, by induction over them. -/
theorem steadies_examineAll (node : NodeShape) : ∀ (shapes : List Shape) (c : Conditions),
    Steadies id (examineAll config ctx node shapes c) (examineAll config ctx.steady node shapes)
  | [], _ => .pure rfl
  | shape :: rest, c => by
    refine (steadies_examine config ctx node shape (c.part 0)).bind fun found => ?_
    show Steadies id (if ends config found then _ else _) (if ends config found then _ else _)
    cases ends config found with
    | true => exact .pure rfl
    | false => exact (steadies_examineAll node rest (c.part 1)).bind fun _ => .pure rfl

/-- Whether the delta bears on a node shape is answered alike, or refused. -/
theorem nodeTouched_upto (node : NodeShape) (c : Conditions) :
    Except.Upto Eq (nodeTouched ctx node c) (nodeTouched ctx.steady node) := by
  rw [nodeTouched, nodeTouched_constant, ctx.restriction_steady]
  cases ctx.restriction with
  | none => exact .pure rfl
  | some delta => exact NodeShape.touched_upto (delta.during c) node

/-- Node shapes are gone through alike, by induction over them. -/
theorem steadies_examineNodes : ∀ (nodes : List NodeShape) (c : Conditions),
    Steadies id (examineNodes config ctx nodes c) (examineNodes config ctx.steady nodes)
  | [], _ => .pure rfl
  | node :: rest, c => by
    have hrest := steadies_examineNodes rest (c.part 2)
    -- whether the shapes of a node are passed over or found fine, the rest goes on alike
    have hskip : ∀ findings : Findings, Steadies id
        (do return findings.append (← examineNodes config ctx rest (c.part 2)))
        (do return findings.append (← examineNodes config ctx.steady rest)) :=
      fun _ => hrest.bind fun _ => .pure rfl
    rw [examineNodes, examineNodes_cons]
    cases node.deactivated with
    | true =>
      simp only [if_true, pure_bind, Bool.false_eq_true, if_false]
      exact hskip _
    | false =>
      simp only [Bool.false_eq_true, if_false]
      refine (Steadies.ofError (nodeTouched_upto ctx node (c.part 0))).bind fun touched => ?_
      cases touched with
      | false => exact hskip _
      | true =>
        refine (steadies_examineAll config ctx node node.shapes (c.part 1)).bind fun found => ?_
        obtain ⟨findings, goesOn⟩ := found
        cases goesOn with
        | true => exact hskip findings
        | false => exact .pure rfl

/-- A whole pass ends alike, or fails. -/
theorem steadies_run (v : Validator) (stamp : PassStamp) (c : Conditions) :
    Steadies id (v.run ctx stamp c) (v.run ctx.steady stamp) :=
  (steadies_examineNodes v.config ctx v.shapes c).bind fun _ => .pure rfl

end Passes

/-- A pass that does not fail gives the report of the pass over steady sources. -/
theorem outcome_steady {pass pass' : Pass Report} (h : Steadies id pass pass') :
    (∃ e, (outcome pass).1 = .error e) ∨
      ∃ report, (outcome pass).1 = .ok report ∧ (outcome pass').1 = .ok report := by
  cases hrun : pass.run.run #[] with
  | mk result after =>
    cases result with
    | error e => exact .inl ⟨e, congrArg Prod.fst hrun⟩
    | ok report =>
      obtain ⟨after', hrun'⟩ := h #[] #[] report after hrun
      exact .inr ⟨report, congrArg Prod.fst hrun, congrArg Prod.fst hrun'⟩

/-- Whatever scans fail, at once or after some hits, and even if the same scan is answered on another
occasion: a pass over a commit or over everything ends in an error, or with the report of the same
pass over steady sources with the same statements. -/
theorem fails_or_eq_steady (v : Validator) (tx : Transaction) (source : Source)
    (stamp : PassStamp) (conditions : Conditions) :
    ((∃ e, (outcome (v.validate tx stamp conditions)).1 = .error e) ∨
      ∃ report, (outcome (v.validate tx stamp conditions)).1 = .ok report ∧
        (outcome (v.validate tx.steady stamp)).1 = .ok report) ∧
    ((∃ e, (outcome (v.validateAll source stamp conditions)).1 = .error e) ∨
      ∃ report, (outcome (v.validateAll source stamp conditions)).1 = .ok report ∧
        (outcome (v.validateAll source.steady stamp)).1 = .ok report) :=
  ⟨outcome_steady (steadies_run (.incremental tx v.config) v stamp conditions),
    outcome_steady (steadies_run (.bulk source v.config) v stamp conditions)⟩

/-- Two shapes allow a node one of its three values each. The second one makes the same scan as the
first, but hits only one value, the allowed one, before the scan breaks off. The pass fails, and does
not report the two violations of the first shape alone. -/
example :
    let only (id : ShapeId) (value : Term) : Shape :=
      .constraint { id := id, path := some (.predicate (.iri "p")) } (.oneOf [value])
    let node : NodeShape :=
      { id := ⟨0⟩
        targets := [.nodes [.iri "a"]]
        shapes := [only ⟨1⟩ (.int 1), only ⟨2⟩ (.int 1)] }
    let v : Validator := ⟨[node], {}, .fill 0⟩
    let source : Source :=
      .ofStore (.ofList ([1, 2, 3].map fun n => ⟨.iri "a", .iri "p", .int n⟩))
    -- the scan for values of the second shape
    let occasion : Occasion := [1, 1, 0, 1, 1, 0, 0, 1]
    let breaking : Conditions := fun o _ fault =>
      if o = occasion then some (.brokenOff 1 (.unreadable "disk")) else fault
    let found (pass : Pass Report) := (outcome pass).1.map fun report =>
      report.violations.map fun violation => (violation.sourceShape, violation.value)
    found (v.validateAll source {} breaking) = .error (.operator (.unreadable "disk")) ∧
      found (v.validateAll source) = .ok [(⟨1⟩, some (.int 2)), (⟨1⟩, some (.int 3)),
        (⟨2⟩, some (.int 2)), (⟨2⟩, some (.int 3))] := by
  decide +kernel

end Validator

end GraphShapes
